import PeerIdentity.Bytes
import PeerIdentity.Text.Printable

/-!
# Quoted text

Messages quote text in single quotes, or in double quotes when the text holds a single quote and no
double one. The quote and the backslash follow a backslash, and unprintable characters are written
by their code points.

* `quoted`: a text with its quotes;
* `quotedBytes`: a byte string as the ASCII text that it writes.
-/

namespace PeerIdentity

/-- The `count` lowest hexadecimal digits of `n`. -/
def hexDigits (count n : Nat) : List Char :=
  ((List.range count).map fun i => Bytes.hexDigit (n >>> (4 * i) % 16)).reverse

/-- A character that is not printable: a short form for the ends of line and the tab, else the code
point in two, four or eight hexadecimal digits. -/
def escapeUnprintable (c : Char) : List Char :=
  if c = '\n' then ['\\', 'n']
  else if c = '\r' then ['\\', 'r']
  else if c = '\t' then ['\\', 't']
  else if c.toNat < 0x100 then '\\' :: 'x' :: hexDigits 2 c.toNat
  else if c.toNat < 0x10000 then '\\' :: 'u' :: hexDigits 4 c.toNat
  else '\\' :: 'U' :: hexDigits 8 c.toNat

/-- A character between quotes of a given kind. -/
def escapeChar (quote c : Char) : List Char :=
  if c = quote ∨ c = '\\' then ['\\', c]
  else if isPrintable c then [c]
  else escapeUnprintable c

/-- The quotes for a text. -/
def quoteFor (s : List Char) : Char :=
  if s.contains '\'' && !s.contains '"' then '"' else '\''

/-- A text in quotes. -/
def quoted (s : String) : String :=
  let q := quoteFor s.toList
  String.ofList (q :: s.toList.flatMap (escapeChar q) ++ [q])

/-- A byte between quotes of a given kind. Bytes beyond ASCII stand for no characters. -/
def escapeByte (quote : Char) (b : UInt8) : List Char :=
  let c := Char.ofNat b.toNat
  if b < 0x80 then escapeChar quote c else escapeUnprintable c

/-- A byte string in quotes, after the letter that tells it from a text. -/
def quotedBytes (b : Bytes) : String :=
  let q := quoteFor (b.map fun x => Char.ofNat x.toNat)
  String.ofList ('b' :: q :: b.flatMap (escapeByte q) ++ [q])

end PeerIdentity
