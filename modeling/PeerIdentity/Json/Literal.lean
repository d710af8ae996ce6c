import PeerIdentity.Bytes

/-!
# String literals of JSON

* `Json.literal`: a text as a string literal. The quote, the backslash and the control characters
  are escaped, and no other character is;
* `Json.readLiteral`: the text of a string literal and the characters after it. Control characters
  must be escaped, and the escapes of a pair of surrogates write one character.
-/

namespace PeerIdentity.Json

/-! ## Writing -/

/-- A character inside a string literal. -/
def escapeChar (c : Char) : List Char :=
  if c = '"' then ['\\', '"']
  else if c = '\\' then ['\\', '\\']
  else if c.toNat < 32 then
    match c.toNat with
    | 8 => ['\\', 'b']
    | 9 => ['\\', 't']
    | 10 => ['\\', 'n']
    | 12 => ['\\', 'f']
    | 13 => ['\\', 'r']
    | n => ['\\', 'u', '0', '0', Bytes.hexDigit (n / 16), Bytes.hexDigit (n % 16)]
  else [c]

/-- A text as a string literal. -/
def literal (s : String) : List Char :=
  '"' :: s.toList.flatMap escapeChar ++ ['"']

/-! ## Reading -/

/-- The number that four hexadecimal digits write. -/
def unit? (a b c d : Char) : Option Nat := do
  let a ← Bytes.hexValue? a
  let b ← Bytes.hexValue? b
  let c ← Bytes.hexValue? c
  let d ← Bytes.hexValue? d
  return ((a * 16 + b) * 16 + c) * 16 + d

/-- Whether a number is the first of a pair of surrogates. -/
def isLeading (u : Nat) : Bool :=
  0xd800 ≤ u && u < 0xdc00

/-- Whether a number is the second of a pair of surrogates. -/
def isTrailing (u : Nat) : Bool :=
  0xdc00 ≤ u && u < 0xe000

/-- The character of a pair of surrogates. -/
def pairChar (u v : Nat) : Char :=
  Char.ofNat (0x10000 + (u - 0xd800) * 0x400 + (v - 0xdc00))

/-- The character that a letter after a backslash writes. -/
def simpleEscape? : Char → Option Char
  | '"' => some '"'
  | '\\' => some '\\'
  | '/' => some '/'
  | 'b' => some (Char.ofNat 8)
  | 'f' => some (Char.ofNat 12)
  | 'n' => some '\n'
  | 'r' => some '\r'
  | 't' => some '\t'
  | _ => none

/-- Puts a character in front of what was read. -/
def consChar (c : Char) : Option (List Char × List Char) → Option (List Char × List Char)
  | some (s, rest) => some (c :: s, rest)
  | none => none

/-- Reads a string literal after its first quote: the text and the characters after the literal. -/
def readLiteral : List Char → Option (List Char × List Char)
  | [] => none
  | '"' :: rest => some ([], rest)
  | '\\' :: 'u' :: a :: b :: c :: d :: rest =>
    match unit? a b c d with
    | none => none
    | some u =>
      if isLeading u then
        match rest with
        | '\\' :: 'u' :: e :: f :: g :: h :: rest =>
          match unit? e f g h with
          | none => none
          | some v => if isTrailing v then consChar (pairChar u v) (readLiteral rest) else none
        | _ => none
      else if isTrailing u then none
      else consChar (Char.ofNat u) (readLiteral rest)
  | '\\' :: c :: rest =>
    match simpleEscape? c with
    | none => none
    | some c => consChar c (readLiteral rest)
  | c :: rest => if c.toNat < 32 ∨ c = '\\' then none else consChar c (readLiteral rest)

end PeerIdentity.Json
