import PeerIdentity.Bytes

/-!
# Base 32

A byte string in base 32: its bits, filled up with zeros to a multiple of five, in digits of five
bits. The digits are the letters and then `2` to `7`.

* `Base32.encode`: the text of a byte string in lower case, without padding;
* `Base32.decode`: the byte string of a text in upper case, which may be padded. Bits beyond the
  last whole byte are dropped.
-/

namespace PeerIdentity.Base32

/-! ## Digits -/

/-- The lower-case digit of a value below 32. -/
def digit (v : Nat) : Char :=
  if v < 26 then Char.ofNat (97 + v) else Char.ofNat (24 + v)

/-- The value of an upper-case digit. -/
def value? (c : Char) : Option Nat :=
  if 'A' ≤ c ∧ c ≤ 'Z' then some (c.toNat - 65)
  else if '2' ≤ c ∧ c ≤ '7' then some (c.toNat - 24)
  else none

/-- The `count` lowest base-32 digits of a number, least significant first. -/
def digitValues : (count : Nat) → (n : Nat) → List Nat
  | 0, _ => []
  | count + 1, n => n % 32 :: digitValues count (n / 32)

/-- The number that digits write, most significant first. -/
def number? (s : List Char) : Option Nat :=
  s.foldlM (fun n c => (value? c).map (32 * n + ·)) 0

/-! ## Writing -/

/-- The number of digits for a number of bytes. -/
def digitCount (length : Nat) : Nat :=
  (8 * length + 4) / 5

/-- The text of a byte string, in lower case and without padding. -/
def encode (b : Bytes) : List Char :=
  let count := digitCount b.length
  -- Zeros fill up the last digit.
  let n := Bytes.toNatBE b <<< (5 * count - 8 * b.length)
  (digitValues count n).reverse.map digit

/-! ## Reading -/

/-- Why a text is no byte string. -/
inductive Fault where
  | notAscii
  | notDigit
  | padding
  deriving DecidableEq, Repr

/-- The message for a text that is no byte string. -/
def Fault.message : Fault → String
  | notAscii => "string argument should contain only ASCII characters"
  | notDigit => "Non-base32 digit found"
  | padding => "Incorrect padding"

/-- The lengths of the padding after the digits of some bytes. -/
def paddingLengths : List Nat :=
  [0, 1, 3, 4, 6]

/-- The byte string of a text in upper case. The text is first padded up to a multiple of eight
characters. -/
def decode (s : List Char) : Except Fault Bytes :=
  let digits := (s.reverse.dropWhile (· = '=')).reverse
  let padding := (s.length + 7) / 8 * 8 - digits.length
  if ¬ s.all (·.toNat < 128) then .error .notAscii
  else
    match number? digits with
    | none => .error .notDigit
    | some n =>
      if padding ∈ paddingLengths then
        -- The digits hold at most four bits more than these bytes.
        let count := 5 * digits.length / 8
        .ok (Bytes.ofNatBE count (n >>> (5 * digits.length - 8 * count)))
      else .error .padding

end PeerIdentity.Base32
