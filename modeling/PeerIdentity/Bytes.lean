/-!
# Byte strings

A byte string is a list of bytes. This module reads and writes numbers as byte strings, in both
byte orders, and writes byte strings in hexadecimal.

* `toNatBE`, `ofNatBE`: most significant byte first, a fixed number of bytes;
* `toNatLE`, `ofNatLE`: least significant byte first;
* `ofNat`: most significant byte first, without leading zeros;
* `hex`, `ofHex?`: lowercase hexadecimal, two digits for a byte.
-/

namespace PeerIdentity

/-- A byte string. -/
abbrev Bytes := List UInt8

namespace Bytes

/-! ## Numbers -/

/-- The number that `b` writes in base 256, most significant byte first. -/
def toNatBE (b : Bytes) : Nat :=
  b.foldl (fun n x => 256 * n + x.toNat) 0

/-- The number that `b` writes in base 256, least significant byte first. -/
def toNatLE : Bytes → Nat
  | [] => 0
  | x :: b => x.toNat + 256 * toNatLE b

/-- The `count` lowest base-256 digits of `n`, least significant first. -/
def ofNatLE : (count : Nat) → (n : Nat) → Bytes
  | 0, _ => []
  | count + 1, n => UInt8.ofNat n :: ofNatLE count (n / 256)

/-- The `count` lowest base-256 digits of `n`, most significant first. -/
def ofNatBE (count n : Nat) : Bytes :=
  (ofNatLE count n).reverse

/-- The number of binary digits of `n`, and 0 for 0. -/
def bitLength (n : Nat) : Nat :=
  if n = 0 then 0 else n.log2 + 1

/-- The number of base-256 digits of `n`, and 0 for 0. -/
def byteLength (n : Nat) : Nat :=
  (bitLength n + 7) / 8

/-- The base-256 digits of `n`, most significant first and without leading zeros. -/
def ofNat (n : Nat) : Bytes :=
  ofNatBE (byteLength n) n

@[simp] theorem length_ofNatLE (count n : Nat) : (ofNatLE count n).length = count := by
  induction count generalizing n with
  | zero => rfl
  | succ count ih => simp [ofNatLE, ih]

@[simp] theorem length_ofNatBE (count n : Nat) : (ofNatBE count n).length = count := by
  simp [ofNatBE]

/-! ## Hexadecimal -/

/-- The hexadecimal digit of a value below 16. -/
def hexDigit (v : Nat) : Char :=
  if v < 10 then Char.ofNat (48 + v) else Char.ofNat (87 + v)

/-- The value of a hexadecimal digit of either case. -/
def hexValue? (c : Char) : Option Nat :=
  if '0' ≤ c ∧ c ≤ '9' then some (c.toNat - 48)
  else if 'a' ≤ c ∧ c ≤ 'f' then some (c.toNat - 87)
  else if 'A' ≤ c ∧ c ≤ 'F' then some (c.toNat - 55)
  else none

/-- The two lowercase hexadecimal digits of a byte. -/
def hexPair (x : UInt8) : List Char :=
  [hexDigit (x.toNat / 16), hexDigit (x.toNat % 16)]

/-- Lowercase hexadecimal, two digits for each byte. -/
def hex (b : Bytes) : String :=
  String.ofList (b.flatMap hexPair)

/-- Reads pairs of hexadecimal digits. -/
def ofHexDigits? : List Char → Option Bytes
  | [] => some []
  | [_] => none
  | h :: l :: rest =>
    match hexValue? h, hexValue? l, ofHexDigits? rest with
    | some h, some l, some b => some (UInt8.ofNat (16 * h + l) :: b)
    | _, _, _ => none

/-- Reads a hexadecimal text with two digits for each byte. -/
def ofHex? (s : String) : Option Bytes :=
  ofHexDigits? s.toList

/-! ## Blocks -/

/-- The first `count` blocks of `size` bytes. -/
def blocks (size : Nat) : (count : Nat) → Bytes → List Bytes
  | 0, _ => []
  | count + 1, b => b.take size :: blocks size count (b.drop size)

end Bytes

end PeerIdentity
