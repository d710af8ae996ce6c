import PeerIdentity.Bytes

/-!
# Base 58

A byte string in base 58: the digits of the number that it writes, most significant first, after one
digit `1` for each leading zero byte. The digits are the decimal digits and the letters of both
cases without `0`, `O`, `I` and `l`.

* `Base58.encode`: the text of a byte string;
* `Base58.decode`: the byte string of a text, or the first character that is no digit.
-/

namespace PeerIdentity.Base58

/-- The digits in ascending order. -/
def alphabet : List Char :=
  "123456789ABCDEFGHJKLMNPQRSTUVWXYZabcdefghijkmnopqrstuvwxyz".toList

/-- The digit of a value below 58. -/
def digit (v : Nat) : Char :=
  alphabet.getD v '1'

/-- The value of a digit. -/
def value? (c : Char) : Option Nat :=
  alphabet.findIdx? (· = c)

/-- The values of the digits of a number, least significant first, without zeros at the end. -/
def digitValues (n : Nat) : List Nat :=
  if n = 0 then [] else n % 58 :: digitValues (n / 58)
termination_by n
decreasing_by omega

/-- The number that digits write, most significant first, or the first character that is no
digit. -/
def number (s : List Char) : Except Char Nat :=
  s.foldlM (fun n c =>
    match value? c with
    | some v => .ok (58 * n + v)
    | none => .error c) 0

/-- The text of a byte string. -/
def encode (b : Bytes) : String :=
  let zeros := (b.takeWhile (· = 0)).length
  String.ofList
    (List.replicate zeros '1' ++ (digitValues (Bytes.toNatBE b)).reverse.map digit)

/-- The byte string of a text, or the first character that is no digit. -/
def decode (s : String) : Except Char Bytes :=
  let zeros := (s.toList.takeWhile (· = '1')).length
  (number s.toList).map fun n => List.replicate zeros 0 ++ Bytes.ofNat n

end PeerIdentity.Base58
