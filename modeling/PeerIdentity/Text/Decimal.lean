/-!
# Decimal integers in text

An integer is written as blanks, a sign, digits and blanks. The digits are the decimal digits of any
script, single underscores may stand between them, and there are at most 4300 of them.

* `digitValue?`: the value of a decimal digit of any script;
* `isBlank`: the characters that may surround an integer;
* `readInteger?`: the integer that a text writes.
-/

namespace PeerIdentity.Decimal

/-- The zeros of the scripts that have decimal digits, as of Unicode 15.0. The digits of a script
are ten code points in a row. -/
def zeros : List Nat :=
  [0x30, 0x660, 0x6f0, 0x7c0, 0x966, 0x9e6, 0xa66, 0xae6, 0xb66, 0xbe6, 0xc66, 0xce6, 0xd66, 0xde6,
    0xe50, 0xed0, 0xf20, 0x1040, 0x1090, 0x17e0, 0x1810, 0x1946, 0x19d0, 0x1a80, 0x1a90, 0x1b50,
    0x1bb0, 0x1c40, 0x1c50, 0xa620, 0xa8d0, 0xa900, 0xa9d0, 0xa9f0, 0xaa50, 0xabf0, 0xff10, 0x104a0,
    0x10d30, 0x11066, 0x110f0, 0x11136, 0x111d0, 0x112f0, 0x11450, 0x114d0, 0x11650, 0x116c0,
    0x11730, 0x118e0, 0x11950, 0x11c50, 0x11d50, 0x11da0, 0x11f50, 0x16a60, 0x16ac0, 0x16b50,
    0x1d7ce, 0x1d7d8, 0x1d7e2, 0x1d7ec, 0x1d7f6, 0x1e140, 0x1e2f0, 0x1e4f0, 0x1e950, 0x1fbf0]

/-- The value of a decimal digit of any script. -/
def digitValue? (c : Char) : Option Nat :=
  (zeros.find? fun z => z ≤ c.toNat && c.toNat < z + 10).map (c.toNat - ·)

/-- Whether a character may surround an integer: a space, a tab, an end of line or page, or white
space beyond ASCII. -/
def isBlank (c : Char) : Bool :=
  let n := c.toNat
  (0x09 ≤ n && n ≤ 0x0d) || n = 0x20 || n = 0x85 || n = 0xa0 || n = 0x1680 ||
    (0x2000 ≤ n && n ≤ 0x200a) || n = 0x2028 || n = 0x2029 || n = 0x202f || n = 0x205f || n = 0x3000

/-- A text without the blanks around it. -/
def trim (s : List Char) : List Char :=
  ((s.dropWhile isBlank).reverse.dropWhile isBlank).reverse

/-- The largest number of digits that is read. -/
def digitLimit : Nat :=
  4300

/-- The values of one or more digits with single underscores between them. -/
def digits? : List Char → Option (List Nat)
  | [] => none
  | [c] => (digitValue? c).map ([·])
  | c :: '_' :: rest => do return (← digitValue? c) :: (← digits? rest)
  | c :: rest => do return (← digitValue? c) :: (← digits? rest)

/-- The number that digits write, if there are not too many. -/
def magnitude? (s : List Char) : Option Nat := do
  let ds ← digits? s
  if ds.length ≤ digitLimit then some (ds.foldl (fun n d => 10 * n + d) 0) else none

/-- The integer that a text writes. -/
def readInteger? (s : String) : Option Int :=
  match trim s.toList with
  | '-' :: rest => (magnitude? rest).map fun n => -(n : Int)
  | '+' :: rest => (magnitude? rest).map Int.ofNat
  | rest => (magnitude? rest).map Int.ofNat

end PeerIdentity.Decimal
