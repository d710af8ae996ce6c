import PeerIdentity.Bytes
import PeerIdentity.Curve.Weierstrass

/-!
# Points as byte strings

A point is written as a leading byte and its coordinates, most significant byte first: the leading
byte 4 stands for both coordinates, 2 and 3 for the `x` of a point whose `y` is even or odd, and 6
and 7 for both coordinates together with that parity.

* `Curve.uncompressed`, `Curve.compressed`: the first two forms;
* `Curve.decodePoint?`: reads every form of a point other than infinity.
-/

namespace PeerIdentity.Curve

variable (C : Curve)

/-- The form of both coordinates. -/
def uncompressed (x y : Nat) : Bytes :=
  4 :: Bytes.ofNatBE C.fieldLength x ++ Bytes.ofNatBE C.fieldLength y

/-- The form of `x` and the parity of `y`. -/
def compressed (x y : Nat) : Bytes :=
  (if y % 2 = 1 then 3 else 2) :: Bytes.ofNatBE C.fieldLength x

/-- Reads the coordinates of a point of the curve in any form. -/
def decodePoint? : Bytes → Option (Nat × Nat)
  | [] => none
  | lead :: rest =>
    let x := Bytes.toNatBE (rest.take C.fieldLength)
    let y := Bytes.toNatBE (rest.drop C.fieldLength)
    if lead = 2 ∨ lead = 3 then
      if rest.length = C.fieldLength ∧ x < C.p then (C.lift? x (lead = 3)).map (x, ·) else none
    else if lead = 4 ∨ (lead = 6 ∧ y % 2 = 0) ∨ (lead = 7 ∧ y % 2 = 1) then
      if rest.length = 2 * C.fieldLength ∧ C.IsOn x y then some (x, y) else none
    else none

end PeerIdentity.Curve
