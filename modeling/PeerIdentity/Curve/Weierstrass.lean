import PeerIdentity.Arithmetic.SquareRoot

/-!
# Short Weierstrass curves

Points of a curve `y² = x³ + a x + b` over the integers modulo a prime, with the chord and tangent
law in affine coordinates.

* `Curve.IsOn`: the points of the curve, with coordinates below the prime;
* `Curve.add`, `Curve.mul`: the group law and multiples;
* `Curve.lift?`: the point over a given `x` with a given parity of `y`.
-/

namespace PeerIdentity

/-- A curve `y² = x³ + a x + b` modulo the prime `p`, with a base point of prime order. -/
structure Curve where
  /-- The name under which the curve is standardised. -/
  name : String
  p : Nat
  a : Nat
  b : Nat
  /-- The base point. -/
  gx : Nat
  gy : Nat
  /-- The order of the base point. -/
  order : Nat

namespace Curve

/-- A point in affine coordinates, or the point at infinity. -/
inductive Point where
  | infinity
  | affine (x y : Nat)
  deriving DecidableEq, Repr

variable (C : Curve)

/-- The value of `x³ + a x + b`. -/
def rhs (x : Nat) : Nat :=
  (x * x % C.p * x + C.a * x + C.b) % C.p

/-- The coordinates of a point of the curve, other than the point at infinity. -/
def IsOn (x y : Nat) : Prop :=
  x < C.p ∧ y < C.p ∧ y * y % C.p = C.rhs x

instance (x y : Nat) : Decidable (C.IsOn x y) :=
  inferInstanceAs (Decidable (_ ∧ _ ∧ _))

/-- The base point. -/
def base : Point :=
  .affine C.gx C.gy

/-- The third point on a line of slope `s` through points over `x₁` and `x₂`, reflected. -/
def reflect (s x₁ y₁ x₂ : Nat) : Point :=
  let x := subMod (subMod (s * s) x₁ C.p) x₂ C.p
  .affine x (subMod (s * subMod x₁ x C.p) y₁ C.p)

/-- Addition: infinity is neutral, opposite points cancel, equal points use the tangent and others
the chord. -/
def add : Point → Point → Point
  | .infinity, Q => Q
  | P, .infinity => P
  | .affine x₁ y₁, .affine x₂ y₂ =>
    if x₁ = x₂ then
      if (y₁ + y₂) % C.p = 0 then .infinity
      else C.reflect (divMod (3 * (x₁ * x₁) + C.a) (2 * y₁) C.p) x₁ y₁ x₂
    else C.reflect (divMod (subMod y₂ y₁ C.p) (subMod x₂ x₁ C.p) C.p) x₁ y₁ x₂

/-- The multiple `k • P`, by doubling for each binary digit of `k` and adding for each one. -/
def mul (k : Nat) (P : Point) : Point :=
  foldBits (fun Q bit => if bit then C.add (C.add Q Q) P else C.add Q Q) k (k.log2 + 1) .infinity

/-- The `y` of the given parity over `x`, if there is a point of the curve over `x`. -/
def lift? (x : Nat) (odd : Bool) : Option Nat :=
  match sqrtMod? (C.rhs x) C.p with
  | none => none
  | some r =>
    let y := if (r % 2 = 1) = odd then r else (C.p - r) % C.p
    if (y % 2 = 1) = odd then some y else none

/-- The number of bytes of a coordinate. -/
def fieldLength : Nat :=
  (C.p.log2 + 8) / 8

/-- The number of bytes of a scalar. -/
def scalarLength : Nat :=
  (C.order.log2 + 8) / 8

end Curve

end PeerIdentity
