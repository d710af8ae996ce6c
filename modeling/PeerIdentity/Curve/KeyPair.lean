import PeerIdentity.Bytes
import PeerIdentity.Curve.Weierstrass
import PeerIdentity.Hash.Shake

/-!
# Points and scalars as keys

* `Curve.PublicPoint`: a point of a curve, other than infinity;
* `Curve.KeyPair`: a scalar with its multiple of the base point.
-/

namespace PeerIdentity.Curve

/-- A point of a curve, other than the point at infinity. -/
structure PublicPoint (C : Curve) where
  x : Nat
  y : Nat
  isOn : C.IsOn x y

instance (C : Curve) : DecidableEq (PublicPoint C) := fun P Q =>
  decidable_of_iff (P.x = Q.x ∧ P.y = Q.y) (by cases P; cases Q; simp)

/-- The point with given coordinates, if it is on the curve. -/
def PublicPoint.of? (C : Curve) (x y : Nat) : Option (PublicPoint C) :=
  if h : C.IsOn x y then some ⟨x, y, h⟩ else none

/-- A secret scalar and the point that it belongs to. -/
structure KeyPair (C : Curve) where
  /-- The secret scalar. -/
  scalar : Nat
  /-- The multiple of the base point. -/
  point : PublicPoint C
  pos : 0 < scalar
  lt_order : scalar < C.order
  derived : C.mul scalar C.base = .affine point.x point.y

/-- The pair of a scalar from 1 up to below the order. -/
def KeyPair.ofScalar? (C : Curve) (k : Nat) : Option (KeyPair C) :=
  if hk : 0 < k ∧ k < C.order then
    match h : C.mul k C.base with
    | .infinity => none
    | .affine x y =>
      if isOn : C.IsOn x y then some ⟨k, ⟨x, y, isOn⟩, hk.1, hk.2, h⟩ else none
  else none

/-- The pair of a scalar that is drawn from random bytes. -/
def KeyPair.generate? (C : Curve) (entropy : Bytes) : Option (KeyPair C) :=
  let k := Bytes.toNatBE (shake256 entropy (C.scalarLength + 16)) % (C.order - 1) + 1
  KeyPair.ofScalar? C k

end PeerIdentity.Curve
