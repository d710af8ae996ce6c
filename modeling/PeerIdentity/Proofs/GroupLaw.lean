import Mathlib.AlgebraicGeometry.EllipticCurve.Affine.Point
import PeerIdentity.Curve.KeyPair
import PeerIdentity.Proofs.Primality

/-!
# The group of a curve

The chord and tangent law on numbers below the prime is the group law of the elliptic curve over
the field of residues, and the multiples are those of that group. For a curve whose base point has
prime order, multiples of a multiple of the base point depend on their scalars modulo the order
only.

* `Curve.weierstrass`, `Curve.coordinates`: the elliptic curve, and its points as pairs of numbers;
* `Curve.add_coordinates`, `Curve.mul_coordinates`: sums and multiples;
* `Curve.PrimeOrder`: the curves with a base point of prime order, of which secp256k1 is one;
* `Curve.PrimeOrder.mul_base`, `Curve.PrimeOrder.nsmul_eq_neg`: multiples of the base point, and
  multiples by opposite scalars;
* `Curve.PrimeOrder.nsmul_basePoint_ne_zero`: no multiple by a positive number below the order is
  zero;
* `Curve.KeyPair.coordinates_point`: the point of a keypair is a multiple of the base point.
-/

namespace PeerIdentity.Curve

open WeierstrassCurve WeierstrassCurve.Affine

/-- The elliptic curve over the field of residues. -/
@[simps]
def weierstrass (C : Curve) : Affine (ZMod C.p) where
  a₁ := 0
  a₂ := 0
  a₃ := 0
  a₄ := C.a
  a₆ := C.b

variable {C : Curve}

/-- The coordinates of a point, as numbers below the prime. -/
def coordinates : C.weierstrass.Point → Point
  | .zero => .infinity
  | .some x y _ => .affine x.val y.val

@[simp]
theorem coordinates_zero : coordinates (0 : C.weierstrass.Point) = .infinity :=
  rfl

@[simp]
theorem coordinates_some {x y : ZMod C.p} (h : C.weierstrass.Nonsingular x y) :
    coordinates (.some x y h) = .affine x.val y.val :=
  rfl

/-- Only the zero of the group has no coordinates. -/
theorem coordinates_eq_infinity_iff {P : C.weierstrass.Point} :
    coordinates P = .infinity ↔ P = 0 := by
  cases P with
  | zero => exact iff_of_true rfl rfl
  | some x y h => exact iff_of_false nofun nofun

/-- Opposite points have the same `x`. -/
theorem exists_coordinates_neg_iff {P : C.weierstrass.Point} {x : Nat} :
    (∃ y, coordinates (-P) = .affine x y) ↔ ∃ y, coordinates P = .affine x y := by
  cases P with
  | zero => exact Iff.rfl
  | some x₁ y₁ h => simp

/-! ## Sums -/

section PrimeField

variable [Fact C.p.Prime]

/-- A number below the prime is the value of a residue when it stands for it. -/
theorem eq_val_of_cast_eq {n : Nat} {a : ZMod C.p} (hn : n < C.p) (h : (n : ZMod C.p) = a) :
    n = a.val := by
  rw [← h, ZMod.val_cast_of_lt hn]

/-- The third point on a line, for a slope that stands for `ℓ`. -/
theorem reflect_val {s : Nat} {ℓ : ZMod C.p} (hs : (s : ZMod C.p) = ℓ) (x₁ y₁ x₂ : ZMod C.p) :
    C.reflect s x₁.val y₁.val x₂.val =
      .affine (C.weierstrass.addX x₁ x₂ ℓ).val (C.weierstrass.addY x₁ x₂ y₁ ℓ).val := by
  have hp : 0 < C.p := (Fact.out : C.p.Prime).pos
  have hx : subMod (subMod (s * s) x₁.val C.p) x₂.val C.p =
      (C.weierstrass.addX x₁ x₂ ℓ).val := by
    refine eq_val_of_cast_eq (subMod_lt hp _ _) ?_
    simp only [cast_subMod hp, Nat.cast_mul, ZMod.natCast_zmod_val, hs, addX, weierstrass_a₁,
      weierstrass_a₂]
    ring
  rw [reflect, hx, Point.affine.injEq]
  refine ⟨rfl, eq_val_of_cast_eq (subMod_lt hp _ _) ?_⟩
  simp only [cast_subMod hp, Nat.cast_mul, ZMod.natCast_zmod_val, hs, addY, negY, negAddY,
    weierstrass_a₁, weierstrass_a₃]
  ring

/-- The slope of the tangent. -/
theorem cast_tangent {x y₁ y₂ : ZMod C.p} (hy : y₁ ≠ C.weierstrass.negY x y₂) :
    ((divMod (3 * (x.val * x.val) + C.a) (2 * y₁.val) C.p : Nat) : ZMod C.p) =
      C.weierstrass.slope x x y₁ y₂ := by
  have hnum : ((3 * (x.val * x.val) + C.a : Nat) : ZMod C.p) = 3 * x ^ 2 + C.a := by
    push_cast [ZMod.natCast_zmod_val]
    ring
  have hden : ((2 * y₁.val : Nat) : ZMod C.p) = y₁ - C.weierstrass.negY x y₁ := by
    push_cast [ZMod.natCast_zmod_val, negY, weierstrass_a₁, weierstrass_a₃]
    ring
  rw [slope_of_Y_ne rfl hy, cast_divMod, hnum, hden]
  simp

/-- The slope of the chord. -/
theorem cast_chord {x₁ x₂ y₁ y₂ : ZMod C.p} (hx : x₁ ≠ x₂) :
    ((divMod (subMod y₂.val y₁.val C.p) (subMod x₂.val x₁.val C.p) C.p : Nat) : ZMod C.p) =
      C.weierstrass.slope x₁ x₂ y₁ y₂ := by
  have hp : 0 < C.p := (Fact.out : C.p.Prime).pos
  rw [slope_of_X_ne hx, cast_divMod, cast_subMod hp, cast_subMod hp, ← neg_sub y₂, ← neg_sub x₂,
    neg_div_neg_eq]
  simp

/-- Points over the same `x` cancel when the sum of their `y` is divisible by the prime. -/
theorem val_add_val_mod_eq_zero_iff {x y₁ y₂ : ZMod C.p} :
    (y₁.val + y₂.val) % C.p = 0 ↔ y₁ = C.weierstrass.negY x y₂ := by
  have hneg : C.weierstrass.negY x y₂ = -y₂ := by simp
  rw [← Nat.dvd_iff_mod_eq_zero, ← ZMod.natCast_eq_zero_iff, hneg, eq_neg_iff_add_eq_zero]
  simp

/-- Points are added by their coordinates as in the group. -/
theorem add_coordinates (P Q : C.weierstrass.Point) :
    C.add (coordinates P) (coordinates Q) = coordinates (P + Q) := by
  match P, Q with
  | .zero, Q => rw [← Point.zero_def, zero_add]; rfl
  | .some x₁ y₁ h₁, .zero => rw [← Point.zero_def, add_zero]; rfl
  | .some x₁ y₁ h₁, .some x₂ y₂ h₂ =>
    rw [coordinates_some, coordinates_some, add]
    -- The cases are those of the chord and tangent law on both sides: equal numbers stand for equal
    -- residues, and the sum of two `y` vanishes modulo the prime when the points are opposite.
    by_cases hx : x₁ = x₂
    · subst hx
      rw [if_pos rfl]
      by_cases hy : y₁ = C.weierstrass.negY x₁ y₂
      · rw [if_pos (val_add_val_mod_eq_zero_iff.mpr hy), Affine.Point.add_of_Y_eq rfl hy,
          coordinates_zero]
      · rw [if_neg (mt val_add_val_mod_eq_zero_iff.mp hy), reflect_val (cast_tangent hy),
          Affine.Point.add_of_Y_ne hy, coordinates_some]
    · rw [if_neg (mt (ZMod.val_injective C.p ·) hx), reflect_val (cast_chord hx),
        Affine.Point.add_of_X_ne hx, coordinates_some]

/-- Doubling and adding computes multiples. -/
theorem mul_coordinates (k : Nat) (P : C.weierstrass.Point) :
    C.mul k (coordinates P) = coordinates (k • P) := by
  -- A step leads from the multiple by a number to that by the number with one more digit.
  have hstep (j : Nat) (bit : Bool) :
      (if bit then C.add (C.add (coordinates (j • P)) (coordinates (j • P))) (coordinates P)
        else C.add (coordinates (j • P)) (coordinates (j • P))) =
        coordinates ((2 * j + bit.toNat) • P) := by
    cases bit with
    | false => simp [add_coordinates, two_mul, add_nsmul]
    | true => simp [add_coordinates, two_mul, add_nsmul]
  have hzero : Point.infinity = coordinates (0 • P) := by rw [zero_nsmul, coordinates_zero]
  rw [mul, hzero]
  exact foldBits_log2 (f := fun j => coordinates (j • P)) hstep k

/-- The points of a curve satisfy its equation over the field of residues. -/
theorem equation_of_isOn {x y : Nat} (h : C.IsOn x y) :
    C.weierstrass.Equation (x : ZMod C.p) (y : ZMod C.p) := by
  have hequation := congrArg (Nat.cast : Nat → ZMod C.p) h.2.2
  rw [rhs, ZMod.natCast_mod, ZMod.natCast_mod] at hequation
  push_cast [ZMod.natCast_mod] at hequation
  rw [equation_iff]
  simp only [weierstrass_a₁, weierstrass_a₂, weierstrass_a₃, weierstrass_a₄, weierstrass_a₆]
  linear_combination hequation

/-- Residues that satisfy the equation are the coordinates of a point. -/
theorem isOn_val {x y : ZMod C.p} (h : C.weierstrass.Equation x y) : C.IsOn x.val y.val := by
  rw [equation_iff] at h
  simp only [weierstrass_a₁, weierstrass_a₂, weierstrass_a₃, weierstrass_a₄, weierstrass_a₆] at h
  refine ⟨ZMod.val_lt x, ZMod.val_lt y, ?_⟩
  rw [rhs, ← ZMod.natCast_eq_natCast_iff']
  push_cast [ZMod.natCast_mod, ZMod.natCast_zmod_val]
  linear_combination h

/-- The coordinates of a point of the group satisfy the equation of the curve. -/
theorem isOn_of_coordinates {P : C.weierstrass.Point} {x y : Nat}
    (h : coordinates P = .affine x y) : C.IsOn x y := by
  cases P with
  | zero => cases h
  | some x₁ y₁ hP =>
    obtain ⟨rfl, rfl⟩ := Point.affine.inj h
    exact isOn_val hP.1

end PrimeField

/-! ## Base points of prime order -/

/-- The curve is smooth if the prime does not divide its discriminant. -/
theorem isElliptic_of_not_dvd (hp : C.p.Prime) (h : ¬ C.p ∣ 64 * C.a ^ 3 + 432 * C.b ^ 2) :
    C.weierstrass.IsElliptic := by
  have : Fact C.p.Prime := ⟨hp⟩
  have hΔ : C.weierstrass.Δ = -((64 * C.a ^ 3 + 432 * C.b ^ 2 : Nat) : ZMod C.p) := by
    simp only [Δ, b₂, b₄, b₆, b₈, weierstrass_a₁, weierstrass_a₂, weierstrass_a₃, weierstrass_a₄,
      weierstrass_a₆]
    push_cast
    ring
  refine ⟨isUnit_iff_ne_zero.mpr ?_⟩
  rwa [hΔ, neg_ne_zero, Ne, ZMod.natCast_eq_zero_iff]

/-- The curves over a prime field whose base point has prime order. -/
class PrimeOrder (C : Curve) : Prop where
  prime : C.p.Prime
  prime_order : C.order.Prime
  isElliptic : C.weierstrass.IsElliptic
  isOn_base : C.IsOn C.gx C.gy
  mul_order_base : C.mul C.order C.base = .infinity

instance secp256k1_primeOrder : PrimeOrder secp256k1 where
  prime := prime_secp256k1
  prime_order := prime_order_secp256k1
  isElliptic := isElliptic_of_not_dvd prime_secp256k1 (by decide +kernel)
  isOn_base := by decide +kernel
  mul_order_base := by decide +kernel

namespace PrimeOrder

instance factPrime (C : Curve) [PrimeOrder C] : Fact C.p.Prime :=
  ⟨prime⟩

instance factPrimeOrder (C : Curve) [PrimeOrder C] : Fact C.order.Prime :=
  ⟨prime_order⟩

instance isElliptic_weierstrass (C : Curve) [PrimeOrder C] : C.weierstrass.IsElliptic :=
  isElliptic

/-- The base point. -/
def basePoint (C : Curve) [PrimeOrder C] : C.weierstrass.Point :=
  .mk (equation_of_isOn isOn_base)

variable [PrimeOrder C]

/-- The base point has the coordinates that the curve gives. -/
theorem coordinates_basePoint : coordinates (basePoint C) = C.base := by
  obtain ⟨hx, hy, -⟩ := (isOn_base : C.IsOn C.gx C.gy)
  rw [basePoint, Point.mk, coordinates_some, ZMod.val_cast_of_lt hx, ZMod.val_cast_of_lt hy, base]

/-- A multiple of the base point has the coordinates that are computed for it. -/
theorem mul_base (k : Nat) : C.mul k C.base = coordinates (k • basePoint C) := by
  rw [← coordinates_basePoint, mul_coordinates]

/-- The multiple of the base point by its order is zero. -/
theorem order_nsmul_basePoint : C.order • basePoint C = 0 := by
  rw [← coordinates_eq_infinity_iff, ← mul_base, mul_order_base]

theorem basePoint_ne_zero : basePoint C ≠ 0 := by
  rw [Ne, ← coordinates_eq_infinity_iff, coordinates_basePoint]
  exact nofun

/-- Multiples of the base point by positive numbers below its order are not zero. -/
theorem nsmul_basePoint_ne_zero {k : Nat} (hpos : 0 < k) (hlt : k < C.order) :
    k • basePoint C ≠ 0 := by
  have horder : addOrderOf (basePoint C) = C.order :=
    addOrderOf_eq_prime order_nsmul_basePoint basePoint_ne_zero
  exact nsmul_ne_zero_of_lt_addOrderOf hpos.ne' (horder.symm ▸ hlt)

/-- Scalars whose sum is divisible by the order have opposite multiples. -/
theorem nsmul_eq_neg {P : C.weierstrass.Point} (hP : C.order • P = 0) {j k : Nat}
    (h : (j : ZMod C.order) = -k) : j • P = -(k • P) := by
  have hdvd : C.order ∣ j + k := by
    rw [← ZMod.natCast_eq_zero_iff, Nat.cast_add, h, neg_add_cancel]
  rw [eq_neg_iff_add_eq_zero, ← add_nsmul]
  obtain ⟨c, hc⟩ := hdvd
  rw [hc, mul_nsmul, hP, nsmul_zero]

end PrimeOrder

/-- The point of a keypair is a multiple of the base point. -/
theorem KeyPair.coordinates_point [PrimeOrder C] (k : KeyPair C) :
    .affine k.point.x k.point.y = coordinates (k.scalar • PrimeOrder.basePoint C) := by
  rw [← k.derived, PrimeOrder.mul_base]

/-- The base point is its own multiple by 1. -/
theorem mul_one_base [PrimeOrder C] : C.mul 1 C.base = .affine C.gx C.gy := by
  rw [PrimeOrder.mul_base, one_nsmul, PrimeOrder.coordinates_basePoint, base]

/-- The pair of the scalar 1, whose point is the base point. -/
def KeyPair.one (C : Curve) [PrimeOrder C] : KeyPair C where
  scalar := 1
  point := ⟨C.gx, C.gy, PrimeOrder.isOn_base⟩
  pos := Nat.one_pos
  lt_order := PrimeOrder.prime_order.one_lt
  derived := mul_one_base

end PeerIdentity.Curve
