import PeerIdentity.Proofs.MlDsa.Transform

/-!
# Products of polynomials

The transform takes sums to sums and products modulo `X ^ 256 + 1` to products value by value. A
product is built up from the coefficients of one factor, each of which adds a multiple of the other
factor and shifts it once more. So the product with a polynomial that has few coefficients, all of
them `1` or `-1`, has small coefficients if the other factor does.

* `transform_add`, `transform_sub`: sums;
* `product`: the product modulo `X ^ 256 + 1`;
* `coeff_untransform_pointwise`: how it is computed;
* `size_product_le`: the coefficients of a product with a sparse polynomial.
-/

namespace PeerIdentity.MlDsa.Poly

open Finset

variable {f g : Poly}

/-! ## Sums -/

theorem transform_add (hf : IsReduced 256 f) (hg : IsReduced 256 g) :
    transform (add f g) = add (transform f) (transform g) := by
  refine (hf.add hg).transform.ext (hf.transform.add hg.transform) fun i hi => ?_
  rw [coeff_transform (hf.add hg) hi, coeff_add hf hg, eval_add,
    coeff_add hf.transform hg.transform, Pi.add_apply, coeff_transform hf hi, coeff_transform hg hi]

theorem transform_sub (hf : IsReduced 256 f) (hg : IsReduced 256 g) :
    transform (sub f g) = sub (transform f) (transform g) := by
  refine (hf.sub hg).transform.ext (hf.transform.sub hg.transform) fun i hi => ?_
  rw [coeff_transform (hf.sub hg) hi, coeff_sub hf hg, eval_sub,
    coeff_sub hf.transform hg.transform, Pi.sub_apply, coeff_transform hf hi, coeff_transform hg hi]

/-- Polynomials with the same values are equal. -/
theorem transform_injective (hf : IsReduced 256 f) (hg : IsReduced 256 g)
    (h : transform f = transform g) : f = g := by
  rw [← untransform_transform hf, h, untransform_transform hg]

/-! ## The product modulo `X ^ 256 + 1` -/

/-- The product with `X`: what leaves at the top comes back at the bottom with the other sign. -/
def shift (a : Nat → Residue) : Nat → Residue
  | 0 => -a 255
  | i + 1 => a i

/-- The product of a polynomial and a sequence of 256 coefficients. -/
def product : Poly → (Nat → Residue) → Nat → Residue
  | [], _ => 0
  | x :: c, a => fun i => x * a i + shift (product c a) i

/-- At a root, the product with `X` has the value times the root. -/
theorem eval_shift (a : Nat → Residue) {x : Residue} (hx : x ^ 256 = -1) :
    eval 256 (shift a) x = x * eval 256 a x := by
  -- The top coefficient leaves the sum on the one side, and comes back below it on the other.
  have htop : eval 256 a x = (∑ i ∈ range 255, a i * x ^ i) + a 255 * x ^ 255 :=
    sum_range_succ _ 255
  have hbottom : eval 256 (shift a) x = (∑ i ∈ range 255, a i * x ^ (i + 1)) + -a 255 := by
    rw [eval, sum_range_succ' _ 255, pow_zero, mul_one]
    rfl
  have hsum : ∑ i ∈ range 255, a i * x ^ (i + 1) = x * ∑ i ∈ range 255, a i * x ^ i := by
    rw [mul_sum]
    refine sum_congr rfl fun i _ => ?_
    rw [pow_succ]
    ring
  rw [htop, hbottom, hsum]
  linear_combination (-a 255) * hx

/-- A polynomial is evaluated from its constant coefficient on. -/
theorem eval_cons (n : Nat) (x : Nat) (c : Poly) (y : Residue) :
    eval (n + 1) (coeff (x :: c)) y = x + y * eval n (coeff c) y := by
  rw [eval, sum_range_succ', eval, mul_sum, add_comm]
  congr 1
  · simp [coeff]
  · refine sum_congr rfl fun i _ => ?_
    have hcoeff : coeff (x :: c) (i + 1) = coeff c i := rfl
    rw [hcoeff, pow_succ]
    ring

/-- The value of a product is the product of the values. -/
theorem eval_product (c : Poly) (a : Nat → Residue) {x : Residue} (hx : x ^ 256 = -1) :
    eval 256 (product c a) x = eval c.length (coeff c) x * eval 256 a x := by
  induction c with
  | nil => simp [product, eval]
  | cons y c ih =>
    have hsplit : product (y :: c) a = (fun i => y * a i) + shift (product c a) := rfl
    rw [hsplit, eval_add, eval_scale, eval_shift _ hx, ih, List.length_cons, eval_cons]
    ring

/-- Multiplying value by value is multiplying modulo `X ^ 256 + 1`. -/
theorem coeff_untransform_pointwise (hf : IsReduced 256 f) (hg : IsReduced 256 g) {i : Nat}
    (hi : i < 256) :
    coeff (untransform (pointwise (transform f) (transform g))) i = product f (coeff g) i := by
  -- The product as a polynomial has the values of the pointwise product, so it is its inverse
  -- transform.
  have hp := isReduced_ofCoeffs 256 (product f (coeff g))
  have hvalues : transform (ofCoeffs 256 (product f (coeff g))) =
      pointwise (transform f) (transform g) := by
    refine hp.transform.ext (hf.transform.pointwise hg.transform) fun j hj => ?_
    rw [coeff_transform hp hj, eval_congr (fun k hk => coeff_ofCoeffs hk),
      eval_product _ _ (root_pow hj), hf.length_eq, coeff_pointwise hf.transform hg.transform,
      Pi.mul_apply, coeff_transform hf hj, coeff_transform hg hj]
  rw [← hvalues, untransform_transform hp, coeff_ofCoeffs hi]

/-! ## Small coefficients -/

/-- The coefficients of a challenge: zero, one and minus one. -/
def IsSign (x : Nat) : Prop :=
  x = 0 ∨ x = 1 ∨ x = q - 1

/-- The number of coefficients that are not zero. -/
def weight (c : Poly) : Nat :=
  c.countP (· ≠ 0)

/-- The product with `X` has no larger coefficients. -/
theorem size_shift_le {a : Nat → Residue} {bound : Nat} (h : ∀ i < 256, size (a i) ≤ bound) :
    ∀ i < 256, size (shift a i) ≤ bound := by
  intro i hi
  cases i with
  | zero =>
    rw [shift, size_neg]
    exact h 255 (by omega)
  | succ i => exact h i (by omega)

/-- A coefficient of a challenge does not make a product larger, and zero makes it vanish. -/
theorem size_sign_mul_le {x : Nat} (hx : IsSign x) (y : Residue) :
    size (x * y) ≤ if x = 0 then 0 else size y := by
  rcases hx with rfl | rfl | rfl
  · simp
  · simp
  · have hcast : ((q - 1 : Nat) : Residue) = -1 := by
      rw [Nat.cast_sub q_pos, ZMod.natCast_self, Nat.cast_one, zero_sub]
    rw [hcast, neg_one_mul, size_neg, if_neg (by decide)]

/-- Each coefficient of a sparse factor adds the other factor once. -/
theorem size_product_le {c : Poly} (hc : ∀ x ∈ c, IsSign x) {a : Nat → Residue} {bound : Nat}
    (ha : ∀ i < 256, size (a i) ≤ bound) :
    ∀ i < 256, size (product c a i) ≤ weight c * bound := by
  induction c with
  | nil => simp [product]
  | cons x c ih =>
    intro i hi
    have hrest := size_shift_le (ih fun y hy => hc y (List.mem_cons_of_mem x hy)) i hi
    have hfirst := size_sign_mul_le (hc x List.mem_cons_self) (a i)
    have hsum := size_add_le (x * a i) (shift (product c a) i)
    show size (x * a i + shift (product c a) i) ≤ _
    -- A coefficient counts for the weight and adds to the size if it is not zero.
    by_cases hx : x = 0
    · have hweight : weight (x :: c) = weight c := by simp [weight, hx]
      rw [if_pos hx] at hfirst
      rw [hweight]
      omega
    · have hweight : weight (x :: c) = weight c + 1 := by simp [weight, hx]
      have hbound := ha i hi
      rw [if_neg hx] at hfirst
      rw [hweight, Nat.add_one_mul]
      omega

end PeerIdentity.MlDsa.Poly
