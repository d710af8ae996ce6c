import Mathlib.Algebra.Field.ZMod
import Mathlib.Tactic.LinearCombination
import Mathlib.Tactic.Ring
import PeerIdentity.Arithmetic.Modular

/-!
# Modular arithmetic in the ring of residues

Differences, inverses and quotients of numbers modulo `m` stand for those of the ring `ZMod m`. The
extended Euclidean algorithm keeps its cofactors as absolute values with alternating signs; with
the signs put back, each of its remainders is the product of its cofactor and the number that is
inverted, modulo `m`.

* `foldBits_log2`: a fold over the binary digits of a number;
* `cast_subMod`: differences;
* `euclid_fst`, `euclid_cofactor`: the algorithm of Euclid;
* `exists_inverse?`, `inverse?_eq_none`: inverses exist for coprime numbers only;
* `cast_divMod`: quotients modulo a prime.
-/

namespace PeerIdentity

/-! ## Binary digits -/

section foldBits

variable {α : Type} {step : α → Bool → α} {f : Nat → α}
  (hstep : ∀ k bit, step (f k) bit = f (2 * k + bit.toNat))
include hstep

/-- After `count` digits the number that is stood for has grown by `count` binary digits, those
of `n`. -/
theorem foldBits_eq (n count k : Nat) :
    foldBits step n count (f k) = f (k * 2 ^ count + n % 2 ^ count) := by
  -- The induction is on the digits that are left; `k` is the number that those before them write.
  induction count generalizing k with
  | zero => simp [foldBits, Nat.mod_one]
  | succ count ih =>
    have hdigits : (2 * k + (n.testBit count).toNat) * 2 ^ count + n % 2 ^ count =
        k * 2 ^ (count + 1) + n % 2 ^ (count + 1) := by
      rw [Nat.mod_pow_succ, Nat.toNat_testBit, pow_succ]
      ring
    rw [foldBits, hstep, ih, hdigits]

/-- A step that doubles the number that is stood for, and adds a digit, leads from 0 to the number
with these digits. -/
theorem foldBits_log2 (n : Nat) : foldBits step n (n.log2 + 1) (f 0) = f n := by
  rw [foldBits_eq hstep, Nat.zero_mul, Nat.zero_add, Nat.mod_eq_of_lt Nat.lt_log2_self]

end foldBits

/-! ## Differences -/

/-- As a residue, a difference modulo `m` is the difference. -/
theorem cast_subMod {m : Nat} (hm : 0 < m) (a b : Nat) : (subMod a b m : ZMod m) = a - b := by
  have hle : b % m ≤ m := (Nat.mod_lt b hm).le
  rw [subMod, ZMod.natCast_mod, Nat.cast_add, Nat.cast_sub hle, ZMod.natCast_self, ZMod.natCast_mod,
    zero_sub, sub_eq_add_neg]

theorem subMod_lt {m : Nat} (hm : 0 < m) (a b : Nat) : subMod a b m < m :=
  Nat.mod_lt _ hm

/-! ## The algorithm of Euclid -/

/-- A cofactor with its sign. -/
def signed (m : Nat) (negative : Bool) (t : Nat) : ZMod m :=
  if negative then -t else t

@[simp]
theorem signed_true (m t : Nat) : signed m true t = -t :=
  rfl

@[simp]
theorem signed_false (m t : Nat) : signed m false t = t :=
  rfl

/-- The remainders end in the greatest common divisor. -/
theorem euclid_fst (r0 t0 r1 t1 : Nat) (negative : Bool) :
    (euclid r0 t0 r1 t1 negative).1 = r1.gcd r0 := by
  fun_induction euclid r0 t0 r1 t1 negative with
  | case1 r0 t0 t1 negative => simp
  | case2 r0 t0 r1 t1 negative _ ih => rw [ih, Nat.gcd_rec r1 r0]

/-- One division of the algorithm: the quotient enters the cofactor with the other sign. -/
theorem signed_step {m a r0 t0 r1 t1 : Nat} {negative : Bool} (h0 : signed m negative t0 * a = r0)
    (h1 : signed m (!negative) t1 * a = r1) :
    signed m negative (t0 + r0 / r1 * t1) * a = (r0 % r1 : Nat) := by
  have hdivision : ((r1 * (r0 / r1) + r0 % r1 : Nat) : ZMod m) = r0 := by rw [Nat.div_add_mod]
  push_cast at hdivision
  cases negative with
  | true =>
    simp only [Bool.not_true, signed_true, signed_false, Nat.cast_add, Nat.cast_mul] at *
    linear_combination h0 - (r0 / r1 : Nat) * h1 - hdivision
  | false =>
    simp only [Bool.not_false, signed_true, signed_false, Nat.cast_add, Nat.cast_mul] at *
    linear_combination h0 - (r0 / r1 : Nat) * h1 - hdivision

/-- The invariant of the algorithm: each remainder is its cofactor times `a`, modulo `m`. It holds
of the greatest common divisor when it holds of the first two remainders. -/
theorem euclid_cofactor {m a r0 t0 r1 t1 : Nat} {negative : Bool}
    (h0 : signed m negative t0 * a = r0) (h1 : signed m (!negative) t1 * a = r1) :
    signed m (euclid r0 t0 r1 t1 negative).2.2 (euclid r0 t0 r1 t1 negative).2.1 * a =
      (euclid r0 t0 r1 t1 negative).1 := by
  fun_induction euclid r0 t0 r1 t1 negative with
  | case1 r0 t0 t1 negative => exact h0
  | case2 r0 t0 r1 t1 negative _ ih => exact ih h1 (by simpa using signed_step h0 h1)

/-! ## Inverses and quotients -/

/-- What is coprime to the modulus has an inverse, and the one that is found is it. -/
theorem exists_inverse? {a m : Nat} (hm : 0 < m) (h : a.Coprime m) :
    ∃ i, inverse? a m = some i ∧ (i : ZMod m) * a = 1 := by
  have hgcd := euclid_fst m 0 (a % m) 1 true
  have hcofactor := @euclid_cofactor m a m 0 (a % m) 1 true (by simp) (by simp)
  rw [← Nat.gcd_rec, Nat.gcd_comm, h] at hgcd
  rw [inverse?]
  rcases heuclid : euclid m 0 (a % m) 1 true with ⟨g, t, negative⟩
  rw [heuclid] at hgcd hcofactor
  obtain rfl : g = 1 := hgcd
  -- The last remainder is 1, so its cofactor is the inverse.
  refine ⟨_, rfl, ?_⟩
  cases negative with
  | true => simpa [cast_subMod hm] using hcofactor
  | false => simpa using hcofactor

/-- What is not coprime to the modulus has no inverse. -/
theorem inverse?_eq_none {a m : Nat} (h : ¬ a.Coprime m) : inverse? a m = none := by
  have hgcd := euclid_fst m 0 (a % m) 1 true
  rw [← Nat.gcd_rec, Nat.gcd_comm] at hgcd
  unfold inverse?
  split
  next t negative heuclid =>
    rw [heuclid] at hgcd
    exact absurd hgcd.symm h
  next => rfl

theorem divMod_lt {m : Nat} (hm : 0 < m) (a b : Nat) : divMod a b m < m := by
  rw [divMod]
  split
  · exact Nat.mod_lt _ hm
  · exact hm

/-- The quotient modulo a prime is that of the field, in which the inverse of 0 is 0. -/
theorem cast_divMod {p : Nat} [Fact p.Prime] (a b : Nat) : (divMod a b p : ZMod p) = a / b := by
  have hp : p.Prime := Fact.out
  by_cases hb : b.Coprime p
  · obtain ⟨i, hi, hinverse⟩ := exists_inverse? hp.pos hb
    simp [divMod, hi, div_eq_mul_inv, eq_inv_of_mul_eq_one_left hinverse]
  · have hdvd : p ∣ b := by
      rwa [Nat.coprime_comm, hp.coprime_iff_not_dvd, not_not] at hb
    simp [divMod, inverse?_eq_none hb, (ZMod.natCast_eq_zero_iff b p).mpr hdvd]

end PeerIdentity
