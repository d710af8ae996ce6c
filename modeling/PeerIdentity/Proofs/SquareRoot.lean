import Mathlib.FieldTheory.Finite.Basic
import PeerIdentity.Arithmetic.SquareRoot
import PeerIdentity.Proofs.Primality

/-!
# Square roots modulo a prime

Every square modulo a prime has a root that `sqrtMod?` finds. For a prime that is 3 modulo 4 it is
the power `a ^ ((p + 1) / 4)`, by Euler's criterion. For the others a first guess `r` with
`r * r = a * t` is corrected: the order of `t` is a power of two, each step halves it, and at the
end `t` is 1.

* `mul_self_correctRoot`: the correction of a guess, by the invariant of its steps;
* `HasRoots`: the primes for which roots are found;
* `sqrtMod?_of_square`: every square has a root, which is the given one up to its sign;
* `ite_parity_of_sign`: of two opposite roots, the one of a given parity.
-/

namespace PeerIdentity

/-! ## The odd part -/

/-- A number is its odd part times the power of 2 that was taken out. -/
theorem oddPart_eq (n fuel : Nat) : (oddPart n fuel).1 * 2 ^ (oddPart n fuel).2 = n := by
  fun_induction oddPart n fuel with
  | case1 n => simp
  | case2 n fuel heven q s hqs ih =>
    rw [hqs] at ih
    have hhalf : 2 * (n / 2) = n := by omega
    rw [pow_succ, ← mul_assoc, ih, mul_comm, hhalf]
  | case3 n fuel hodd => simp

/-- With fuel for all its bits, the odd part of a number is odd. -/
theorem oddPart_odd {n fuel : Nat} (hn : 0 < n) (h : n < 2 ^ fuel) :
    (oddPart n fuel).1 % 2 = 1 := by
  fun_induction oddPart n fuel with
  | case1 n => omega
  | case2 n fuel heven q s hqs ih =>
    rw [hqs] at ih
    exact ih (by omega) (by omega)
  | case3 n fuel hodd => exact Nat.mod_two_ne_zero.mp hodd

/-! ## The correction of a guess -/

section correctRoot

variable {p : Nat} [Fact p.Prime]

theorem correctRoot_lt {k c t r : Nat} (hr : r < p) : correctRoot p k c t r < p := by
  fun_induction correctRoot p k c t r with
  | case1 => exact hr
  | case2 k c t r c' hone ih => exact ih hr
  | case3 k c t r c' hne ih => exact ih (Nat.mod_lt _ (Fact.out : p.Prime).pos)

/-- The root of zero needs no correction. -/
theorem cast_correctRoot_of_eq_zero {k c t r : Nat} (hr : (r : ZMod p) = 0) :
    (correctRoot p k c t r : ZMod p) = 0 := by
  fun_induction correctRoot p k c t r with
  | case1 => exact hr
  | case2 k c t r c' hone ih => exact ih hr
  | case3 k c t r c' hne ih => exact ih (by simp [hr])

/-- The invariant of the steps: the guess is a root of `a * t`, the order of `t` divides `2 ^ k`,
and `c` has the order `2 ^ (k + 1)`. If the order of `t` does not divide `2 ^ k` already, then a
factor `c` of the guess makes it do so. -/
theorem mul_self_correctRoot {a : ZMod p} {k c t r : Nat} (hroot : (r : ZMod p) * r = a * t)
    (ht : (t : ZMod p) ^ 2 ^ k = 1) (hc : (c : ZMod p) ^ 2 ^ k = -1) :
    (correctRoot p k c t r : ZMod p) * correctRoot p k c t r = a := by
  have htwo := (Fact.out : p.Prime).two_le
  fun_induction correctRoot p k c t r with
  | case1 c t r =>
    have ht : (t : ZMod p) = 1 := by simpa using ht
    rw [hroot, ht, mul_one]
  -- The order of `t` divides `2 ^ k` already, so the guess stays as it is.
  | case2 k c t r c' hone ih =>
    refine ih hroot ?_ ?_
    · rw [Nat.one_shiftLeft] at hone
      exact (LucasCertificate.cast_pow_eq_one_iff htwo t _).mpr hone
    · rw [ZMod.natCast_mod, Nat.cast_mul, ← pow_two, ← pow_mul, ← pow_succ', hc]
  -- Otherwise this power of `t` is the other root of 1, and so is that of `c * c`.
  | case3 k c t r c' hne ih =>
    have hcast : (c' : ZMod p) = c ^ 2 := by rw [ZMod.natCast_mod, Nat.cast_mul, pow_two]
    have hc' : (c' : ZMod p) ^ 2 ^ k = -1 := by rw [hcast, ← pow_mul, ← pow_succ', hc]
    have ht' : (t : ZMod p) ^ 2 ^ k = -1 := by
      rw [Nat.one_shiftLeft, ← LucasCertificate.cast_pow_eq_one_iff htwo] at hne
      rw [pow_succ, pow_mul, pow_two] at ht
      exact (mul_self_eq_one_iff.mp ht).resolve_left hne
    refine ih ?_ ?_ hc'
    · rw [ZMod.natCast_mod, ZMod.natCast_mod, Nat.cast_mul, Nat.cast_mul, hcast]
      linear_combination (c : ZMod p) ^ 2 * hroot
    · rw [ZMod.natCast_mod, Nat.cast_mul, mul_pow, ht', hc', neg_mul_neg, one_mul]

end correctRoot

/-! ## Roots -/

/-- The primes for which roots are found: those that are 3 modulo 4, and others if the number that
corrects the guesses is not a square. -/
def HasRoots (p : Nat) : Prop :=
  p % 4 = 3 ∨ (p % 4 = 1 ∧ powMod (nonSquare p 100 2) ((p - 1) / 2) p = p - 1)

section Roots

variable {p : Nat} [Fact p.Prime]

/-- Euler's criterion: the power of a square is a root of it. -/
theorem pow_mul_pow_of_square (hmod : p % 4 = 3) {a y : ZMod p} (h : y * y = a) :
    a ^ ((p + 1) / 4) * a ^ ((p + 1) / 4) = a := by
  have hexponent : 2 * ((p + 1) / 4 + (p + 1) / 4) = (p - 1) + 2 := by omega
  rcases eq_or_ne y 0 with rfl | hy
  · have hne : (p + 1) / 4 ≠ 0 := by omega
    rw [← h, mul_zero, zero_pow hne, mul_zero]
  · calc a ^ ((p + 1) / 4) * a ^ ((p + 1) / 4) = (y * y) ^ ((p + 1) / 4 + (p + 1) / 4) := by
          rw [h, pow_add]
      _ = y ^ ((p - 1) + 2) := by rw [← pow_two, ← pow_mul, hexponent]
      _ = a := by rw [pow_add, ZMod.pow_card_sub_one_eq_one hy, one_mul, pow_two, h]

theorem rootCandidate_lt (a : Nat) : rootCandidate a p < p := by
  have hp : 0 < p := (Fact.out : p.Prime).pos
  rw [rootCandidate]
  split
  · exact powMod_lt hp _ _
  · exact correctRoot_lt (powMod_lt hp _ _)

/-- The first guess is corrected to a root, where `q` is the odd part of `p - 1` and `z` is no
square. -/
theorem mul_self_correctRoot_of_square {q k z a : Nat} {y : ZMod p}
    (hpart : q * 2 ^ (k + 1) = p - 1) (hodd : q % 2 = 1)
    (hz : powMod z ((p - 1) / 2) p = p - 1) (h : y * y = a) :
    (correctRoot p k (powMod z q p) (powMod a q p) (powMod a ((q + 1) / 2) p) : ZMod p) *
      correctRoot p k (powMod z q p) (powMod a q p) (powMod a ((q + 1) / 2) p) = a := by
  have hdouble : 2 * (q * 2 ^ k) = p - 1 := by rw [← hpart, pow_succ]; ring
  have hhalf : q * 2 ^ k = (p - 1) / 2 := by omega
  rcases eq_or_ne y 0 with rfl | hy
  -- For zero the invariant fails, but every guess is zero too.
  · have ha : (a : ZMod p) = 0 := by rw [← h, mul_zero]
    rw [cast_correctRoot_of_eq_zero (by rw [cast_powMod, ha, zero_pow (by omega)]), ha, mul_zero]
  · refine mul_self_correctRoot ?_ ?_ ?_
    · rw [cast_powMod, cast_powMod, ← pow_add, ← pow_succ']
      congr 1
      omega
    · rw [cast_powMod, ← pow_mul, ← h, ← pow_two, ← pow_mul, hdouble,
        ZMod.pow_card_sub_one_eq_one hy]
    · rw [cast_powMod, ← pow_mul, hhalf, ← cast_powMod, hz,
        Nat.cast_sub (Fact.out : p.Prime).pos, ZMod.natCast_self, zero_sub, Nat.cast_one]

/-- The candidate is a root if there is one. -/
theorem mul_self_rootCandidate (hp : HasRoots p) {a : Nat} {y : ZMod p} (h : y * y = a) :
    (rootCandidate a p : ZMod p) * rootCandidate a p = a := by
  rcases hp with hmod | ⟨hmod, hz⟩
  · rw [rootCandidate, if_pos hmod, cast_powMod]
    exact pow_mul_pow_of_square hmod h
  · rw [rootCandidate, if_neg (by omega)]
    have hpart := oddPart_eq (p - 1) (p.log2 + 1)
    have hodd : (oddPart (p - 1) (p.log2 + 1)).1 % 2 = 1 :=
      oddPart_odd (Nat.sub_pos_of_lt (Fact.out : p.Prime).one_lt)
        ((Nat.sub_le p 1).trans_lt Nat.lt_log2_self)
    generalize oddPart (p - 1) (p.log2 + 1) = part at hpart hodd
    obtain ⟨q, s⟩ := part
    dsimp only at hpart hodd ⊢
    -- As `p - 1` is even, the exponent of two is positive.
    obtain ⟨k, rfl⟩ : ∃ k, s = k + 1 := by
      refine Nat.exists_eq_succ_of_ne_zero ?_
      rintro rfl
      omega
    exact mul_self_correctRoot_of_square hpart hodd hz h

/-- Numbers with the same square are the same or opposite. -/
theorem sign_of_mul_self_eq {r y : Nat} (hr : r < p) (hy : y < p)
    (h : (r : ZMod p) * r = (y : ZMod p) * y) : r = y ∨ (r + y) % p = 0 := by
  rcases mul_self_eq_mul_self_iff.mp h with hsame | hneg
  · rw [ZMod.natCast_eq_natCast_iff', Nat.mod_eq_of_lt hr, Nat.mod_eq_of_lt hy] at hsame
    exact .inl hsame
  · have hzero : ((r + y : Nat) : ZMod p) = (0 : Nat) := by
      rw [Nat.cast_add, hneg, neg_add_cancel, Nat.cast_zero]
    rw [ZMod.natCast_eq_natCast_iff'] at hzero
    exact .inr (by simpa using hzero)

end Roots

/-- A root that is found is below the prime. -/
theorem lt_of_sqrtMod? {p : Nat} (hp : p.Prime) {a r : Nat} (h : sqrtMod? a p = some r) :
    r < p := by
  have : Fact p.Prime := ⟨hp⟩
  obtain ⟨-, hr⟩ := Option.ite_none_right_eq_some.mp h
  exact Option.some.inj hr ▸ rootCandidate_lt _

/-- A square has a root, which is the given one up to its sign. -/
theorem sqrtMod?_of_square {p : Nat} (hp : p.Prime) (hroots : HasRoots p) {a y : Nat} (hy : y < p)
    (h : y * y % p = a % p) :
    ∃ r, sqrtMod? a p = some r ∧ r < p ∧ (r = y ∨ (r + y) % p = 0) := by
  have : Fact p.Prime := ⟨hp⟩
  have hcast : (y : ZMod p) * y = (a % p : Nat) := by
    rw [← Nat.cast_mul, ZMod.natCast_eq_natCast_iff', h, Nat.mod_mod]
  have hroot := mul_self_rootCandidate hroots hcast
  have hsquare : rootCandidate (a % p) p * rootCandidate (a % p) p % p = a % p := by
    rwa [← Nat.cast_mul, ZMod.natCast_eq_natCast_iff', Nat.mod_mod] at hroot
  exact ⟨_, if_pos hsquare, rootCandidate_lt _,
    sign_of_mul_self_eq (rootCandidate_lt _) hy (hroot.trans hcast.symm)⟩

theorem decide_odd_of_eq {r : Nat} {odd : Bool} (h : (r % 2 = 1) = odd) :
    decide (r % 2 = 1) = odd := by
  rw [Bool.eq_iff_iff, decide_eq_true_eq]
  exact iff_of_eq h

/-- The opposite of a residue has the other parity, because `p` is odd. -/
theorem decide_odd_opposite {p r : Nat} {odd : Bool} (hp : p % 2 = 1) (hr : r < p)
    (h : ¬ (r % 2 = 1) = odd) : decide ((p - r) % 2 = 1) = odd := by
  have hother : (p - r) % 2 = 1 ↔ ¬ r % 2 = 1 := by omega
  cases odd <;> simpa [hother] using h

/-- Of a root and its opposite, the one with the parity of a given root is that root. The two differ
in parity because `p` is odd. -/
theorem ite_parity_of_sign {p r y : Nat} (hp : p % 2 = 1) (hr : r < p) (hy : y < p)
    (hsign : r = y ∨ (r + y) % p = 0) :
    (if (r % 2 = 1) = (decide (y % 2 = 1) = true) then r else (p - r) % p) = y := by
  rcases hsign with rfl | hzero
  · simp
  · rcases Nat.eq_zero_or_pos (r + y) with h0 | hpos
    · obtain ⟨rfl, rfl⟩ : r = 0 ∧ y = 0 := by omega
      simp
    -- Two residues whose sum is a positive multiple of `p` add up to `p` itself.
    · have hsum : r + y = p := by
        obtain ⟨k, hk⟩ := Nat.dvd_of_mod_eq_zero hzero
        obtain rfl : k = 1 := by
          have : k < 2 := Nat.lt_of_mul_lt_mul_left (a := p) (by omega)
          have : k ≠ 0 := by rintro rfl; omega
          omega
        omega
      have hparity : ¬ ((r % 2 = 1) = (decide (y % 2 = 1) = true)) := by
        simp only [decide_eq_true_eq, eq_iff_iff]
        omega
      have hopposite : p - r = y := by omega
      rw [if_neg hparity, hopposite, Nat.mod_eq_of_lt hy]

end PeerIdentity
