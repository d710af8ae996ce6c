import PeerIdentity.MlDsa.Sampling
import PeerIdentity.Proofs.MlDsa.Packing
import PeerIdentity.Proofs.MlDsa.Product

/-!
# What the samplers return

Whatever the output of SHAKE is, the samplers return 256 coefficients in their range.

* `mem_collect`, `length_collect`: values collected from blocks;
* `isReduced_uniform`, `isReduced_mask`: polynomials of any coefficients;
* `isSmall_small`: polynomials of coefficients from -2 to 2;
* `isChallenge_challenge`: at most 60 coefficients of a challenge are not zero, and those are ±1.
-/

namespace PeerIdentity.MlDsa

/-! ## Collecting values -/

section Collect

variable {sponge : Sponge} {candidates : Bytes → List Nat}

/-- As many values are drawn as are needed. -/
theorem length_collect (blocks need : Nat) (s : Keccak.State) :
    (collect sponge candidates blocks need s).length = need := by
  induction blocks generalizing need s with
  | zero => exact List.length_replicate
  | succ blocks ih =>
    rw [collect]
    split
    next h => exact h
    next h =>
      have hle : ((candidates (sponge.block s)).take need).length ≤ need := List.length_take_le _ _
      rw [List.length_append, ih]
      omega

/-- What holds of every candidate and of zero holds of every value. -/
theorem mem_collect {P : Nat → Prop} (hzero : P 0) (h : ∀ b, ∀ x ∈ candidates b, P x)
    (blocks need : Nat) (s : Keccak.State) :
    ∀ x ∈ collect sponge candidates blocks need s, P x := by
  induction blocks generalizing need s with
  | zero =>
    intro x hx
    rwa [List.eq_of_mem_replicate hx]
  | succ blocks ih =>
    have hfound : ∀ x ∈ (candidates (sponge.block s)).take need, P x :=
      fun x hx => h _ x (List.mem_of_mem_take hx)
    rw [collect]
    split
    next => exact hfound
    next => exact List.forall_mem_append.mpr ⟨hfound, ih _ _⟩

end Collect

/-! ## Polynomials of any coefficients -/

/-- The candidates of uniform values are residues. -/
theorem uniformCandidates_lt (b : Bytes) : ∀ x ∈ uniformCandidates b, x < q := by
  fun_induction uniformCandidates b with
  | case1 a b c rest v hv ih =>
    intro x hx
    rcases List.mem_cons.mp hx with rfl | hx
    · exact hv
    · exact ih x hx
  | case2 a b c rest v hv ih => exact ih
  | case3 => simp

theorem isReduced_uniform (seed : Bytes) : (uniform seed).IsReduced 256 :=
  ⟨length_collect _ _ _, mem_collect q_pos uniformCandidates_lt _ _ _⟩

theorem isReduced_mask (seed : Bytes) : (mask seed).IsReduced 256 :=
  isReduced_reflectFrom _ (length_digits _ _ _)

/-! ## Polynomials of small coefficients -/

/-- A polynomial with coefficients from -2 to 2. -/
structure Poly.IsSmall (f : Poly) : Prop where
  isReduced : f.IsReduced 256
  norm_le : ∀ x ∈ f, norm x ≤ 2

/-- The candidate of half a byte is a residue at a distance of at most 2 from zero. -/
theorem smallCandidate_spec (v : Nat) : ∀ x ∈ smallCandidate v, x < q ∧ norm x ≤ 2 := by
  intro x hx
  rw [smallCandidate] at hx
  split at hx
  next =>
    obtain rfl := List.mem_singleton.mp hx
    have hall : ∀ r < 5, subMod 2 r q < q ∧ norm (subMod 2 r q) ≤ 2 := by decide
    exact hall _ (Nat.mod_lt _ (by decide))
  next => cases hx

/-- The candidates of small values are residues at a distance of at most 2 from zero. -/
theorem smallCandidates_spec (b : Bytes) : ∀ x ∈ smallCandidates b, x < q ∧ norm x ≤ 2 := by
  intro x hx
  obtain ⟨y, -, hx⟩ := List.mem_flatMap.mp hx
  rcases List.mem_append.mp hx with hx | hx
  · exact smallCandidate_spec _ x hx
  · exact smallCandidate_spec _ x hx

theorem isSmall_small (seed : Bytes) : (small seed).IsSmall := by
  have hspec : ∀ x ∈ small seed, x < q ∧ norm x ≤ 2 :=
    mem_collect ⟨q_pos, by decide⟩ smallCandidates_spec _ _ _
  exact ⟨⟨length_collect _ _ _, fun x hx => (hspec x hx).1⟩, fun x hx => (hspec x hx).2⟩

/-! ## Challenges -/

/-- A polynomial with at most 60 coefficients ±1 and zeros. -/
structure Poly.IsChallenge (c : Poly) : Prop where
  length_eq : c.length = 256
  isSign : ∀ x ∈ c, IsSign x
  weight_le : c.weight ≤ 60

theorem Poly.IsSign.lt {x : Nat} (h : IsSign x) : x < q := by
  rcases h with rfl | rfl | rfl
  · decide
  · decide
  · decide

theorem Poly.IsChallenge.isReduced {c : Poly} (h : c.IsChallenge) : c.IsReduced 256 :=
  ⟨h.length_eq, fun x hx => (h.isSign x hx).lt⟩

/-- Placing a sign adds at most one coefficient that is not zero. -/
theorem weight_set_set_le (c : Poly) {i j : Nat} (sign : Nat) (hi : i < c.length)
    (hj : j < c.length) : Poly.weight ((c.set i (c.getD j 0)).set j sign) ≤ c.weight + 1 := by
  have hjset : j < (c.set i (c.getD j 0)).length := by rwa [List.length_set]
  -- What moves away from the place of the sign was counted there before.
  have hmoved : (c.set i (c.getD j 0))[j] = c.getD j 0 := by
    have hget := List.getElem_set (i := i) (a := c.getD j 0) hjset
    rw [hget]
    split
    · rfl
    · exact (List.getD_eq_getElem c 0 hj).symm
  rw [Poly.weight, List.countP_set hjset, List.countP_set hi, hmoved, Poly.weight]
  split <;> split <;> split <;> omega

/-- Zero, one and minus one are all that is found in a challenge, also beyond its end. -/
theorem isSign_getD {c : Poly} (h : ∀ x ∈ c, Poly.IsSign x) (i : Nat) :
    Poly.IsSign (c.getD i 0) := by
  rcases Nat.lt_or_ge i c.length with hi | hi
  · rw [List.getD_eq_getElem c 0 hi]
    exact h _ (List.getElem_mem hi)
  · rw [List.getD_eq_default c 0 hi]
    exact .inl rfl

/-- The signs are placed one for each index, and there are no others. -/
theorem placeSigns_spec (stream : Bytes) (i signs : Nat) (c : Poly) (hlength : c.length = 256)
    (hsign : ∀ x ∈ c, Poly.IsSign x) :
    (placeSigns stream i signs c).length = 256 ∧
      (∀ x ∈ placeSigns stream i signs c, Poly.IsSign x) ∧
      Poly.weight (placeSigns stream i signs c) ≤ c.weight + (256 - i) := by
  fun_induction placeSigns stream i signs c with
  | case1 => exact ⟨hlength, hsign, by omega⟩
  | case2 => exact ⟨hlength, hsign, by omega⟩
  | case3 x stream i signs c j hi hj sign ih =>
    have hone : Poly.IsSign sign := by
      show Poly.IsSign (if signs % 2 = 1 then q - 1 else 1)
      split
      · exact .inr (.inr rfl)
      · exact .inr (.inl rfl)
    -- Every member is an old one, the one that moves, or the new sign.
    have hset : ∀ y ∈ (c.set i (c.getD j 0)).set j sign, Poly.IsSign y := by
      intro y hy
      rcases List.mem_or_eq_of_mem_set hy with hy | rfl
      · rcases List.mem_or_eq_of_mem_set hy with hy | rfl
        · exact hsign y hy
        · exact isSign_getD hsign j
      · exact hone
    obtain ⟨hlength', hsign', hweight⟩ := ih (by simpa using hlength) hset
    have hstep := weight_set_set_le c sign (i := i) (j := j) (by omega) (by omega)
    exact ⟨hlength', hsign', by omega⟩
  | case4 x stream i signs c j hi hj ih => exact ih hlength hsign

/-- What a seed leads to is a challenge: signs, of which at most 60 are not zero. -/
theorem isChallenge_challenge (seed : Bytes) : (challenge seed).IsChallenge := by
  have hzero : ∀ x ∈ Poly.zero, Poly.IsSign x := fun x hx => .inl (List.eq_of_mem_replicate hx)
  obtain ⟨hlength, hsign, hweight⟩ := placeSigns_spec
    ((Sponge.shake256.squeeze 8 (Sponge.shake256.absorb seed)).drop 8) 196
    (Bytes.toNatLE ((Sponge.shake256.squeeze 8 (Sponge.shake256.absorb seed)).take 8)) Poly.zero
    List.length_replicate hzero
  have hnone : Poly.weight Poly.zero = 0 := by
    rw [Poly.weight, Poly.zero, List.countP_replicate]
    simp
  refine ⟨hlength, hsign, ?_⟩
  rw [hnone] at hweight
  exact hweight

end PeerIdentity.MlDsa
