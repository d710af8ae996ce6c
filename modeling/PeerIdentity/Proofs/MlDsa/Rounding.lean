import PeerIdentity.MlDsa.Scheme

/-!
# Rounding and hints

The high part of a commitment is the same for a signer and for a verifier who knows it up to a small
number: either the number is so small that it does not change the high part, or a hint tells that it
does.

* `highPart_add`: numbers up to `β` do not change the high part of a coefficient whose low part
  keeps this distance from its bound;
* `useHint_makeHint`: a hint undoes a change by a number up to `γ₂`;
* `highDigit_lowDigit`: the two parts of a coefficient of the public key.
-/

namespace PeerIdentity.MlDsa

/-! ## The parts of a coefficient -/

/-- The multiple number `k` of `2 γ₂` is the one nearest to a coefficient. The multiple number 16 is
`-1`, whose high part is that of zero. -/
structure IsNear (k x : Nat) : Prop where
  lt_q : x < 8380417
  le : 523776 * k ≤ x + 261887
  lt : x + 261887 < 523776 * k + 523776

/-- Each residue is near a multiple of the rounding step. -/
theorem exists_isNear {x : Nat} (hx : x < q) : ∃ k, IsNear k x := by
  rw [q] at hx
  exact ⟨(x + 261887) / 523776, hx, by omega, by omega⟩

/-- The high part of a residue is the multiple that it is near, where the last is the first
again. -/
theorem IsNear.highPart_eq {k x : Nat} (h : IsNear k x) : highPart x = k % 16 := by
  obtain ⟨hx, hle, hlt⟩ := h
  have hk : (x + 261888 - 1) / (2 * 261888) = k := by omega
  rw [highPart, gamma2, hk]

/-- The low part is what the high part leaves. -/
theorem lowPart_eq (x : Nat) :
    lowPart x = (x + (8380417 - 523776 * highPart x % 8380417)) % 8380417 := by
  rw [lowPart, subMod, gamma2, q]

/-- The high part of a residue is the multiple that it is near, below the last one. -/
theorem IsNear.highPart_of_lt {k x : Nat} (h : IsNear k x) (hk : k < 16) : highPart x = k := by
  rw [h.highPart_eq, Nat.mod_eq_of_lt hk]

/-- The low part is the distance from the multiple, in both directions. -/
theorem IsNear.lowPart_of_lt {k x : Nat} (h : IsNear k x) (hk : k < 16) :
    lowPart x = if 523776 * k ≤ x then x - 523776 * k else x + 8380417 - 523776 * k := by
  have hhigh := h.highPart_of_lt hk
  obtain ⟨hx, hle, hlt⟩ := h
  have hmod : 523776 * k % 8380417 = 523776 * k := Nat.mod_eq_of_lt (by omega)
  rw [MlDsa.lowPart_eq, hhigh, hmod]
  split
  · omega
  · omega

/-- Near the last multiple the high part is zero and the low part the whole coefficient. -/
theorem IsNear.parts_of_ge {k x : Nat} (h : IsNear k x) (hk : ¬ k < 16) :
    k = 16 ∧ highPart x = 0 ∧ lowPart x = x := by
  have hhigh := h.highPart_eq
  obtain ⟨hx, hle, hlt⟩ := h
  obtain rfl : k = 16 := by omega
  refine ⟨rfl, hhigh, ?_⟩
  rw [MlDsa.lowPart_eq, hhigh]
  omega

/-! ## Hints -/

/-- The sum of two residues is a sum of numbers, or exceeds it by `q`. -/
theorem exists_add_mod_q {x y : Nat} (hx : x < q) (hy : y < q) :
    ∃ z, (x + y) % q = z ∧ z < 8380417 ∧ (z = x + y ∨ z + 8380417 = x + y) := by
  rw [q] at *
  exact ⟨_, rfl, by omega, by omega⟩

/-- A number up to `β` does not change a high part whose low part keeps this distance. -/
theorem highPart_add {x e : Nat} (hx : x < q) (he : e < q) (hsmall : norm e ≤ beta)
    (hlow : norm (lowPart x) < gamma2 - beta) : highPart ((x + e) % q) = highPart x := by
  obtain ⟨k, hnear⟩ := exists_isNear hx
  obtain ⟨y, hy, hlt, hsum⟩ := exists_add_mod_q hx he
  rw [hy]
  simp only [norm, gamma2, beta, q] at he hlow hsmall
  by_cases hk : k < 16
  · rw [hnear.lowPart_of_lt hk] at hlow
    rw [hnear.highPart_of_lt hk]
    obtain ⟨hx', hge, hlt'⟩ := hnear
    -- Below the first multiple the numbers end with those near the last one.
    by_cases hwrap : y < 523776 * k + 261889
    · have hy : IsNear k y := by
        refine ⟨hlt, ?_, by omega⟩
        split at hlow <;> omega
      exact hy.highPart_of_lt hk
    · obtain ⟨rfl, hy⟩ : k = 0 ∧ IsNear 16 y := by
        split at hlow <;> exact ⟨by omega, hlt, by omega, by omega⟩
      exact hy.highPart_eq
  · obtain ⟨rfl, hhigh, hl⟩ := hnear.parts_of_ge hk
    rw [hl] at hlow
    rw [hhigh]
    obtain ⟨hx', hge, hlt'⟩ := hnear
    -- Above the last multiple the numbers start again.
    by_cases hwrap : y < 261888
    · have hy : IsNear 0 y := ⟨hlt, by omega, by omega⟩
      exact hy.highPart_eq
    · have hy : IsNear 16 y := ⟨hlt, by omega, by omega⟩
      exact hy.highPart_eq

/-- A change by a number up to `γ₂` moves at most one multiple on, in the direction of the low
part. -/
theorem highPart_move {x z : Nat} (hx : x < q) (hz : z < q) (hsmall : norm z ≤ gamma2)
    (hne : highPart x ≠ highPart ((x + z) % q)) :
    highPart ((x + z) % q) =
      if 0 < lowPart x ∧ lowPart x ≤ (q - 1) / 2 then (highPart x + 1) % 16
      else (highPart x + 15) % 16 := by
  obtain ⟨k, hnear⟩ := exists_isNear hx
  obtain ⟨y, hy, hlt, hsum⟩ := exists_add_mod_q hx hz
  rw [hy] at hne ⊢
  obtain ⟨l, hnear'⟩ := exists_isNear hlt
  have hhalf : (q - 1) / 2 = 4190208 := by decide
  rw [hnear'.highPart_eq] at hne ⊢
  rw [hhalf]
  simp only [norm, gamma2, q] at hsmall
  obtain ⟨-, hge', hlt'⟩ := hnear'
  -- Next to the last multiple the high part wraps around to 0.
  by_cases hk : k < 16
  · rw [hnear.lowPart_of_lt hk]
    rw [hnear.highPart_of_lt hk] at hne ⊢
    obtain ⟨hx, hge, hlt⟩ := hnear
    -- From above its multiple a number can only reach the next one, and else only the one before.
    by_cases habove : 523776 * k < x
    · rw [if_pos (Nat.le_of_lt habove), if_pos ⟨by omega, by omega⟩]
      omega
    · have hlow : ¬ (0 < (if 523776 * k ≤ x then x - 523776 * k else x + 8380417 - 523776 * k) ∧
          (if 523776 * k ≤ x then x - 523776 * k else x + 8380417 - 523776 * k) ≤ 4190208) := by
        split <;> omega
      rw [if_neg hlow]
      omega
  · obtain ⟨rfl, hhigh, hl⟩ := hnear.parts_of_ge hk
    obtain ⟨hx, hge, hlt⟩ := hnear
    rw [hhigh] at hne ⊢
    rw [hl, if_neg (by omega)]
    omega

/-- A hint undoes a change by a number up to `γ₂`. -/
theorem useHint_makeHint {x z : Nat} (hx : x < q) (hz : z < q) (hsmall : norm z ≤ gamma2) :
    useHint (makeHint z x) x = highPart ((x + z) % q) := by
  rw [useHint, makeHint]
  by_cases heq : highPart x = highPart ((x + z) % q)
  · simp [heq]
  · rw [if_pos (by simpa using heq), highPart_move hx hz hsmall heq]

/-! ## Coefficients of the public key -/

/-- A high digit takes ten bits. -/
theorem highDigit_lt {x : Nat} (hx : x < q) : highDigit x < 1024 := by
  rw [highDigit]
  rw [q] at hx
  omega

/-- The parts of a coefficient of the public key make up the coefficient. -/
theorem highDigit_lowDigit {x : Nat} (hx : x < q) :
    (8192 * highDigit x + lowDigit x) % q = x := by
  rw [lowDigit, subMod, highDigit]
  rw [q] at *
  omega

/-- The low part is written with 13 bits. -/
theorem reflect_lowDigit_lt (x : Nat) : subMod 4096 (lowDigit x) q < 8192 := by
  rw [lowDigit, subMod, subMod, highDigit]
  rw [q] at *
  omega

end PeerIdentity.MlDsa
