import PeerIdentity.Proofs.MlDsa.Packing
import PeerIdentity.Proofs.MlDsa.Rounding
import PeerIdentity.Proofs.MlDsa.Vectors

/-!
# Hints lead back to the commitment

A signer makes a hint for each coefficient, and a verifier uses them to find the high parts of the
commitment.

* `getElem_useRow_hintRow`: a row of hints is used coefficient by coefficient;
* `useHint_commitment`, `useRow_hintRow`: the high parts that the hint of a coefficient and the
  hints of a row lead to;
* `isValid_hints`: the hints of a signature can be packed.
-/

namespace PeerIdentity.MlDsa

/-- The high parts that a row of hints leads to. -/
def useRow (row : List Nat) (f : Poly) : Poly :=
  f.zipIdx.map fun p => useHint (row.contains p.2) p.1

variable {m f : Poly}

/-- A position is in the row of hints exactly if its hint is set. -/
theorem mem_hintRow {i : Nat} (hm : i < m.length) (hf : i < f.length) :
    i ∈ hintRow m f ↔ makeHint m[i] f[i] = true := by
  rw [hintRow]
  constructor
  · intro h
    obtain ⟨⟨⟨z, x⟩, j⟩, hp, rfl⟩ := List.mem_map.mp h
    obtain ⟨hmem, hhint⟩ := List.mem_filter.mp hp
    rw [List.mem_zipIdx_iff_getElem?] at hmem
    have hget := (List.getElem?_eq_some_iff.mp hmem).2
    rw [List.getElem_zip] at hget
    have hparts : m[j] = z ∧ f[j] = x := Prod.mk.inj hget
    rwa [← hparts.1, ← hparts.2] at hhint
  · intro h
    refine List.mem_map.mpr ⟨((m[i], f[i]), i), List.mem_filter.mpr ⟨?_, h⟩, rfl⟩
    rw [List.mem_zipIdx_iff_getElem?]
    have hzip : i < (m.zip f).length := by
      rw [List.length_zip]
      omega
    rw [List.getElem?_eq_getElem hzip, List.getElem_zip]

/-- The positions of hints are positions of coefficients. -/
theorem lt_of_mem_hintRow {i : Nat} (h : i ∈ hintRow m f) : i < m.length ∧ i < f.length := by
  obtain ⟨⟨p, j⟩, hp, rfl⟩ := List.mem_map.mp h
  have hmem := (List.mem_filter.mp hp).1
  rw [List.mem_zipIdx_iff_getElem?] at hmem
  have hlt := (List.getElem?_eq_some_iff.mp hmem).1
  rw [List.length_zip] at hlt
  show j < m.length ∧ j < f.length
  omega

/-- Every coefficient has a high part, with or without a hint. -/
@[simp]
theorem length_useRow (row : List Nat) (f : Poly) : (useRow row f).length = f.length := by
  rw [useRow, List.length_map, List.length_zipIdx]

/-- Using a row of hints uses the hint of each coefficient. -/
theorem getElem_useRow_hintRow {i : Nat} (hm : i < m.length) (hf : i < f.length)
    (hi : i < (useRow (hintRow m f) f).length) :
    (useRow (hintRow m f) f)[i] = useHint (makeHint m[i] f[i]) f[i] := by
  have hcontains : (hintRow m f).contains i = makeHint m[i] f[i] := by
    rw [Bool.eq_iff_iff, List.contains_iff_mem, mem_hintRow hm hf]
  simp only [useRow, List.getElem_map, List.getElem_zipIdx, Nat.zero_add, hcontains]

/-- The positions of a row of hints increase. -/
theorem increasing_of_pairwise {row : List Nat} (h : row.Pairwise (· < ·)) :
    increasing row = true := by
  induction row with
  | nil => rfl
  | cons x row ih =>
    cases row with
    | nil => rfl
    | cons y row =>
      rw [List.pairwise_cons] at h
      rw [increasing, Bool.and_eq_true, decide_eq_true_iff]
      exact ⟨h.1 y List.mem_cons_self, ih h.2⟩

/-- The positions of a row of hints increase. -/
theorem increasing_hintRow (m f : Poly) : increasing (hintRow m f) = true := by
  refine increasing_of_pairwise ?_
  -- The positions are those of a filtered range.
  rw [hintRow, List.pairwise_map]
  refine List.Pairwise.filter _ ?_
  have hrange : ((m.zip f).zipIdx.map Prod.snd).Pairwise (· < ·) := by
    rw [List.zipIdx_map_snd]
    exact List.pairwise_lt_range'
  exact List.pairwise_map.mp hrange

/-! ## The high parts of a commitment -/

/-- The hint that a signer makes for a coefficient leads back to its high part: `w` is the
coefficient of the commitment, and `e` and `t` are those of the products of the challenge with the
error vector and with the low parts of the public vector. -/
theorem useHint_commitment {w e t : Nat} (hw : w < q) (he : e < q) (ht : t < q)
    (hsmall : norm e ≤ beta) (hlow : norm (lowPart ((w + (q - e)) % q)) < gamma2 - beta)
    (hlarge : norm t < gamma2) :
    useHint (makeHint ((q - t) % q) (((w + (q - e)) % q + t) % q)) (((w + (q - e)) % q + t) % q) =
      highPart w := by
  -- Without `t` the coefficient is that of the commitment less `e`, and with `e` it is the
  -- commitment's again.
  have hback : (((w + (q - e)) % q + t) % q + (q - t) % q) % q = (w + (q - e)) % q := by
    rw [q] at *
    omega
  have hforth : ((w + (q - e)) % q + e) % q = w := by
    rw [q] at *
    omega
  have hnorm : norm ((q - t) % q) ≤ gamma2 := by
    rw [norm] at hlarge ⊢
    rw [q] at *
    omega
  calc useHint (makeHint ((q - t) % q) (((w + (q - e)) % q + t) % q)) (((w + (q - e)) % q + t) % q)
      = highPart ((((w + (q - e)) % q + t) % q + (q - t) % q) % q) :=
        useHint_makeHint (Nat.mod_lt _ q_pos) (Nat.mod_lt _ q_pos) hnorm
    _ = highPart ((w + (q - e)) % q) := by rw [hback]
    _ = highPart (((w + (q - e)) % q + e) % q) :=
        (highPart_add (Nat.mod_lt _ q_pos) he hsmall hlow).symm
    _ = highPart w := by rw [hforth]

/-- The hints that a signer makes for a row lead back to the high parts of the row. -/
theorem useRow_hintRow {w e t : Poly} (hw : w.IsReduced 256) (he : e.IsReduced 256)
    (ht : t.IsReduced 256) (hsmall : ∀ x ∈ e, norm x ≤ beta)
    (hlow : ∀ x ∈ w.sub e, norm (lowPart x) < gamma2 - beta) (hlarge : ∀ x ∈ t, norm x < gamma2) :
    useRow (hintRow (t.map fun x => (q - x) % q) ((w.sub e).add t)) ((w.sub e).add t) =
      w.map highPart := by
  have hr := hw.sub he
  have hf := hr.add ht
  -- Each coefficient is recovered on its own.
  refine List.ext_getElem ?_ fun i hi hi' => ?_
  · rw [length_useRow, hf.length_eq, List.length_map, hw.length_eq]
  rw [length_useRow, hf.length_eq] at hi
  have hiw : i < w.length := hw.length_eq ▸ hi
  have hie : i < e.length := he.length_eq ▸ hi
  have hit : i < t.length := ht.length_eq ▸ hi
  have hir : i < (w.sub e).length := hr.length_eq ▸ hi
  have hif : i < ((w.sub e).add t).length := hf.length_eq ▸ hi
  have him : i < (t.map fun x => (q - x) % q).length := by rwa [List.length_map]
  have hrget : (w.sub e)[i] = (w[i] + (q - e[i])) % q := List.getElem_zipWith
  have hfget : ((w.sub e).add t)[i] = ((w.sub e)[i] + t[i]) % q := List.getElem_zipWith
  have hlowi := hlow _ (List.getElem_mem hir)
  rw [hrget] at hlowi hfget
  rw [getElem_useRow_hintRow him hif, List.getElem_map, List.getElem_map, hfget]
  exact useHint_commitment (hw.lt _ (List.getElem_mem hiw)) (he.lt _ (List.getElem_mem hie))
    (ht.lt _ (List.getElem_mem hit)) (hsmall _ (List.getElem_mem hie)) hlowi
    (hlarge _ (List.getElem_mem hit))

/-! ## The hints of a signature -/

/-- The hints of a signer for the commitment `w`, row by row. -/
def hints (w e t : PolyVec) : Hint :=
  List.zipWith hintRow (t.map fun f => f.map fun x => (q - x) % q) ((w.sub e).add t)

section Hints

variable {w e t : PolyVec}

/-- There is a row of hints for each polynomial of a commitment. -/
theorem length_hints (hw : w.IsReduced rowCount) (he : e.IsReduced rowCount)
    (ht : t.IsReduced rowCount) : (hints w e t).length = rowCount := by
  simp [hints, PolyVec.add, PolyVec.sub, hw.length_eq, he.length_eq, ht.length_eq]

/-- Hints that are few enough can be packed. -/
theorem isValid_hints (ht : t.IsReduced rowCount) (hweight : (hints w e t).weight ≤ omega) :
    (hints w e t).IsValid := by
  have hrow : ∀ row ∈ hints w e t, increasing row = true ∧ ∀ i ∈ row, i < 256 := by
    intro row hrow
    obtain ⟨r, hr, rfl⟩ := List.getElem_of_mem hrow
    have hrt : r < t.length := by
      simp only [hints, List.length_zipWith, List.length_map] at hr
      omega
    simp only [hints, List.getElem_zipWith, List.getElem_map]
    refine ⟨increasing_hintRow _ _, fun i hi => ?_⟩
    have hlt := (lt_of_mem_hintRow hi).1
    rwa [List.length_map, (ht.isReduced _ (List.getElem_mem hrt)).length_eq] at hlt
  exact ⟨fun row h => (hrow row h).1, fun row h => (hrow row h).2, hweight⟩

/-- The hints of a signer lead back to the high parts of the commitment. -/
theorem useRow_hints (hw : w.IsReduced rowCount) (he : e.IsReduced rowCount)
    (ht : t.IsReduced rowCount) (hsmall : ∀ f ∈ e, ∀ x ∈ f, norm x ≤ beta)
    (hlow : ∀ f ∈ w.sub e, ∀ x ∈ f, norm (lowPart x) < gamma2 - beta)
    (hlarge : ∀ f ∈ t, ∀ x ∈ f, norm x < gamma2) :
    List.zipWith (fun f row => useRow row f) ((w.sub e).add t) (hints w e t) =
      w.map fun f => f.map highPart := by
  refine List.ext_getElem ?_ fun r hr hr' => ?_
  · simp [hints, PolyVec.add, PolyVec.sub, hw.length_eq, he.length_eq, ht.length_eq]
  rw [List.length_map] at hr'
  have hrowCount : r < rowCount := hw.length_eq ▸ hr'
  have hre : r < e.length := he.length_eq ▸ hrowCount
  have hrt : r < t.length := ht.length_eq ▸ hrowCount
  have hmem : w[r].sub e[r] ∈ w.sub e := by
    have hrsub : r < (w.sub e).length := by simpa [PolyVec.sub] using ⟨hr', hre⟩
    have hget : (w.sub e)[r] = w[r].sub e[r] := List.getElem_zipWith
    exact hget ▸ List.getElem_mem hrsub
  simp only [hints, PolyVec.add, PolyVec.sub, List.getElem_zipWith, List.getElem_map]
  exact useRow_hintRow (hw.isReduced _ (List.getElem_mem hr'))
    (he.isReduced _ (List.getElem_mem hre)) (ht.isReduced _ (List.getElem_mem hrt))
    (hsmall _ (List.getElem_mem hre)) (hlow _ hmem) (hlarge _ (List.getElem_mem hrt))

end Hints

end PeerIdentity.MlDsa
