import PeerIdentity.Proofs.MlDsa.Blank
import PeerIdentity.Proofs.MlDsa.Expansion

/-!
# Evaluating an attempt

The masks, the commitment and the vector that a verifier computes, all on packed polynomials. With
them the kernel decides whether a key without secrets signs a message hash in its first attempt, and
whether a public key rejects that signature.

* `PolyVec.packed`: the packed polynomials of a vector;
* `innerNat`, `commitmentHashNat`: inner products and commitment hashes on numbers;
* `signs`, `rejects`: the evaluation, and `signs_spec`, `rejects_spec`: what it tells.
-/

namespace PeerIdentity.MlDsa

variable {α : Type}

/-- Continues with the numerals of a list. -/
def strictList : List Nat → (next : List Nat → α) → α
  | [], next => next []
  | x :: xs, next => strict x fun x => strictList xs fun xs => next (x :: xs)

/-- Continuing with the numerals of a list is continuing with the list. -/
@[simp]
theorem strictList_eq (xs : List Nat) (next : List Nat → α) : strictList xs next = next xs := by
  induction xs generalizing next with
  | nil => rfl
  | cons x xs ih => rw [strictList, strict_eq, ih]

/-! ## Conditions on all coefficients -/

/-- Whether all digits of a number satisfy a condition. -/
def allSlots (p : Nat → Bool) : (levels n : Nat) → Bool
  | 0, n => p n
  | levels + 1, n => halves 256 levels n fun low high =>
      cond (allSlots p levels low) (allSlots p levels high) false

/-- A condition on all digits of a packed list is one on all its elements. -/
theorem allSlots_ofDigits (p : Nat → Bool) {levels : Nat} {ds : List Nat}
    (hlength : ds.length = 2 ^ levels) (h : ∀ d ∈ ds, d < 2 ^ 256) :
    allSlots p levels (ofDigits 256 ds) = ds.all p := by
  induction levels generalizing ds with
  | zero =>
    obtain ⟨d, rfl⟩ := List.length_eq_one_iff.mp hlength
    simp [allSlots, ofDigits]
  | succ levels ih =>
    obtain ⟨a, b, ha, hb, rfl⟩ := exists_halves hlength
    have hlow := fun x hx => h x (List.mem_append_left b hx)
    have hhigh := fun x hx => h x (List.mem_append_right a hx)
    rw [allSlots, halves_eq b ha hlow, ih ha hlow, ih hb hhigh, List.all_append,
      Bool.cond_false_right]

/-- A condition on residues is checked on digits that are not reduced. -/
theorem Packs.allSlots_eq {levels bound n : Nat} {f : Poly} (hf : Packs levels bound n f)
    (hbound : bound < 2 ^ 256) (p : Nat → Bool) :
    allSlots (fun x => p (Nat.mod x q)) levels n = f.all p := by
  obtain ⟨ds, hlength, hlt, rfl, hmap⟩ := hf.exists_reduced hbound
  rw [allSlots_ofDigits _ hlength hlt, ← hmap, List.all_map]
  rfl

/-! ## Packed vectors -/

/-- The packed polynomials of a vector. -/
def PolyVec.packed (v : PolyVec) : List Nat :=
  v.map (ofDigits 256)

/-- Reduced coefficients fit into the digits of a packed polynomial. -/
theorem ofDigits_width_lt {f : Poly} {n : Nat} (hf : f.IsReduced n) : ∀ x ∈ f, x < 2 ^ 256 :=
  fun x hx => (hf.lt x hx).trans (by decide)

/-- The products of the digits of two numbers. -/
def pointwiseNat (m n : Nat) : Nat :=
  slots₂ (fun x y => Nat.mod (Nat.mul x y) q) 256 8 m n

/-- Packed values are multiplied digit by digit. -/
theorem pointwiseNat_eq {f g : Poly} (hf : f.IsReduced 256) (hg : g.IsReduced 256) :
    pointwiseNat (ofDigits 256 f) (ofDigits 256 g) = ofDigits 256 (f.pointwise g) := by
  have hflength : f.length = 2 ^ 8 := hf.length_eq
  have hglength : g.length = 2 ^ 8 := hg.length_eq
  rw [pointwiseNat, slots₂_ofDigits _ 256 hflength hglength (ofDigits_width_lt hf)
    (ofDigits_width_lt hg)]
  rfl

/-- The transform of a packed polynomial is that of the polynomial, packed. -/
theorem transformNat_ofDigits {f : Poly} (hf : f.IsReduced 256) :
    transformNat 8 1 (ofDigits 256 f) = ofDigits 256 f.transform := by
  have hpacks : Packs 8 q (ofDigits 256 f) f := Packs.of_isReduced hf
  -- Eight levels fit into the 256 bits of a digit.
  have hbound : (2 * q) ^ 8 * q < 2 ^ 256 := by decide
  rw [Poly.transform, transformNat_eq hpacks hbound]

/-- The transform of a packed vector is that of the vector, packed. -/
theorem PolyVec.packed_transform {count : Nat} {v : PolyVec} (hv : v.IsReduced count) :
    v.packed.map (transformNat 8 1) = v.transform.packed := by
  rw [PolyVec.packed, PolyVec.packed, PolyVec.transform, List.map_map, List.map_map]
  refine List.map_congr_left fun f hf => ?_
  rw [Function.comp_apply, transformNat_ofDigits (hv.isReduced f hf), Function.comp_apply]

/-- The inner product of two vectors of packed polynomials, added to a number. -/
def innerNat : (row v : List Nat) → (sum : Nat) → Nat
  | m :: row, n :: v, sum => strict (Nat.add sum (pointwiseNat m n)) (innerNat row v)
  | _, _, sum => sum

/-- The digits of an inner product grow by `q` with each summand. -/
theorem packs_innerNat {row v : PolyVec} {bound sum : Nat} {acc : Poly}
    (hrow : ∀ f ∈ row, Poly.IsReduced 256 f) (hv : ∀ f ∈ v, Poly.IsReduced 256 f)
    (hacc : Packs 8 bound sum acc) :
    Packs 8 (bound + row.length * q) (innerNat row.packed v.packed sum)
      ((List.zipWith Poly.pointwise row v).foldl Poly.add acc) := by
  induction row generalizing v bound sum acc with
  | nil => simpa [PolyVec.packed, innerNat] using hacc
  | cons f row ih =>
    cases v with
    | nil => exact hacc.mono (Nat.le_add_right _ _)
    | cons g v =>
      have hf := hrow f List.mem_cons_self
      have hg := hv g List.mem_cons_self
      -- The products are reduced and their sum is not, so each of them adds `q` to the bound.
      have hproduct : Packs 8 q (ofDigits 256 (f.pointwise g)) (f.pointwise g) :=
        Packs.of_isReduced (hf.pointwise hg)
      have hrest := ih (fun x hx => hrow x (List.mem_cons_of_mem f hx))
        (fun x hx => hv x (List.mem_cons_of_mem g hx)) (hacc.add hproduct)
      have hlength : bound + (row.length + 1) * q = bound + q + row.length * q := by ring
      have hstep : innerNat (PolyVec.packed (f :: row)) (PolyVec.packed (g :: v)) sum =
          innerNat (PolyVec.packed row) (PolyVec.packed v)
            (Nat.add sum (ofDigits 256 (f.pointwise g))) := by
        rw [← pointwiseNat_eq hf hg]
        exact strict_eq _ _
      rw [hstep, List.length_cons, hlength]
      exact hrest

/-! ## Commitments -/

/-- A coefficient of the inverse transform, from one of the polynomial `2 ^ 8` times over. -/
def unscale (x : Nat) : Nat :=
  Nat.mod (Nat.mul 8347681 x) q

/-- The high parts of a commitment, packed with four bits each. -/
def highNat (n : Nat) : Nat :=
  slots (fun x => highPart (unscale (Nat.mod x q))) 256 4 8 n

/-- Whether the low parts of a commitment are small. -/
def isLowNat (n : Nat) : Bool :=
  allSlots (fun x => decide (norm (lowPart (unscale (Nat.mod x q))) < gamma2 - beta)) 8 n

/-- A number that packs a commitment before its coefficients are divided by 256. -/
def PacksCommitment (n : Nat) (w : Poly) : Prop :=
  ∃ bound f, bound < 2 ^ 256 ∧ Packs 8 bound n f ∧ w = f.map unscale

/-- The inverse transform packs a commitment as long as its digits have room for all layers. -/
theorem packsCommitment_untransformNat {bound n : Nat} {f : Poly} (hf : Packs 8 bound n f)
    (hbound : (2 * q) ^ 8 * bound < 2 ^ 256) :
    PacksCommitment (untransformNat 8 1 n) f.untransform := by
  have hpos : 0 < (2 * q) ^ 8 := Nat.pow_pos (by decide)
  have hsmall : bound < 2 ^ 256 := lt_of_le_of_lt (Nat.le_mul_of_pos_left _ hpos) hbound
  exact ⟨_, _, hbound, packs_untransformNat hf hsmall, rfl⟩

/-- The high parts of a commitment are computed from its packed form. -/
theorem PacksCommitment.highNat_eq {n : Nat} {w : Poly} (hw : PacksCommitment n w) :
    highNat n = ofDigits 4 (w.map highPart) := by
  obtain ⟨bound, f, hbound, hf, rfl⟩ := hw
  rw [highNat, hf.slots_eq hbound (fun x => highPart (unscale x)), List.map_map]
  rfl

/-- Whether the low parts of a commitment are small is seen from its packed form. -/
theorem PacksCommitment.isLowNat_eq {n : Nat} {w : Poly} (hw : PacksCommitment n w) :
    isLowNat n = (w.map lowPart).all fun x => decide (norm x < gamma2 - beta) := by
  obtain ⟨bound, f, hbound, hf, rfl⟩ := hw
  rw [isLowNat, hf.allSlots_eq hbound fun x => decide (norm (lowPart (unscale x)) < gamma2 - beta)]
  simp only [List.all_map, Function.comp_def]

/-- The number of the hash of a commitment with packed high parts. -/
def commitmentHashNat (mu : Nat) (highs : List Nat) : Nat :=
  shake256Nat 1088 (mu + Nat.shiftLeft (ofDigits 1024 highs) 512) 64

/-- A high part takes four bits. -/
theorem highPart_lt (x : Nat) : highPart x < 2 ^ 4 :=
  Nat.mod_lt _ (by decide)

/-- The number of a packed polynomial. -/
theorem toNatLE_pack {width : Nat} {f : Poly} (hf : f.HasWidth width) :
    Bytes.toNatLE (pack width f) = ofDigits width f := by
  refine Bytes.toNatLE_ofNatLE ?_
  have hlt := ofDigits_lt hf.lt
  have hbits : width * f.length = 8 * (32 * width) := by
    rw [hf.length_eq]
    omega
  rwa [hbits, Nat.pow_mul] at hlt

/-- A packed vector is the number that its packed polynomials make. -/
theorem toNatLE_flatMap_pack {width : Nat} {v : PolyVec} (hv : ∀ f ∈ v, f.HasWidth width) :
    Bytes.toNatLE (v.flatMap (pack width)) =
      ofDigits (8 * (32 * width)) (v.map (ofDigits width)) := by
  induction v with
  | nil => rfl
  | cons f v ih =>
    rw [List.flatMap_cons, Bytes.toNatLE_append, toNatLE_pack (hv f List.mem_cons_self),
      ih fun g hg => hv g (List.mem_cons_of_mem f hg), length_pack, List.map_cons, ofDigits,
      Bytes.shiftLeft_bytes, Nat.mul_comm]

/-- The hash of a commitment is computed from its packed high parts. -/
theorem toNatLE_commitmentHash {mu : Bytes} {w : PolyVec} (hmu : mu.length = 64)
    (hw : w.IsReduced rowCount) :
    Bytes.toNatLE (commitmentHash mu (w.map fun f => f.map highPart)) =
      commitmentHashNat (Bytes.toNatLE mu) (w.map fun f => ofDigits 4 (f.map highPart)) := by
  have hwidth : ∀ f ∈ w.map fun f => f.map highPart, Poly.HasWidth 4 f := by
    intro f hf
    obtain ⟨g, hg, rfl⟩ := List.mem_map.mp hf
    exact Poly.hasWidth_map (hw.isReduced g hg).length_eq fun x _ => highPart_lt x
  have hlength : (mu ++ (w.map fun f => f.map highPart).flatMap (pack 4)).length = 1088 := by
    rw [List.length_append, length_flatMap_pack, List.length_map, hw.length_eq, hmu]
    rfl
  rw [commitmentHash, toNatLE_shake256, hlength, Bytes.toNatLE_append, toNatLE_flatMap_pack hwidth,
    List.map_map, hmu, commitmentHashNat, Nat.mul_comm, ← Bytes.shiftLeft_bytes]
  rfl

/-- The hash of a commitment from its packed polynomials. -/
theorem toNatLE_commitmentHash_of_packs {mu : Bytes} {ns : List Nat} {w : PolyVec}
    (hmu : mu.length = 64) (hw : w.IsReduced rowCount) (h : List.Forall₂ PacksCommitment ns w) :
    Bytes.toNatLE (commitmentHash mu (w.map fun f => f.map highPart)) =
      commitmentHashNat (Bytes.toNatLE mu) (ns.map highNat) := by
  have hhighs : ns.map highNat = w.map fun f => ofDigits 4 (f.map highPart) := by
    clear hw
    induction h with
    | nil => rfl
    | cons hn _ ih => rw [List.map_cons, List.map_cons, hn.highNat_eq, ih]
  rw [toNatLE_commitmentHash hmu hw, hhighs]

/-- Small low parts of a commitment, from its packed polynomials. -/
theorem reaches_lowPart_of_packs {ns : List Nat} {w : PolyVec}
    (h : List.Forall₂ PacksCommitment ns w) (hlow : ns.all isLowNat = true) :
    PolyVec.reaches (gamma2 - beta) (w.map fun f => f.map lowPart) = false := by
  rw [PolyVec.reaches_eq_false_iff]
  induction h with
  | nil => simp
  | @cons n f ns w hn _ ih =>
    rw [List.all_cons, Bool.and_eq_true, hn.isLowNat_eq] at hlow
    intro g hg x hx
    rcases List.mem_cons.mp hg with rfl | hg
    · exact of_decide_eq_true (List.all_eq_true.mp hlow.1 x hx)
    · exact ih hlow.2 g hg x hx

/-! ## An attempt -/

/-- A row of the matrix of a seed, in values. -/
def matrixRow (rho : Bytes) (r : Nat) : PolyVec :=
  (List.range columnCount).map fun s => uniform (rho ++ [UInt8.ofNat s, UInt8.ofNat r])

/-- The inner product of a row of the matrix and a vector of values. -/
def rowNat (rho : Bytes) (values : List Nat) (r : Nat) : Nat :=
  innerNat ((List.range columnCount).map fun s =>
    uniformNat 34 (Bytes.toNatLE (rho ++ [UInt8.ofNat s, UInt8.ofNat r]))) values 0

/-- The inner product of a row of the matrix is computed on packed values. -/
theorem packs_rowNat {rho : Bytes} (hrho : rho.length = 32) {v : PolyVec}
    (hv : v.IsReduced columnCount) (r : Nat) :
    Packs 8 (columnCount * q) (rowNat rho v.packed r) (PolyVec.inner (matrixRow rho r) v) := by
  have hzero : Packs 8 0 0 Poly.zero := by
    refine ⟨Poly.isReduced_zero, Poly.zero, Poly.isReduced_zero.length_eq, fun d hd => ?_,
      (ofDigits_replicate_zero 256 256).symm, fun _ _ => rfl⟩
    rw [List.eq_of_mem_replicate hd]
  have hrow : PolyVec.packed (matrixRow rho r) = (List.range columnCount).map fun s =>
      uniformNat 34 (Bytes.toNatLE (rho ++ [UInt8.ofNat s, UInt8.ofNat r])) := by
    rw [PolyVec.packed, matrixRow, List.map_map]
    refine List.map_congr_left fun s _ => ?_
    rw [Function.comp_apply, ← uniformNat_eq, List.length_append, hrho]
    rfl
  have hreduced : ∀ f ∈ matrixRow rho r, Poly.IsReduced 256 f := by
    intro f hf
    obtain ⟨s, -, rfl⟩ := List.mem_map.mp hf
    exact isReduced_uniform _
  have hlength : 0 + (matrixRow rho r).length * q = columnCount * q := by
    rw [matrixRow, List.length_map, List.length_range, Nat.zero_add]
  have hinner := packs_innerNat hreduced hv.isReduced hzero
  rwa [hlength, hrow] at hinner

/-- The vector that a verifier computes, packed, where `rows` are the inner products. -/
def checkedNat (c : Nat) (rows : List Nat) (t1 : PolyVec) : List Nat :=
  List.zipWith (fun row f => untransformNat 8 1 (Nat.add row (Nat.mul (q - 1)
    (pointwiseNat c (transformNat 8 1 (ofDigits 256 (Poly.scale 8192 f))))))) rows t1

section Attempt

variable {rho : Bytes} {t1 y : PolyVec} {c : Poly}

/-- The commitment of a blank key is computed from the packed mask. -/
theorem packs_commitment (k tr : Bytes) (hrho : rho.length = 32) (hy : y.IsReduced columnCount) :
    List.Forall₂ PacksCommitment
      (((List.range rowCount).map (rowNat rho y.transform.packed)).map (untransformNat 8 1))
      (commitment (SecretKey.blank rho k tr) y) := by
  rw [List.forall₂_iff_get]
  refine ⟨by simp [commitment, SecretKey.blank, PolyVec.untransform, PolyVec.apply, expandMatrix],
    fun i hi hi' => ?_⟩
  have hrow := packs_rowNat hrho hy.transform i
  simp only [List.get_eq_getElem, List.getElem_map, List.getElem_range, commitment,
    SecretKey.blank, PolyVec.untransform, PolyVec.apply, expandMatrix]
  exact packsCommitment_untransformNat hrow (by decide)

/-- The vector of the verifier is computed from the packed mask, challenge and public vector. -/
theorem packs_checkedVector (hrho : rho.length = 32) (hy : y.IsReduced columnCount)
    (ht1 : t1.IsReduced rowCount) (hc : c.IsReduced 256) :
    List.Forall₂ PacksCommitment
      (checkedNat (ofDigits 256 c) ((List.range rowCount).map (rowNat rho y.transform.packed)) t1)
      (checkedVector rho t1 y c) := by
  rw [List.forall₂_iff_get]
  refine ⟨by simp [checkedNat, checkedVector, PolyVec.untransform, PolyVec.sub, PolyVec.apply,
    expandMatrix], fun i hi hi' => ?_⟩
  have hit : i < t1.length := by
    simp only [checkedNat, List.length_zipWith] at hi
    omega
  have hf := (ht1.isReduced _ (List.getElem_mem hit)).scale 8192
  have hproduct : Packs 8 q _ (c.pointwise (Poly.scale 8192 t1[i]).transform) :=
    Packs.of_isReduced (hc.pointwise hf.transform)
  have hrow := (packs_rowNat hrho hy.transform i).sub hproduct
  simp only [List.get_eq_getElem, checkedNat, checkedVector, List.getElem_zipWith,
    List.getElem_map, List.getElem_range, PolyVec.untransform, PolyVec.sub, PolyVec.apply,
    expandMatrix, transformNat_ofDigits hf, pointwiseNat_eq hc hf.transform]
  exact packsCommitment_untransformNat hrow (by decide)

end Attempt

/-- Whether the coefficients of a mask are small enough for a response. -/
def isSmallNat (n : Nat) : Bool :=
  allSlots (fun x => decide (norm x < gamma1 - beta)) 8 n

/-- The masks of a seed of 64 bytes with the number `seed`, packed. -/
def masksNat (seed : Nat) : List Nat :=
  (List.range columnCount).map fun i => maskNat 66 (seed + Nat.shiftLeft i 512)

/-- Continues with the masks, the inner products with the rows of the matrix, and the commitment of
a first attempt. -/
def firstAttempt (rho : Bytes) (seed : Nat) (next : (masks rows ws : List Nat) → α) : α :=
  strictList (masksNat seed) fun masks =>
  strictList (masks.map (transformNat 8 1)) fun values =>
  strictList ((List.range rowCount).map (rowNat rho values)) fun rows =>
  strictList (rows.map (untransformNat 8 1)) fun ws => next masks rows ws

/-- Whether a key without secrets signs in its first attempt. -/
def signs (rho : Bytes) (seed : Nat) : Bool :=
  firstAttempt rho seed fun masks _ ws => masks.all isSmallNat && ws.all isLowNat

/-- Whether a key without secrets signs a message hash in its first attempt and the public vector
`t1` rejects the signature. Message hash and seed are given by their numbers. -/
def rejects (rho : Bytes) (t1 : PolyVec) (mu seed : Nat) : Bool :=
  firstAttempt rho seed fun masks rows ws =>
  strict (commitmentHashNat mu (ws.map highNat)) fun hash =>
  strict (transformNat 8 1 (challengeNat 64 hash)) fun c =>
    (masks.all isSmallNat && ws.all isLowNat) &&
      hash != commitmentHashNat mu ((checkedNat c rows t1).map highNat)

/-- The masks of a seed are computed packed. -/
theorem masksNat_eq {seed : Bytes} (hseed : seed.length = 64) :
    masksNat (Bytes.toNatLE seed) = (expandMask seed 0).packed := by
  rw [masksNat, expandMask, PolyVec.packed, List.map_map]
  refine List.map_congr_left fun i hi => ?_
  have hlt : i < 256 ^ 2 := (List.mem_range.mp hi).trans (by decide)
  have hlength : (seed ++ Bytes.ofNatLE 2 (0 + i)).length = 66 := by
    rw [List.length_append, hseed, Bytes.length_ofNatLE]
  have hnumber : Bytes.toNatLE (seed ++ Bytes.ofNatLE 2 (0 + i)) =
      Bytes.toNatLE seed + Nat.shiftLeft i 512 := by
    rw [Bytes.toNatLE_append, Nat.zero_add, Bytes.toNatLE_ofNatLE hlt, hseed, Nat.mul_comm,
      ← Bytes.shiftLeft_bytes]
    rfl
  rw [Function.comp_apply, ← maskNat_eq, hlength, hnumber]

/-- A mask whose packed polynomials are small is no reason for another attempt. -/
theorem reaches_of_isSmallNat {count : Nat} {y : PolyVec} (hy : y.IsReduced count)
    (h : y.packed.all isSmallNat = true) : y.reaches (gamma1 - beta) = false := by
  rw [PolyVec.reaches_eq_false_iff]
  intro f hf x hx
  have hlength : f.length = 2 ^ 8 := (hy.isReduced f hf).length_eq
  have hsmall := List.all_eq_true.mp h _ (List.mem_map_of_mem hf)
  rw [isSmallNat, allSlots_ofDigits _ hlength (ofDigits_width_lt (hy.isReduced f hf))] at hsmall
  exact of_decide_eq_true (List.all_eq_true.mp hsmall x hx)

/-- A signature without hints is read back. -/
theorem isReadable_none {hash : Bytes} {y : PolyVec} (hhash : hash.length = 64)
    (hy : y.IsReduced columnCount) (hreaches : y.reaches (gamma1 - beta) = false) :
    IsReadable hash y Hint.none where
  length_hash := hhash
  isReduced := hy
  reaches := hreaches
  length_hints := List.length_replicate
  isValid := by
    have hrow : ∀ row ∈ Hint.none, row = [] := fun _ h => List.eq_of_mem_replicate h
    refine ⟨fun row h => ?_, fun row h i hi => ?_, by decide⟩
    · rw [hrow row h]
      rfl
    · rw [hrow row h] at hi
      cases hi

section Evaluation

variable {rho mu seed : Bytes} {t1 : PolyVec}

/-- The evaluation is about the signer. -/
theorem signs_spec (k tr mu : Bytes) (hrho : rho.length = 32) (hseed : seed.length = 64)
    (h : signs rho (Bytes.toNatLE seed) = true) :
    (SecretKey.blank rho k tr).signer.attempt? mu seed 0 =
        some (packSignature (attemptHash (SecretKey.blank rho k tr) mu (expandMask seed 0))
          (expandMask seed 0) Hint.none) ∧
      IsReadable (attemptHash (SecretKey.blank rho k tr) mu (expandMask seed 0)) (expandMask seed 0)
        Hint.none := by
  have hy := isReduced_expandMask seed 0
  have hpacks := packs_commitment k tr hrho hy
  simp only [signs, firstAttempt, strictList_eq, masksNat_eq hseed, PolyVec.packed_transform hy,
    Bool.and_eq_true] at h
  have hreaches := reaches_of_isSmallNat hy h.1
  exact ⟨(attempt?_blank_iff rfl).mpr ⟨hreaches, reaches_lowPart_of_packs hpacks h.2, rfl⟩,
    isReadable_none (length_shake256 _ _) hy hreaches⟩

/-- A signature that is rejected was made. -/
theorem signs_of_rejects {mu seed : Nat} (h : rejects rho t1 mu seed = true) :
    signs rho seed = true := by
  simp only [rejects, firstAttempt, strictList_eq, strict_eq, Bool.and_eq_true] at h
  simpa only [signs, firstAttempt, strictList_eq, Bool.and_eq_true] using h.1

/-- The evaluation is about the verifier. -/
theorem rejects_spec (k tr : Bytes) (hrho : rho.length = 32) (hmu : mu.length = 64)
    (hseed : seed.length = 64) (ht1 : t1.IsReduced rowCount)
    (h : rejects rho t1 (Bytes.toNatLE mu) (Bytes.toNatLE seed) = true) :
    attemptHash (SecretKey.blank rho k tr) mu (expandMask seed 0) ≠
      commitmentHash mu (recover rho t1
        (challenge (attemptHash (SecretKey.blank rho k tr) mu (expandMask seed 0))).transform
        (expandMask seed 0) Hint.none) := by
  intro heq
  have hy := isReduced_expandMask seed 0
  have hw : (commitment (SecretKey.blank rho k tr) (expandMask seed 0)).IsReduced rowCount :=
    isReduced_commitment hy
  have hhash : Bytes.toNatLE (attemptHash (SecretKey.blank rho k tr) mu (expandMask seed 0)) = _ :=
    toNatLE_commitmentHash_of_packs hmu hw (packs_commitment k tr hrho hy)
  have hc := (isChallenge_challenge
    (attemptHash (SecretKey.blank rho k tr) mu (expandMask seed 0))).isReduced
  have hlength : (attemptHash (SecretKey.blank rho k tr) mu (expandMask seed 0)).length = 64 :=
    length_shake256 _ _
  have hchallenge : challengeNat 64 (Bytes.toNatLE (attemptHash (SecretKey.blank rho k tr) mu
      (expandMask seed 0))) = _ := hlength ▸ challengeNat_eq _
  -- Equal hashes would have equal numbers, which the evaluation has told apart.
  have hv := isReduced_checkedVector rho hy ht1 hc.transform
  have hchecked := toNatLE_commitmentHash_of_packs hmu hv
    (packs_checkedVector hrho hy ht1 hc.transform)
  rw [← recover_none hv.length_eq, ← heq] at hchecked
  simp only [rejects, firstAttempt, strictList_eq, strict_eq, masksNat_eq hseed,
    PolyVec.packed_transform hy, ← hhash, hchallenge, transformNat_ofDigits hc, ← hchecked,
    bne_self_eq_false, Bool.and_false, Bool.false_eq_true] at h

end Evaluation

end PeerIdentity.MlDsa
