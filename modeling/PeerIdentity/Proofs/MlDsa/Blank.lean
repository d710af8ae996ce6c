import PeerIdentity.Proofs.MlDsa.Generation

/-!
# Keys without secrets

A secret key whose three vectors are zero signs with the mask itself and without hints. It belongs
to the public vector zero only, but nothing in the signature depends on the public vector.

* `SecretKey.blank`: the key, and `isPackable_blank`: it can be written;
* `attempt?_blank_iff`: when an attempt succeeds, and what it returns;
* `recover_none`: what a verifier recovers without hints.
-/

namespace PeerIdentity.MlDsa

/-! ## Zero vectors -/

namespace Poly

/-- The zero polynomial has the value zero everywhere. -/
theorem transform_zero : transform zero = zero := by
  refine isReduced_zero.transform.ext isReduced_zero fun i hi => ?_
  rw [coeff_transform isReduced_zero hi, coeff_zero, eval]
  simp

/-- Values that are all zero are those of the zero polynomial. -/
theorem untransform_zero : untransform zero = zero := by
  have h := untransform_transform isReduced_zero
  rwa [transform_zero] at h

variable {f : Poly}

theorem pointwise_zero (hf : f.IsReduced 256) : pointwise f zero = zero := by
  refine (hf.pointwise isReduced_zero).ext isReduced_zero fun i _ => ?_
  rw [coeff_pointwise hf isReduced_zero, coeff_zero, mul_zero]

theorem scale_zero (c : Nat) : scale c zero = zero := by
  rw [scale, zero, List.map_replicate, Nat.mul_zero, Nat.zero_mod]

theorem add_zero (hf : f.IsReduced 256) : f.add zero = f := by
  refine (hf.add isReduced_zero).ext hf fun i _ => ?_
  rw [coeff_add hf isReduced_zero, coeff_zero]
  simp

theorem sub_zero (hf : f.IsReduced 256) : f.sub zero = f := by
  refine (hf.sub isReduced_zero).ext hf fun i _ => ?_
  rw [coeff_sub hf isReduced_zero, coeff_zero]
  simp

end Poly

namespace PolyVec

/-- The vector of zeros. -/
def zero (count : Nat) : PolyVec :=
  List.replicate count Poly.zero

variable {count : Nat} {v : PolyVec} {c : Poly}

/-- The coefficients of the zero vector are reduced. -/
theorem isReduced_zero : (zero count).IsReduced count :=
  ⟨List.length_replicate, fun _ hf => List.eq_of_mem_replicate hf ▸ Poly.isReduced_zero⟩

/-- A challenge times the zero vector is the zero vector. -/
theorem times_zero (hc : c.IsReduced 256) : times c (zero count).transform = zero count := by
  rw [times, transform, zero, List.map_replicate, List.map_replicate, Poly.transform_zero,
    Poly.pointwise_zero hc, Poly.untransform_zero]

theorem add_zero (hv : v.IsReduced count) : v.add (zero count) = v := by
  refine List.ext_getElem (by simp [add, zero, hv.length_eq]) fun i hi hi' => ?_
  simp only [add, zero, List.getElem_zipWith, List.getElem_replicate]
  exact Poly.add_zero (hv.isReduced _ (List.getElem_mem hi'))

theorem sub_zero (hv : v.IsReduced count) : v.sub (zero count) = v := by
  refine List.ext_getElem (by simp [sub, zero, hv.length_eq]) fun i hi hi' => ?_
  simp only [sub, zero, List.getElem_zipWith, List.getElem_replicate]
  exact Poly.sub_zero (hv.isReduced _ (List.getElem_mem hi'))

/-- The zero vector has zeros as its values. -/
theorem transform_zero : (zero count).transform = zero count := by
  rw [transform, zero, List.map_replicate, Poly.transform_zero]

/-- An inner product with the zero vector is zero. -/
theorem inner_zero {row : PolyVec} (hrow : ∀ f ∈ row, Poly.IsReduced 256 f) :
    inner row (zero count) = Poly.zero := by
  have hzero : ∀ f ∈ zero count, Poly.IsReduced 256 f := isReduced_zero.isReduced
  refine (isReduced_inner hrow hzero).ext Poly.isReduced_zero fun i _ => ?_
  have hsum : (List.zipWith (fun f g => f.coeff * g.coeff) row (zero count)).sum = 0 := by
    refine List.sum_eq_zero fun x hx => ?_
    obtain ⟨j, hj, rfl⟩ := List.getElem_of_mem hx
    simp only [zero, List.getElem_zipWith, List.getElem_replicate, Poly.coeff_zero, mul_zero]
  rw [coeff_inner hrow hzero, hsum, Poly.coeff_zero]

/-- A vector with coefficients of ten bits is zero if its multiple by `2 ^ 13` is: the products stay
below `q`. -/
theorem scale_eq_zero_iff (hv : v.length = count) (hwidth : ∀ f ∈ v, f.HasWidth 10) :
    v.map (Poly.scale 8192) = zero count ↔ v = zero count := by
  have hpoly : ∀ f ∈ v, Poly.scale 8192 f = Poly.zero → f = Poly.zero := by
    intro f hf h
    refine List.eq_replicate_iff.mpr ⟨(hwidth f hf).length_eq, fun x hx => ?_⟩
    have hlt : x < 2 ^ 10 := (hwidth f hf).lt x hx
    have hzero : 8192 * x % q = 0 :=
      List.eq_of_mem_replicate (h ▸ List.mem_map_of_mem hx : 8192 * x % q ∈ Poly.zero)
    -- The product is below `q`, since `2 ^ 13 * (2 ^ 10 - 1)` is.
    rw [q] at hzero
    omega
  constructor
  · intro h
    refine List.eq_replicate_iff.mpr ⟨hv, fun f hf => hpoly f hf ?_⟩
    exact List.eq_of_mem_replicate (h ▸ List.mem_map_of_mem hf : Poly.scale 8192 f ∈ zero count)
  · rintro rfl
    rw [zero, List.map_replicate, Poly.scale_zero]

end PolyVec

/-! ## Signing without secrets -/

/-- The secret key with zero vectors. -/
def SecretKey.blank (rho k tr : Bytes) : SecretKey where
  rho := rho
  k := k
  tr := tr
  s1 := PolyVec.zero columnCount
  s2 := PolyVec.zero rowCount
  t0 := PolyVec.zero rowCount

/-- The hint without bits. -/
def Hint.none : Hint :=
  List.replicate rowCount []

/-- Zero takes as many bits as the bound that it is reflected from. -/
theorem hasWidth_reflectFrom_zero {width top : Nat} (h : subMod top 0 q < 2 ^ width) :
    (reflectFrom top Poly.zero).HasWidth width := by
  refine Poly.hasWidth_map Poly.isReduced_zero.length_eq fun x hx => ?_
  rwa [List.eq_of_mem_replicate hx]

section Blank

variable {rho k tr mu seed signature : Bytes} {first : Nat} {y : PolyVec} {c : Poly}

/-- The vectors of a blank key are reduced. -/
theorem isReduced_blank : (SecretKey.blank rho k tr).IsReduced :=
  ⟨PolyVec.isReduced_zero, PolyVec.isReduced_zero, PolyVec.isReduced_zero⟩

/-- A blank key is packed without loss. -/
theorem isPackable_blank (hrho : rho.length = 32) (hk : k.length = 32) (htr : tr.length = 64) :
    (SecretKey.blank rho k tr).IsPackable where
  isReduced := isReduced_blank
  length_rho := hrho
  length_k := hk
  length_tr := htr
  s1 _ hf := List.eq_of_mem_replicate hf ▸ hasWidth_reflectFrom_zero (by decide)
  s2 _ hf := List.eq_of_mem_replicate hf ▸ hasWidth_reflectFrom_zero (by decide)
  t0 _ hf := List.eq_of_mem_replicate hf ▸ hasWidth_reflectFrom_zero (by decide)

/-- Without secrets only the public vector zero belongs to the key. -/
theorem belongsTo_blank_iff {t1 : PolyVec} (hlength : t1.length = rowCount)
    (hwidth : ∀ f ∈ t1, f.HasWidth 10) :
    (SecretKey.blank rho k tr).BelongsTo t1 ↔ t1 = PolyVec.zero rowCount := by
  obtain ⟨hrows, hmatrix⟩ := isReduced_expandMatrix rho
  have hsmall : ∀ f ∈ (SecretKey.blank rho k tr).s2, ∀ x ∈ f, norm x ≤ 2 := by
    intro f hf x hx
    rw [List.eq_of_mem_replicate hf] at hx
    rw [List.eq_of_mem_replicate hx]
    decide
  -- Without secrets the left side of the equation of the key is zero.
  have hproduct :
      (PolyVec.apply (expandMatrix rho) (PolyVec.zero columnCount).transform).untransform =
        PolyVec.zero rowCount := by
    refine List.eq_replicate_iff.mpr ⟨by simp [PolyVec.untransform, PolyVec.apply, hrows],
      fun f hf => ?_⟩
    obtain ⟨g, hg, rfl⟩ := List.mem_map.mp hf
    obtain ⟨row, hrow, rfl⟩ := List.mem_map.mp hg
    rw [PolyVec.transform_zero, PolyVec.inner_zero (hmatrix row hrow).isReduced,
      Poly.untransform_zero]
  have hscaled : PolyVec.IsReduced rowCount (t1.map (Poly.scale 8192)) :=
    PolyVec.isReduced_scale ⟨hlength, fun f hf => (hwidth f hf).isReduced (by decide)⟩ 8192
  have hequation : (PolyVec.apply (expandMatrix (SecretKey.blank rho k tr).rho)
      (SecretKey.blank rho k tr).s1.transform).untransform.add (SecretKey.blank rho k tr).s2 =
        PolyVec.add (t1.map (Poly.scale 8192)) (SecretKey.blank rho k tr).t0 ↔
      t1 = PolyVec.zero rowCount := by
    show (PolyVec.apply (expandMatrix rho) (PolyVec.zero columnCount).transform).untransform.add
      (PolyVec.zero rowCount) = PolyVec.add (t1.map (Poly.scale 8192)) (PolyVec.zero rowCount) ↔ _
    rw [hproduct, PolyVec.add_zero hscaled, PolyVec.add_zero PolyVec.isReduced_zero, eq_comm,
      PolyVec.scale_eq_zero_iff hlength hwidth]
  exact ⟨fun h => hequation.mp h.equation, fun h => ⟨hsmall, hequation.mpr h⟩⟩

/-- A blank key responds to every challenge with the mask itself. -/
theorem response_blank (hy : y.IsReduced columnCount) (hc : c.IsReduced 256) :
    response (SecretKey.blank rho k tr) y c = y := by
  have hs1 : (SecretKey.blank rho k tr).s1 = PolyVec.zero columnCount := rfl
  rw [response, hs1, PolyVec.times_zero hc, PolyVec.add_zero hy]

/-- Where nothing is subtracted, no high part changes, so there are no hints. -/
theorem hintRow_zero {f : Poly} (hf : f.IsReduced 256) :
    hintRow (Poly.zero.map fun x => (q - x) % q) f = [] := by
  rw [List.eq_nil_iff_forall_not_mem]
  intro i hi
  obtain ⟨hm, hlt⟩ := lt_of_mem_hintRow hi
  have hx := hf.lt _ (List.getElem_mem hlt)
  have hzero : (Poly.zero.map fun x => (q - x) % q)[i] = 0 := by
    simp only [Poly.zero, List.getElem_map, List.getElem_replicate]
    decide
  rw [mem_hintRow hm hlt, hzero, makeHint, Nat.add_zero, Nat.mod_eq_of_lt hx] at hi
  simp at hi

/-- An attempt with a blank key needs no hints. -/
theorem attemptHints_blank (hy : y.IsReduced columnCount) (hc : c.IsReduced 256) :
    attemptHints (SecretKey.blank rho k tr) y c = Hint.none := by
  have hw : (commitment (SecretKey.blank rho k tr) y).IsReduced rowCount := isReduced_commitment hy
  have hs2 : (SecretKey.blank rho k tr).s2 = PolyVec.zero rowCount := rfl
  have ht0 : (SecretKey.blank rho k tr).t0 = PolyVec.zero rowCount := rfl
  rw [attemptHints, hs2, ht0, PolyVec.times_zero hc, hints, PolyVec.sub_zero hw,
    PolyVec.add_zero hw, PolyVec.zero, List.map_replicate]
  refine List.ext_getElem (by simp [Hint.none, hw.length_eq]) fun i hi hi' => ?_
  simp only [Hint.none, List.getElem_zipWith, List.getElem_replicate]
  exact hintRow_zero (hw.isReduced _ (List.getElem_mem _))

/-- Without secrets an attempt fails only for the sizes of the mask and of the low parts of the
commitment. -/
theorem attempt?_blank_iff (hy : y = expandMask seed first) :
    (SecretKey.blank rho k tr).signer.attempt? mu seed first = some signature ↔
      y.reaches (gamma1 - beta) = false ∧
      PolyVec.reaches (gamma2 - beta)
        ((commitment (SecretKey.blank rho k tr) y).map fun f => f.map lowPart) = false ∧
      signature = packSignature (attemptHash (SecretKey.blank rho k tr) mu y) y Hint.none := by
  have hyreduced : y.IsReduced columnCount := hy ▸ isReduced_expandMask seed first
  have hw : (commitment (SecretKey.blank rho k tr) y).IsReduced rowCount :=
    isReduced_commitment hyreduced
  have hc := (isChallenge_challenge
    (attemptHash (SecretKey.blank rho k tr) mu y)).isReduced.transform
  have hs2 : (SecretKey.blank rho k tr).s2 = PolyVec.zero rowCount := rfl
  have ht0 : (SecretKey.blank rho k tr).t0 = PolyVec.zero rowCount := rfl
  have hlarge : (PolyVec.zero rowCount).reaches gamma2 = false := by
    refine PolyVec.reaches_eq_false_iff.mpr fun f hf x hx => ?_
    rw [List.eq_of_mem_replicate hf] at hx
    rw [List.eq_of_mem_replicate hx]
    decide
  have hweight : Hint.none.weight ≤ omega := by decide
  -- Two of the four conditions hold without secrets.
  rw [attempt?_eq_some_iff hy rfl, hs2, ht0, PolyVec.times_zero hc, PolyVec.sub_zero hw,
    response_blank hyreduced hc, attemptHints_blank hyreduced hc]
  exact ⟨fun ⟨h1, h2, _, _, h5⟩ => ⟨h1, h2, h5⟩, fun ⟨h1, h2, h5⟩ => ⟨h1, h2, hlarge, hweight, h5⟩⟩

/-! ## Verifying without hints -/

/-- Without hints, the high parts are used as they are. -/
theorem useRow_nil (f : Poly) : useRow [] f = f.map highPart := by
  have hhint : ∀ p : Nat × Nat, useHint (List.contains [] p.2) p.1 = highPart p.1 := by
    intro p
    rw [useHint, List.contains_nil, if_neg Bool.false_ne_true]
  rw [useRow, List.map_congr_left fun p _ => hhint p]
  calc f.zipIdx.map (fun p => highPart p.1) = (f.zipIdx.map Prod.fst).map highPart := by
        rw [List.map_map]
        rfl
    _ = f.map highPart := by rw [List.zipIdx_map_fst]

/-- Without hints a verifier recovers the high parts of what it computes. -/
theorem recover_none {t1 : PolyVec} (hv : (checkedVector rho t1 y c).length = rowCount) :
    recover rho t1 c y Hint.none = (checkedVector rho t1 y c).map fun f => f.map highPart := by
  rw [recover_eq, Hint.none, ← hv]
  generalize checkedVector rho t1 y c = v
  induction v with
  | nil => rfl
  | cons f v ih =>
    rw [List.length_cons, List.replicate_succ, List.zipWith_cons_cons, ih, useRow_nil,
      List.map_cons]

end Blank

end PeerIdentity.MlDsa
