import PeerIdentity.Proofs.MlDsa.Hints
import PeerIdentity.Proofs.MlDsa.Sampling
import PeerIdentity.Proofs.Shake

/-!
# Signatures verify

A secret key belongs to a public vector if they satisfy the equation of key generation and the error
vector is small. Then what a successful attempt at a signature returns is accepted: the response
keeps its bound, and response and hints lead back to the high parts of the commitment.

* `SecretKey.BelongsTo`: a secret key that belongs to a public vector;
* `recover_hints`: a verifier recovers the high parts of the commitment;
* `attempt?_eq_some_iff`: when an attempt succeeds, and what it returns;
* `verify_packSignature`: what a verifier compares.
-/

namespace PeerIdentity.MlDsa

/-! ## Vectors of a key -/

/-- The matrix of a seed has its size, and reduced values. -/
theorem isReduced_expandMatrix (rho : Bytes) :
    (expandMatrix rho).length = rowCount ∧
      ∀ row ∈ expandMatrix rho, PolyVec.IsReduced columnCount row := by
  constructor
  · simp [expandMatrix]
  · intro row hrow
    obtain ⟨r, -, rfl⟩ := List.mem_map.mp hrow
    refine ⟨by simp, fun f hf => ?_⟩
    obtain ⟨s, -, rfl⟩ := List.mem_map.mp hf
    exact isReduced_uniform _

/-- The mask of a seed has its size, and reduced coefficients. -/
theorem isReduced_expandMask (seed : Bytes) (first : Nat) :
    (expandMask seed first).IsReduced columnCount := by
  refine ⟨by simp [expandMask], fun f hf => ?_⟩
  obtain ⟨i, -, rfl⟩ := List.mem_map.mp hf
  exact isReduced_mask _

/-- The product of a matrix and a vector has the size of a commitment. -/
theorem isReduced_apply {matrix : List PolyVec} {v : PolyVec}
    (hmatrix : matrix.length = rowCount ∧ ∀ row ∈ matrix, PolyVec.IsReduced columnCount row)
    (hv : v.IsReduced columnCount) : (PolyVec.apply matrix v).IsReduced rowCount := by
  refine ⟨by simpa [PolyVec.apply] using hmatrix.1, fun f hf => ?_⟩
  obtain ⟨row, hrow, rfl⟩ := List.mem_map.mp hf
  exact PolyVec.isReduced_inner (hmatrix.2 row hrow).isReduced hv.isReduced

/-- The fields of a secret key are vectors of their lengths. -/
structure SecretKey.IsReduced (sk : SecretKey) : Prop where
  s1 : sk.s1.IsReduced columnCount
  s2 : sk.s2.IsReduced rowCount
  t0 : sk.t0.IsReduced rowCount

/-- A secret key belongs to the high parts of a public vector: they satisfy the equation
`A s₁ + s₂ = 2 ^ 13 t₁ + t₀` of key generation, and the coefficients of `s₂` are from -2 to 2. -/
structure SecretKey.BelongsTo (sk : SecretKey) (t1 : PolyVec) : Prop where
  small : ∀ f ∈ sk.s2, ∀ x ∈ f, norm x ≤ 2
  equation : (PolyVec.apply (expandMatrix sk.rho) sk.s1.transform).untransform.add sk.s2 =
    PolyVec.add (t1.map (Poly.scale 8192)) sk.t0

/-! ## What a verifier recovers -/

section Recover

variable {sk : SecretKey} {t1 y : PolyVec} {c : Poly}

/-- The response of a signer to a challenge, given by its values. -/
def response (sk : SecretKey) (y : PolyVec) (c : Poly) : PolyVec :=
  y.add (PolyVec.times c sk.s1.transform)

/-- The commitment of a signer. -/
def commitment (sk : SecretKey) (y : PolyVec) : PolyVec :=
  (PolyVec.apply (expandMatrix sk.rho) y.transform).untransform

theorem isReduced_response (hsk : sk.IsReduced) (hc : c.IsReduced 256)
    (hy : y.IsReduced columnCount) : (response sk y c).IsReduced columnCount :=
  hy.add (PolyVec.IsReduced.times hc hsk.s1.transform)

theorem isReduced_commitment (hy : y.IsReduced columnCount) :
    (commitment sk y).IsReduced rowCount :=
  (isReduced_apply (isReduced_expandMatrix _) hy.transform).untransform

theorem PolyVec.isReduced_scale (ht1 : t1.IsReduced rowCount) (d : Nat) :
    PolyVec.IsReduced rowCount (t1.map (Poly.scale d)) :=
  PolyVec.isReduced_map ht1 fun _ hf => hf.scale d

/-- The vector that a verifier computes from a response: its product with the matrix, less that of
the challenge and the public vector. -/
def checkedVector (rho : Bytes) (t1 z : PolyVec) (c : Poly) : PolyVec :=
  PolyVec.untransform (PolyVec.sub (PolyVec.apply (expandMatrix rho) z.transform)
    ((t1.map fun f => (Poly.scale 8192 f).transform).map c.pointwise))

/-- A verifier uses the hints on the vector that it computes. -/
theorem recover_eq (rho : Bytes) (t1 : PolyVec) (c : Poly) (z : PolyVec) (h : Hint) :
    recover rho t1 c z h =
      List.zipWith (fun f row => useRow row f) (checkedVector rho t1 z c) h :=
  rfl

/-- The vector of the verifier has the size of a commitment. -/
theorem isReduced_checkedVector (rho : Bytes) {z : PolyVec} (hz : z.IsReduced columnCount)
    (ht1 : t1.IsReduced rowCount) (hc : c.IsReduced 256) :
    (checkedVector rho t1 z c).IsReduced rowCount := by
  have hproducts : PolyVec.IsReduced rowCount
      ((t1.map fun f => (Poly.scale 8192 f).transform).map c.pointwise) := by
    rw [List.map_map]
    exact PolyVec.isReduced_map ht1 fun _ hf => hc.pointwise (hf.scale 8192).transform
  exact ((isReduced_apply (isReduced_expandMatrix _) hz.transform).sub hproducts).untransform

/-- The vector that a verifier computes differs from the commitment by the products of the challenge
with the error vector and with the low parts of the public vector. -/
theorem verifier_equation (hsk : sk.IsReduced) (ht1 : t1.IsReduced rowCount)
    (hkey : sk.BelongsTo t1) (hc : c.IsReduced 256) (hy : y.IsReduced columnCount) :
    checkedVector sk.rho t1 (response sk y c) c =
      ((commitment sk y).sub (PolyVec.times c sk.s2.transform)).add
        (PolyVec.times c sk.t0.transform) := by
  obtain ⟨hrows, hmatrix⟩ := isReduced_expandMatrix sk.rho
  have hz := (isReduced_response hsk hc hy).transform
  have hs := hsk.s1.transform
  refine List.ext_getElem ?_ fun i hi _ => ?_
  · simp [checkedVector, PolyVec.untransform, PolyVec.sub, PolyVec.apply, PolyVec.add,
      PolyVec.times, PolyVec.transform, commitment, hrows, ht1.length_eq, hsk.s2.length_eq,
      hsk.t0.length_eq]
  have hlt : i < rowCount := by
    simpa [checkedVector, PolyVec.untransform, PolyVec.sub, PolyVec.apply, hrows, ht1.length_eq]
      using hi
  have hi1 : i < t1.length := ht1.length_eq ▸ hlt
  have hi2 : i < sk.s2.length := hsk.s2.length_eq ▸ hlt
  have hi0 : i < sk.t0.length := hsk.t0.length_eq ▸ hlt
  have hiA : i < (expandMatrix sk.rho).length := hrows ▸ hlt
  have hrow := (hmatrix _ (List.getElem_mem hiA)).isReduced
  -- Both sides of the equation of the key, and of the goal, in row `i`.
  have hequation := List.getElem_of_eq hkey.equation (i := i)
    (by simp [PolyVec.add, PolyVec.untransform, PolyVec.apply, hiA, hi2])
  simp only [PolyVec.add, PolyVec.untransform, PolyVec.apply, List.getElem_zipWith,
    List.getElem_map] at hequation
  simp only [checkedVector, commitment, PolyVec.sub, PolyVec.add, PolyVec.times,
    PolyVec.untransform, PolyVec.apply, List.getElem_zipWith, List.getElem_map,
    PolyVec.getElem_transform hi2, PolyVec.getElem_transform hi0]
  exact verifier_row hc (PolyVec.isReduced_inner hrow hz.isReduced)
    (PolyVec.isReduced_inner hrow hy.transform.isReduced)
    (PolyVec.isReduced_inner hrow hs.isReduced)
    (hsk.s2.isReduced _ (List.getElem_mem hi2)) (hsk.t0.isReduced _ (List.getElem_mem hi0))
    ((ht1.isReduced _ (List.getElem_mem hi1)).scale 8192) hequation
    (PolyVec.coeff_inner_response hc hrow hy hsk.s1)

/-- The product of a challenge and a small polynomial has coefficients up to `β`. -/
theorem norm_times_small_le {d f : Poly} (hd : d.IsChallenge) (hf : f.IsReduced 256)
    (hsmall : ∀ x ∈ f, norm x ≤ 2) :
    ∀ x ∈ (d.transform.pointwise f.transform).untransform, norm x ≤ beta := by
  have hproduct := (hd.isReduced.transform.pointwise hf.transform).untransform
  have hsize : ∀ i < 256, size (f.coeff i) ≤ 2 := by
    intro i hi
    have hi' : i < f.length := hf.length_eq ▸ hi
    rw [← hf.norm_getElem hi']
    exact hsmall _ (List.getElem_mem hi')
  intro x hx
  obtain ⟨i, hi, rfl⟩ := List.getElem_of_mem hx
  have hlt : i < 256 := hproduct.length_eq ▸ hi
  rw [hproduct.norm_getElem hi, Poly.coeff_untransform_pointwise hd.isReduced hf hlt]
  calc size (Poly.product d f.coeff i) ≤ d.weight * 2 :=
        Poly.size_product_le hd.isSign hsize i hlt
    _ ≤ 60 * 2 := Nat.mul_le_mul_right 2 hd.weight_le
    _ = beta := rfl

/-- A verifier recovers the high parts of the commitment. -/
theorem recover_hints {d : Poly} (hsk : sk.IsReduced) (ht1 : t1.IsReduced rowCount)
    (hkey : sk.BelongsTo t1) (hd : d.IsChallenge) (hy : y.IsReduced columnCount)
    (hlow : PolyVec.reaches (gamma2 - beta) (((commitment sk y).sub
      (PolyVec.times d.transform sk.s2.transform)).map fun f => f.map lowPart) = false)
    (hlarge : (PolyVec.times d.transform sk.t0.transform).reaches gamma2 = false) :
    recover sk.rho t1 d.transform (response sk y d.transform)
        (hints (commitment sk y) (PolyVec.times d.transform sk.s2.transform)
          (PolyVec.times d.transform sk.t0.transform)) =
      (commitment sk y).map fun f => f.map highPart := by
  have hc := hd.isReduced.transform
  have hw : (commitment sk y).IsReduced rowCount := isReduced_commitment hy
  have he := PolyVec.IsReduced.times hc hsk.s2.transform
  have ht := PolyVec.IsReduced.times hc hsk.t0.transform
  rw [PolyVec.reaches_eq_false_iff] at hlow hlarge
  have hsmall : ∀ f ∈ PolyVec.times d.transform sk.s2.transform, ∀ x ∈ f, norm x ≤ beta := by
    intro f hf
    obtain ⟨g, hg, rfl⟩ := List.mem_map.mp hf
    obtain ⟨s, hs, rfl⟩ := List.mem_map.mp hg
    exact norm_times_small_le hd (hsk.s2.isReduced s hs) (hkey.small s hs)
  -- The verifier computes the commitment but for two small terms, for which the hints make up.
  rw [recover_eq, verifier_equation hsk ht1 hkey hc hy]
  refine useRow_hints hw he ht hsmall (fun f hf x hx => ?_) hlarge
  exact hlow _ (List.mem_map_of_mem hf) _ (List.mem_map_of_mem hx)

end Recover

/-! ## Attempts -/

/-- A hash, a response and hints that a verifier reads back from their signature. -/
structure IsReadable (hash : Bytes) (z : PolyVec) (h : Hint) : Prop where
  length_hash : hash.length = 64
  isReduced : z.IsReduced columnCount
  reaches : z.reaches (gamma1 - beta) = false
  length_hints : h.length = rowCount
  isValid : h.IsValid

/-- The hash of the commitment of an attempt. -/
def attemptHash (sk : SecretKey) (mu : Bytes) (y : PolyVec) : Bytes :=
  commitmentHash mu ((commitment sk y).map fun f => f.map highPart)

/-- The hints of an attempt with challenge values `c`. -/
def attemptHints (sk : SecretKey) (y : PolyVec) (c : Poly) : Hint :=
  hints (commitment sk y) (PolyVec.times c sk.s2.transform) (PolyVec.times c sk.t0.transform)

/-- An attempt succeeds under four conditions. -/
theorem attempt?_eq_some_iff {sk : SecretKey} {mu seed signature : Bytes} {first : Nat}
    {y : PolyVec} {c : Poly} (hy : y = expandMask seed first)
    (hc : c = (challenge (attemptHash sk mu y)).transform) :
    sk.signer.attempt? mu seed first = some signature ↔
      (response sk y c).reaches (gamma1 - beta) = false ∧
      PolyVec.reaches (gamma2 - beta) (((commitment sk y).sub
        (PolyVec.times c sk.s2.transform)).map fun f => f.map lowPart) = false ∧
      (PolyVec.times c sk.t0.transform).reaches gamma2 = false ∧
      (attemptHints sk y c).weight ≤ omega ∧
      signature = packSignature (attemptHash sk mu y) (response sk y c) (attemptHints sk y c) := by
  have hform : sk.signer.attempt? mu seed first =
      if (response sk y c).reaches (gamma1 - beta) then none
      else if PolyVec.reaches (gamma2 - beta) (((commitment sk y).sub
          (PolyVec.times c sk.s2.transform)).map fun f => f.map lowPart) then none
      else if (PolyVec.times c sk.t0.transform).reaches gamma2 then none
      else if omega < (attemptHints sk y c).weight then none
      else some (packSignature (attemptHash sk mu y) (response sk y c) (attemptHints sk y c)) := by
    rw [hc, hy]
    simp only [Signer.attempt?, SecretKey.signer, attemptHints, attemptHash, hints, response,
      commitment]
    rfl
  -- Each of the four branches that fail is excluded by what is returned.
  simp only [hform, Option.ite_none_left_eq_some, Option.some.injEq, Bool.not_eq_true, Nat.not_lt,
    eq_comm (a := signature)]

/-- What a successful attempt at a signature returns leads back to its hash. -/
theorem attempt?_recover {sk : SecretKey} {t1 : PolyVec} {mu seed signature : Bytes} {first : Nat}
    (hsk : sk.IsReduced) (ht1 : t1.IsReduced rowCount) (hkey : sk.BelongsTo t1)
    (h : sk.signer.attempt? mu seed first = some signature) :
    ∃ hash z hints, signature = packSignature hash z hints ∧ IsReadable hash z hints ∧
      hash = commitmentHash mu (recover sk.rho t1 (challenge hash).transform z hints) := by
  have hy := isReduced_expandMask seed first
  obtain ⟨hz, hlow, hlarge, hweight, hsignature⟩ := (attempt?_eq_some_iff rfl rfl).mp h
  have hd := isChallenge_challenge (attemptHash sk mu (expandMask seed first))
  have hc := hd.isReduced.transform
  have he := PolyVec.IsReduced.times hc hsk.s2.transform
  have ht := PolyVec.IsReduced.times hc hsk.t0.transform
  refine ⟨_, _, _, hsignature, ⟨length_shake256 _ _, isReduced_response hsk hc hy, hz,
    length_hints (isReduced_commitment hy) he ht, isValid_hints ht hweight⟩, ?_⟩
  rw [attemptHints, recover_hints hsk ht1 hkey hd hy hlow hlarge]
  rfl

/-! ## Acceptance -/

/-- The coefficients of an accepted response are packed in 20 bits. -/
theorem hasWidth_reflectFrom {f : Poly} (hf : f.IsReduced 256)
    (h : ∀ x ∈ f, norm x < gamma1 - beta) : (reflectFrom gamma1 f).HasWidth 20 := by
  refine Poly.hasWidth_map hf.length_eq fun y hy => ?_
  have hlt := hf.lt y hy
  have hnorm := h y hy
  -- Coefficients near zero, from above and from below `q`, are taken from `γ₁` without a wrap.
  have hgamma : gamma1 = 524288 := by decide
  rw [norm, hgamma, beta] at hnorm
  rw [subMod, Nat.mod_eq_of_lt hlt, hgamma]
  rw [q] at *
  omega

/-- A verifier reads back the hash, the response and the hints of a signature, and compares the
hash. -/
theorem verify_packSignature {publicKey message hash : Bytes} {z : PolyVec} {h : Hint}
    (hreadable : IsReadable hash z h) :
    verify publicKey message (packSignature hash z h) =
      (hash == commitmentHash (messageHash (shake256 publicKey 64) message)
        (recover (publicKey.take 32) (unpackVec 10 rowCount (publicKey.drop 32))
          (challenge hash).transform z h)) := by
  obtain ⟨hhash, hz, hreaches, hh, hvalid⟩ := hreadable
  have hnorm := PolyVec.reaches_eq_false_iff.mp hreaches
  have hresponse := unpackVec_reflectFrom hz
    (fun f hf => hasWidth_reflectFrom (hz.isReduced f hf) (hnorm f hf)) (packHint h)
  -- The three parts of a signature.
  have hfront : (hash ++ z.flatMap fun f => pack 20 (reflectFrom gamma1 f)).length = 4544 := by
    rw [List.length_append, length_flatMap_reflectFrom hz, hhash]
    rfl
  have htake : (packSignature hash z h).take 64 = hash := by
    rw [packSignature, List.append_assoc, List.take_left' hhash]
  have hmiddle : (packSignature hash z h).drop 64 =
      z.flatMap (fun f => pack 20 (reflectFrom gamma1 f)) ++ packHint h := by
    rw [packSignature, List.append_assoc, List.drop_left' hhash]
  have hback : (packSignature hash z h).drop 4544 = packHint h := by
    rw [packSignature, List.drop_left' hfront]
  have htotal : (packSignature hash z h).length = signatureLength := by
    rw [packSignature, List.length_append, hfront, length_packHint hvalid.weight_le, hh]
    rfl
  rw [verify]
  simp only [htake, hmiddle, hback, htotal, hresponse, unpackHint?_packHint hvalid, hreaches]
  rw [if_neg (by simp)]

end PeerIdentity.MlDsa
