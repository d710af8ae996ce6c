import PeerIdentity.Proofs.MlDsa.Signing

/-!
# Generated keys

What key generation writes is read back, and the secret and the public key that it returns belong
together.

* `SecretKey.IsPackable`, `SecretKey.unpack_pack`: secret keys are read back;
* `unpackVec_packPublic`: so are public keys;
* `generatedKey`: the secret key of a seed, and `belongsTo_generatedKey`: it belongs to the public
  vector.
-/

namespace PeerIdentity.MlDsa

/-! ## Packed keys -/

/-- The fields of a secret key have their lengths, and their coefficients fit into their bits. -/
structure SecretKey.IsPackable (sk : SecretKey) : Prop where
  isReduced : sk.IsReduced
  length_rho : sk.rho.length = 32
  length_k : sk.k.length = 32
  length_tr : sk.tr.length = 64
  s1 : ∀ f ∈ sk.s1, (reflectFrom 2 f).HasWidth 3
  s2 : ∀ f ∈ sk.s2, (reflectFrom 2 f).HasWidth 3
  t0 : ∀ f ∈ sk.t0, (reflectFrom 4096 f).HasWidth 13

namespace SecretKey

variable {sk : SecretKey}

/-- A packed secret key has the length that decoding asks for. -/
theorem length_pack (h : sk.IsPackable) : sk.pack.length = secretKeyLength := by
  obtain ⟨⟨hs1, hs2, ht0⟩, hrho, hk, htr, -, -, -⟩ := h
  simp only [pack, List.length_append, hrho, hk, htr, length_flatMap_reflectFrom hs1,
    length_flatMap_reflectFrom hs2, length_flatMap_reflectFrom ht0]
  rfl

/-- A secret key is read back. -/
theorem unpack_pack (h : sk.IsPackable) : unpack sk.pack = sk := by
  obtain ⟨⟨hs1, hs2, ht0⟩, hrho, hk, htr, h1, h2, h0⟩ := h
  -- What follows each field.
  set b1 := sk.s1.flatMap fun f => MlDsa.pack 3 (reflectFrom 2 f) with hb1
  set b2 := sk.s2.flatMap fun f => MlDsa.pack 3 (reflectFrom 2 f) with hb2
  set b0 := sk.t0.flatMap fun f => MlDsa.pack 13 (reflectFrom 4096 f) with hb0
  have hlength1 : b1.length = 672 := length_flatMap_reflectFrom hs1
  have hlength2 : b2.length = 768 := length_flatMap_reflectFrom hs2
  have hpack : sk.pack = sk.rho ++ (sk.k ++ (sk.tr ++ (b1 ++ (b2 ++ b0)))) := by
    simp only [pack, List.append_assoc, hb1, hb2, hb0]
  have hdrop32 : sk.pack.drop 32 = sk.k ++ (sk.tr ++ (b1 ++ (b2 ++ b0))) := by
    rw [hpack, List.drop_left' hrho]
  have hdrop64 : sk.pack.drop 64 = sk.tr ++ (b1 ++ (b2 ++ b0)) := by
    rw [← List.drop_drop (i := 32) (j := 32), hdrop32, List.drop_left' hk]
  have hdrop128 : sk.pack.drop 128 = b1 ++ (b2 ++ b0) := by
    rw [← List.drop_drop (i := 64) (j := 64), hdrop64, List.drop_left' htr]
  have hdrop800 : sk.pack.drop 800 = b2 ++ b0 := by
    rw [← List.drop_drop (i := 672) (j := 128), hdrop128, List.drop_left' hlength1]
  have hdrop1568 : sk.pack.drop 1568 = b0 := by
    rw [← List.drop_drop (i := 768) (j := 800), hdrop800, List.drop_left' hlength2]
  -- Nothing follows the last vector.
  have hread0 := unpackVec_reflectFrom ht0 h0 []
  rw [List.append_nil] at hread0
  rw [unpack, hdrop32, hdrop64, hdrop128, hdrop800, hdrop1568, unpackVec_reflectFrom hs1 h1,
    unpackVec_reflectFrom hs2 h2, hread0, hpack, List.take_left' hrho, List.take_left' hk,
    List.take_left' htr]

end SecretKey

/-- A packed public key has the length that decoding asks for. -/
theorem length_packPublic {rho : Bytes} (hrho : rho.length = 32) {t1 : PolyVec}
    (ht1 : t1.length = rowCount) : (packPublic rho t1).length = publicKeyLength := by
  rw [packPublic, List.length_append, length_flatMap_pack, hrho, ht1]
  rfl

/-- The high parts of a public key are read back. -/
theorem unpackVec_packPublic {rho : Bytes} (hrho : rho.length = 32) {t1 : PolyVec}
    (hlength : t1.length = rowCount) (ht1 : ∀ f ∈ t1, f.HasWidth 10) :
    unpackVec 10 rowCount ((packPublic rho t1).drop 32) = t1 := by
  have hread := unpackVec_flatMap ht1 []
  rw [List.append_nil, hlength] at hread
  rw [packPublic, List.drop_left' hrho, hread]

/-! ## High and low parts -/

/-- The high digits of a polynomial take ten bits. -/
theorem hasWidth_map_highDigit {f : Poly} (hf : f.IsReduced 256) :
    Poly.HasWidth 10 (f.map highDigit) :=
  Poly.hasWidth_map hf.length_eq fun x hx => highDigit_lt (hf.lt x hx)

/-- The low digits of a polynomial are residues. -/
theorem isReduced_map_lowDigit {f : Poly} (hf : f.IsReduced 256) :
    Poly.IsReduced 256 (f.map lowDigit) :=
  Poly.isReduced_map hf.length_eq fun _ _ => Nat.mod_lt _ q_pos

/-- Reflected from their bound, the low digits of a polynomial take 13 bits. -/
theorem hasWidth_reflectFrom_lowDigit {f : Poly} (hf : f.IsReduced 256) :
    Poly.HasWidth 13 (reflectFrom 4096 (f.map lowDigit)) := by
  refine Poly.hasWidth_map (isReduced_map_lowDigit hf).length_eq fun x hx => ?_
  obtain ⟨y, -, rfl⟩ := List.mem_map.mp hx
  exact reflect_lowDigit_lt y

/-- A polynomial is made up of its high and its low parts. -/
theorem add_scale_highDigit {f : Poly} (hf : f.IsReduced 256) :
    Poly.add (Poly.scale 8192 (f.map highDigit)) (f.map lowDigit) = f := by
  refine List.ext_getElem (by simp [Poly.add, Poly.scale]) fun i hi hi' => ?_
  simp only [Poly.add, Poly.scale, List.getElem_zipWith, List.getElem_map]
  rw [Nat.mod_add_mod]
  exact highDigit_lowDigit (hf.lt _ (List.getElem_mem hi'))

/-- A vector is recovered from its high and low digits. -/
theorem PolyVec.add_scale_highDigit {count : Nat} {v : PolyVec} (hv : v.IsReduced count) :
    PolyVec.add ((v.map fun f => f.map highDigit).map (Poly.scale 8192))
      (v.map fun f => f.map lowDigit) = v := by
  refine List.ext_getElem (by simp [PolyVec.add]) fun i hi hi' => ?_
  simp only [PolyVec.add, List.getElem_zipWith, List.getElem_map]
  exact MlDsa.add_scale_highDigit (hv.isReduced _ (List.getElem_mem hi'))

/-! ## Generated keys -/

/-- Reflected from 2, small coefficients take three bits. -/
theorem hasWidth_reflectFrom_small {f : Poly} (hf : f.IsSmall) : (reflectFrom 2 f).HasWidth 3 := by
  refine Poly.hasWidth_map hf.isReduced.length_eq fun y hy => ?_
  have hlt := hf.isReduced.lt y hy
  have hnorm := hf.norm_le y hy
  rw [norm] at hnorm
  rw [subMod, Nat.mod_eq_of_lt hlt]
  rw [q] at *
  omega

/-- The secret vectors that a seed expands to are small. -/
theorem isSmall_expandSmall (seed : Bytes) (first count : Nat) :
    (expandSmall seed first count).length = count ∧
      ∀ f ∈ expandSmall seed first count, f.IsSmall := by
  refine ⟨by simp [expandSmall], fun f hf => ?_⟩
  obtain ⟨i, -, rfl⟩ := List.mem_map.mp hf
  exact isSmall_small _

/-- Small vectors are reduced. -/
theorem PolyVec.isReduced_of_isSmall {count : Nat} {v : PolyVec}
    (h : v.length = count ∧ ∀ f ∈ v, f.IsSmall) : v.IsReduced count :=
  ⟨h.1, fun f hf => (h.2 f hf).isReduced⟩

/-- The seed of a generated key, expanded to the seeds of its parts. -/
def expandSeed (seed : Bytes) : Bytes :=
  shake256 (seed ++ [UInt8.ofNat rowCount, UInt8.ofNat columnCount]) 128

/-- The public vector of an expanded seed, with its high and low parts. -/
def publicVector (expanded : Bytes) : PolyVec :=
  ((PolyVec.apply (expandMatrix (expanded.take 32))
    (expandSmall ((expanded.drop 32).take 64) 0 columnCount).transform).untransform).add
      (expandSmall ((expanded.drop 32).take 64) columnCount rowCount)

/-- The high parts of a public vector. -/
def highParts (t : PolyVec) : PolyVec :=
  t.map fun f => f.map highDigit

/-- The secret key of an expanded seed. -/
def generatedKey (expanded : Bytes) : SecretKey where
  rho := expanded.take 32
  k := expanded.drop 96
  tr := shake256 (packPublic (expanded.take 32) (highParts (publicVector expanded))) 64
  s1 := expandSmall ((expanded.drop 32).take 64) 0 columnCount
  s2 := expandSmall ((expanded.drop 32).take 64) columnCount rowCount
  t0 := (publicVector expanded).map fun f => f.map lowDigit

/-- Key generation in its steps: the seed is expanded, and the public vector computed from it. -/
theorem generate_eq (seed : Bytes) :
    generate seed = (packPublic (generatedKey (expandSeed seed)).rho
      (highParts (publicVector (expandSeed seed))), (generatedKey (expandSeed seed)).pack) :=
  rfl

section Generated

variable {expanded : Bytes}

/-- The public vector is reduced. -/
theorem isReduced_publicVector : (publicVector expanded).IsReduced rowCount := by
  have hs1 := PolyVec.isReduced_of_isSmall
    (isSmall_expandSmall ((expanded.drop 32).take 64) 0 columnCount)
  have hs2 := PolyVec.isReduced_of_isSmall
    (isSmall_expandSmall ((expanded.drop 32).take 64) columnCount rowCount)
  exact (isReduced_apply (isReduced_expandMatrix _) hs1.transform).untransform.add hs2

/-- A generated key is packed without loss. -/
theorem isPackable_generatedKey (h : expanded.length = 128) :
    (generatedKey expanded).IsPackable := by
  have hs1 := isSmall_expandSmall ((expanded.drop 32).take 64) 0 columnCount
  have hs2 := isSmall_expandSmall ((expanded.drop 32).take 64) columnCount rowCount
  have ht : (publicVector expanded).IsReduced rowCount := isReduced_publicVector
  refine ⟨⟨PolyVec.isReduced_of_isSmall hs1, PolyVec.isReduced_of_isSmall hs2, ?_⟩, ?_, ?_, ?_,
    fun f hf => hasWidth_reflectFrom_small (hs1.2 f hf),
    fun f hf => hasWidth_reflectFrom_small (hs2.2 f hf), fun f hf => ?_⟩
  · exact PolyVec.isReduced_map ht fun _ hf => isReduced_map_lowDigit hf
  · simp [generatedKey, h]
  · simp [generatedKey, h]
  · exact length_shake256 _ _
  · obtain ⟨g, hg, rfl⟩ := List.mem_map.mp hf
    exact hasWidth_reflectFrom_lowDigit (ht.isReduced g hg)

/-- The high parts of a public vector take ten bits. -/
theorem hasWidth_highParts {t : PolyVec} (ht : t.IsReduced rowCount) :
    (highParts t).length = rowCount ∧ ∀ f ∈ highParts t, f.HasWidth 10 := by
  refine ⟨by rw [highParts, List.length_map, ht.length_eq], fun f hf => ?_⟩
  obtain ⟨g, hg, rfl⟩ := List.mem_map.mp hf
  exact hasWidth_map_highDigit (ht.isReduced g hg)

/-- A generated key belongs to its public vector. -/
theorem belongsTo_generatedKey (expanded : Bytes) :
    (generatedKey expanded).BelongsTo (highParts (publicVector expanded)) := by
  have hs2 := isSmall_expandSmall ((expanded.drop 32).take 64) columnCount rowCount
  exact ⟨fun f hf => (hs2.2 f hf).norm_le,
    (PolyVec.add_scale_highDigit isReduced_publicVector).symm⟩

end Generated

end PeerIdentity.MlDsa
