import PeerIdentity.Key.Dilithium
import PeerIdentity.Proofs.Keypair
import PeerIdentity.Proofs.MlDsa.Generation

/-!
# Signatures of ML-DSA keypairs

Reading a keypair compares the seeds of its halves and the hash of the public half, but not the
vectors. If these belong together as those of generated keypairs do, then the keypair's signatures
verify under its public half.

* `Keypair.IsConsistent`: the vectors of the two halves belong together;
* `Keypair.exists_generate?`: every seed has a keypair, and it is consistent;
* `Keypair.verify_of_sign?`: signatures of consistent keypairs verify.
-/

namespace PeerIdentity.Dilithium

open MlDsa

namespace Keypair

/-- The vectors of the secret half belong to the vector of the public half. -/
def IsConsistent (k : Keypair) : Prop :=
  (SecretKey.unpack k.secret).BelongsTo (unpackVec 10 rowCount (k.publicKey.bytes.drop 32))

/-! ## Vectors of a keypair -/

/-- Vectors that are unpacked with fields of at most 22 bits have reduced coefficients. -/
theorem isReduced_unpackVec {width : Nat} (hwidth : width ≤ 22) (count : Nat) (b : Bytes) :
    (unpackVec width count b).IsReduced count := by
  refine ⟨by rw [unpackVec, List.length_map, length_blocks], fun f hf => ?_⟩
  obtain ⟨x, -, rfl⟩ := List.mem_map.mp hf
  exact (hasWidth_unpack width x).isReduced hwidth

/-- Reflection keeps the coefficients of a vector reduced. -/
theorem isReduced_map_reflectFrom {count : Nat} {v : PolyVec} (hv : v.IsReduced count) (top : Nat) :
    PolyVec.IsReduced count (v.map (reflectFrom top)) :=
  PolyVec.isReduced_map hv fun _ hf => isReduced_reflectFrom top hf.length_eq

/-- Whatever the bytes of a secret key are, its vectors are reduced. -/
theorem isReduced_unpack (b : Bytes) : (SecretKey.unpack b).IsReduced where
  s1 := isReduced_map_reflectFrom (isReduced_unpackVec (by decide) _ _) _
  s2 := isReduced_map_reflectFrom (isReduced_unpackVec (by decide) _ _) _
  t0 := isReduced_map_reflectFrom (isReduced_unpackVec (by decide) _ _) _

/-! ## Keypairs of secret keys -/

/-- A secret key that holds the hash of a public key with its seed. -/
structure Parts where
  /-- The fields of the secret key. -/
  sk : SecretKey
  /-- The vector of the public key. -/
  t1 : PolyVec
  isPackable : sk.IsPackable
  length_t1 : t1.length = rowCount
  hasWidth_t1 : ∀ f ∈ t1, f.HasWidth 10
  tr_eq : sk.tr = shake256 (packPublic sk.rho t1) 64

namespace Parts

/-- The keypair that the parts are packed in. -/
def keypair (parts : Parts) : Keypair where
  secret := parts.sk.pack
  publicKey := ⟨packPublic parts.sk.rho parts.t1,
    length_packPublic parts.isPackable.length_rho parts.length_t1⟩
  isSecretOf := by
    have hunpack := SecretKey.unpack_pack parts.isPackable
    refine ⟨SecretKey.length_pack parts.isPackable, ?_, ?_⟩
    · show parts.sk.pack.take 32 = (packPublic parts.sk.rho parts.t1).take 32
      rw [packPublic, List.take_left' parts.isPackable.length_rho]
      exact congrArg SecretKey.rho hunpack
    · exact (congrArg SecretKey.tr hunpack).trans parts.tr_eq

/-- The parts of a keypair are unpacked from its secret. -/
theorem unpack_secret (parts : Parts) : SecretKey.unpack parts.keypair.secret = parts.sk :=
  SecretKey.unpack_pack parts.isPackable

/-- The high halves are unpacked from the public key. -/
theorem unpackVec_publicKey (parts : Parts) :
    unpackVec 10 rowCount (parts.keypair.publicKey.bytes.drop 32) = parts.t1 :=
  unpackVec_packPublic parts.isPackable.length_rho parts.length_t1 parts.hasWidth_t1

/-- A keypair is consistent exactly if its secret parts belong to its public part. -/
theorem isConsistent_iff (parts : Parts) :
    parts.keypair.IsConsistent ↔ parts.sk.BelongsTo parts.t1 := by
  rw [IsConsistent, unpack_secret, unpackVec_publicKey]

end Parts

/-! ## Generated keypairs -/

/-- The parts of the keypair of an expanded seed. -/
def generatedParts (expanded : Bytes) (h : expanded.length = 128) : Parts where
  sk := generatedKey expanded
  t1 := highParts (publicVector expanded)
  isPackable := isPackable_generatedKey h
  length_t1 := (hasWidth_highParts isReduced_publicVector).1
  hasWidth_t1 := (hasWidth_highParts isReduced_publicVector).2
  tr_eq := rfl

/-- Every seed has a keypair, whose vectors belong together. -/
theorem exists_generate? (seed : Bytes) : ∃ k, generate? seed = some k ∧ k.IsConsistent := by
  have hlength : (expandSeed seed).length = 128 := length_shake256 _ _
  let parts := generatedParts (expandSeed seed) hlength
  refine ⟨parts.keypair, ?_, parts.isConsistent_iff.mpr (belongsTo_generatedKey _)⟩
  rw [generate?, generate_eq]
  show (decode parts.keypair.encode).toOption = some parts.keypair
  rw [decode_eq_ok_iff.mpr rfl]
  rfl

/-! ## Signatures -/

/-- A signature is what one of the attempts returns. -/
theorem exists_attempt? {signer : Signer} {mu seed signature : Bytes} {attempts first : Nat}
    (h : signer.signFrom? mu seed attempts first = some signature) :
    ∃ first, signer.attempt? mu seed first = some signature := by
  induction attempts generalizing first with
  | zero => cases h
  | succ attempts ih =>
    rw [Signer.signFrom?] at h
    split at h
    next hattempt =>
      cases h
      exact ⟨first, hattempt⟩
    next => exact ih h

/-- The signatures of a consistent keypair verify. -/
theorem verify_of_sign? {k : Keypair} (hkey : k.IsConsistent) {randomness message signature : Bytes}
    (h : k.sign? randomness message = some signature) :
    k.publicKey.verify message signature = true := by
  obtain ⟨first, hattempt⟩ := exists_attempt? h
  obtain ⟨hash, z, hints, rfl, hreadable, hhash⟩ := attempt?_recover (isReduced_unpack k.secret)
    (isReduced_unpackVec (by decide) _ _) hkey hattempt
  -- The seed and the hash in the secret half are those of the public half.
  have hrho : (SecretKey.unpack k.secret).rho = k.publicKey.bytes.take 32 := k.isSecretOf.sameSeed
  have htr : (SecretKey.unpack k.secret).tr = shake256 k.publicKey.bytes 64 :=
    k.isSecretOf.holdsHash
  rw [hrho, htr] at hhash
  rw [PublicKey.verify, verify_packSignature hreadable]
  exact beq_iff_eq.mpr hhash

end Keypair

end PeerIdentity.Dilithium
