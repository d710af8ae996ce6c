import PeerIdentity.Proofs.Dilithium
import PeerIdentity.Proofs.MlDsa.FirstAttempt

/-!
# Usable keypairs

Signatures of a consistent ML-DSA keypair verify under its public half. Decoding does not ask for
consistency, and the keypairs without secrets show what follows: they are read for every public
vector, sign in the same way for all of them, and a public vector that is not zero rejects what they
sign.

* `Keypair.Blank.keypair`: the keypair of its parts;
* `Keypair.Blank.exists_sign?`, `Keypair.Blank.exists_rejected`: what the evaluation of an attempt
  tells about them;
* `Keypair.usable_of_isConsistent`: consistent keypairs are usable, and generated ones are
  consistent;
* `Keypair.not_usable`: a keypair that is read and whose signature does not verify.
-/

namespace PeerIdentity.Dilithium.Keypair

open MlDsa

/-! ## Keypairs without secrets -/

namespace Blank

/-- The parts of the keypair. -/
def parts (b : Blank) : Parts where
  sk := SecretKey.blank b.rho b.k b.tr
  t1 := b.t1
  isPackable := isPackable_blank b.length_rho b.length_k (length_shake256 _ _)
  length_t1 := b.length_t1
  hasWidth_t1 := b.hasWidth_t1
  tr_eq := rfl

/-- The keypair. -/
def keypair (b : Blank) : Keypair :=
  b.parts.keypair

/-- Without secrets only the public vector zero is consistent. -/
theorem isConsistent_iff (b : Blank) : b.keypair.IsConsistent ↔ b.t1 = PolyVec.zero rowCount :=
  b.parts.isConsistent_iff.trans (belongsTo_blank_iff b.length_t1 b.hasWidth_t1)

/-! ## Signing -/

/-- The signature of a first attempt that succeeds. -/
theorem sign?_eq (b : Blank) (randomness message : Bytes) {signature : Bytes}
    (h : b.parts.sk.signer.attempt? (b.mu message) (b.seed randomness message) 0 = some signature) :
    b.keypair.sign? randomness message = some signature := by
  have hunpack : SecretKey.unpack b.keypair.secret = b.parts.sk := b.parts.unpack_secret
  have hlimit : attemptLimit = 9361 + 1 := rfl
  -- The limit is unfolded by one attempt only.
  rw [sign?, MlDsa.sign?, hunpack, hlimit]
  show b.parts.sk.signer.signFrom? (b.mu message) (b.seed randomness message) (9361 + 1) 0 = _
  rw [Signer.signFrom?, h]

/-- A keypair whose first attempt is evaluated to succeed signs. -/
theorem exists_sign? (b : Blank) {randomness message : Bytes} (hrandomness : randomness.length = 32)
    (h : b.signs randomness message = true) :
    ∃ signature, b.keypair.sign? randomness message = some signature := by
  have hseed : (b.seed randomness message).length = 64 := length_shake256 _ _
  rw [signs, b.hashes_eq hrandomness] at h
  have hattempt := (signs_spec b.k b.tr (b.mu message) b.length_rho hseed h).1
  exact ⟨_, b.sign?_eq randomness message hattempt⟩

/-- A public half that is evaluated to reject the first attempt rejects the signature. -/
theorem exists_rejected (b : Blank) {randomness message : Bytes}
    (hrandomness : randomness.length = 32) (h : b.rejects randomness message = true) :
    ∃ signature, b.keypair.sign? randomness message = some signature ∧
      b.keypair.publicKey.verify message signature = false := by
  have hmu : (b.mu message).length = 64 := length_shake256 _ _
  have hseed : (b.seed randomness message).length = 64 := length_shake256 _ _
  rw [rejects, b.hashes_eq hrandomness] at h
  obtain ⟨hattempt, hreadable⟩ := signs_spec b.k b.tr (b.mu message) b.length_rho hseed
    (signs_of_rejects h)
  have hne := rejects_spec b.k b.tr b.length_rho hmu hseed b.isReduced_t1 h
  refine ⟨_, b.sign?_eq randomness message hattempt, ?_⟩
  -- The public half reads its own vector, which the signature knows nothing of.
  have hrho : b.keypair.publicKey.bytes.take 32 = b.rho := List.take_left' b.length_rho
  have ht1 : unpackVec 10 rowCount (b.keypair.publicKey.bytes.drop 32) = b.t1 :=
    b.parts.unpackVec_publicKey
  rw [PublicKey.verify, verify_packSignature hreadable, hrho, ht1]
  exact beq_eq_false_iff_ne.mpr hne

end Blank

/-! ## Usable keypairs -/

/-- Signatures of a keypair that is read verify if the keypair is consistent, and every generated
keypair is. -/
theorem usable_of_isConsistent :
    (∀ (b : Bytes) (k : Keypair), decode b = .ok k → k.IsConsistent →
      ∀ randomness message signature, k.sign? randomness message = some signature →
        k.publicKey.verify message signature = true) ∧
      ∀ seed, ∃ k, generate? seed = some k ∧ k.IsConsistent := by
  refine ⟨fun b k _ hconsistent randomness message signature hsign => ?_, exists_generate?⟩
  exact verify_of_sign? hconsistent hsign

/-- A keypair is generated, decoded, found consistent and used to sign and to verify. -/
theorem usable_of_isConsistent_zero :
    ∃ b k signature, decode b = .ok k ∧ k.IsConsistent ∧
      k.sign? (List.replicate 32 2) [] = some signature ∧
      k.publicKey.verify [] signature = true := by
  let b := Blank.ofConstant 0 (by decide)
  have hdecode : decode b.keypair.encode = .ok b.keypair := decode_eq_ok_iff.mpr rfl
  have hconsistent : b.keypair.IsConsistent := b.isConsistent_iff.mpr rfl
  obtain ⟨signature, hsign⟩ := b.exists_sign? rfl Blank.evaluation.1
  exact ⟨b.keypair.encode, b.keypair, signature, hdecode, hconsistent, hsign,
    usable_of_isConsistent.1 _ _ hdecode hconsistent _ _ _ hsign⟩

/-- A keypair without secrets is read whatever its public vector is, and its signature does not
verify. -/
theorem not_usable :
    ∃ k signature, decode (Blank.ofConstant 64 (by decide)).keypair.encode = .ok k ∧
      k.sign? (List.replicate 32 2) [] = some signature ∧
      k.publicKey.verify [] signature = false := by
  let b := Blank.ofConstant 64 (by decide)
  obtain ⟨signature, hsign, hverify⟩ := b.exists_rejected rfl Blank.evaluation.2
  exact ⟨b.keypair, signature, decode_eq_ok_iff.mpr rfl, hsign, hverify⟩

end PeerIdentity.Dilithium.Keypair
