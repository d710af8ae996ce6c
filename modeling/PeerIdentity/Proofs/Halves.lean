import PeerIdentity.Proofs.Dilithium
import PeerIdentity.Proofs.Separation

/-!
# The halves of ML-DSA keypairs

An encoded keypair is a secret and a public half. It is read if it has the right length and agrees
with itself in two places: both halves begin with the same seed, and the secret half holds the hash
of the public half. Nothing else is compared, and nothing is lost in reading. So a secret half that
is read with two public halves shows two byte strings with the same hash.

* `Keypair.isEncoding_iff`: the byte strings that are read, in terms of their windows;
* `Keypair.isEncoding_append_iff`: the same, in terms of the two halves;
* `Keypair.isEncoding_exchange_iff`: when the secret half of one keypair is read with the public
  half of another one;
* `Keypair.decode_lossless`: reading keeps every byte, and halves are exchanged for collisions only.
-/

namespace PeerIdentity.Dilithium

/-- A public key is given by its bytes. -/
theorem PublicKey.ext_bytes {k l : PublicKey} (h : k.bytes = l.bytes) : k = l := by
  obtain ⟨_, _⟩ := k
  obtain ⟨_, _⟩ := l
  obtain rfl := h
  rfl

namespace Keypair

variable {d s p q : Bytes}

/-- The byte strings that are read as keypairs. -/
def IsEncoding (d : Bytes) : Prop :=
  ∃ k, PeerIdentity.Keypair.ofRaw .dilithium d = .ok k

/-- The keypair that a byte string is read as has the byte string as its encoding. -/
theorem ofRaw_eq_ok_iff {k : PeerIdentity.Keypair} :
    PeerIdentity.Keypair.ofRaw .dilithium d = .ok k ↔
      ∃ l : Keypair, l.encode = d ∧ .dilithium l = k := by
  simp only [PeerIdentity.Keypair.ofRaw, mapError_eq_ok_iff, PeerIdentity.Keypair.readRaw,
    map_eq_ok_iff, decode_eq_ok_iff]

/-- The encoding of a keypair is read as one. -/
theorem isEncoding_encode (k : Keypair) : IsEncoding k.encode :=
  ⟨_, ofRaw_eq_ok_iff.mpr ⟨k, rfl, rfl⟩⟩

/-- What is read as a keypair is the encoding of one. -/
theorem exists_encode_of_isEncoding (h : IsEncoding d) : ∃ k : Keypair, k.encode = d := by
  obtain ⟨_, hk⟩ := h
  obtain ⟨k, hd, -⟩ := ofRaw_eq_ok_iff.mp hk
  exact ⟨k, hd⟩

/-! ## Halves -/

/-- Two halves are read if the public half has its length and the secret half is one of it. -/
theorem isEncoding_append_iff (hs : s.length = MlDsa.secretKeyLength) : IsEncoding (s ++ p) ↔
    p.length = MlDsa.publicKeyLength ∧ SameSeed s p ∧ HoldsHash s p := by
  constructor
  · intro h
    obtain ⟨k, hk⟩ := exists_encode_of_isEncoding h
    obtain ⟨rfl, rfl⟩ := List.append_inj hk (k.isSecretOf.length_secret.trans hs.symm)
    exact ⟨k.publicKey.length_bytes, k.isSecretOf.sameSeed, k.isSecretOf.holdsHash⟩
  · rintro ⟨hp, hseed, hhash⟩
    exact isEncoding_encode ⟨s, ⟨p, hp⟩, hs, hseed, hhash⟩

/-- Public halves that are read with the same secret half have the same seed and the same hash. -/
theorem same_of_isEncoding_append (hs : s.length = MlDsa.secretKeyLength)
    (hp : IsEncoding (s ++ p)) (hq : IsEncoding (s ++ q)) :
    shake256 p 64 = shake256 q 64 ∧ p.take 32 = q.take 32 := by
  obtain ⟨-, hseed, hhash⟩ := (isEncoding_append_iff hs).mp hp
  obtain ⟨-, hseed', hhash'⟩ := (isEncoding_append_iff hs).mp hq
  exact ⟨hhash.symm.trans hhash', hseed.symm.trans hseed'⟩

/-- The secret half of a keypair is read with the public half of another one exactly if the two
public halves have the same seed and the same hash. -/
theorem isEncoding_exchange_iff (k l : Keypair) :
    IsEncoding (k.secret ++ l.publicKey.bytes) ↔
      k.publicKey.bytes.take 32 = l.publicKey.bytes.take 32 ∧
      shake256 k.publicKey.bytes 64 = shake256 l.publicKey.bytes 64 := by
  rw [isEncoding_append_iff k.isSecretOf.length_secret, and_iff_right l.publicKey.length_bytes,
    SameSeed, HoldsHash, k.isSecretOf.sameSeed, k.isSecretOf.holdsHash]

/-! ## Windows -/

/-- A byte string is read if it has 7488 bytes, its first 32 bytes are the 32 bytes from 4896 on,
and the 64 bytes from 64 on are the hash of all bytes from 4896 on. -/
theorem isEncoding_iff : IsEncoding d ↔ d.length = 7488 ∧
    d.extract 0 32 = d.extract 4896 4928 ∧
    d.extract 64 128 = shake256 (d.extract 4896 7488) 64 := by
  by_cases hlen : d.length = 7488
  · have hsecret : (d.take 4896).length = MlDsa.secretKeyLength := by
      rw [List.length_take, hlen]
      rfl
    have hpublic : (d.drop 4896).length = MlDsa.publicKeyLength := by
      rw [List.length_drop, hlen]
      rfl
    -- The windows lie within one half each.
    have hseed : (d.take 4896).take 32 = d.extract 0 32 := by
      rw [List.take_take, List.extract_eq_take_drop]
      rfl
    have hhash : ((d.take 4896).drop 64).take 64 = d.extract 64 128 := by
      rw [List.drop_take, List.take_take, List.extract_eq_take_drop]
      rfl
    have hwhole : d.drop 4896 = d.extract 4896 7488 := by
      rw [List.extract_eq_take_drop, List.take_of_length_le (hpublic.le.trans (by decide))]
    have hread := isEncoding_append_iff (p := d.drop 4896) hsecret
    rw [List.take_append_drop, and_iff_right hpublic, SameSeed, HoldsHash, hseed, hhash] at hread
    rw [hread, and_iff_right hlen, ← hwhole, @List.extract_eq_take_drop _ d 4896]
  -- Nothing of another length is the written form of a keypair.
  · refine iff_of_false (fun h => hlen ?_) fun h => hlen h.1
    obtain ⟨k, rfl⟩ := exists_encode_of_isEncoding h
    exact k.length_encode

/-- What is not read is refused with an error that names the algorithm. -/
theorem refused_of_not_isEncoding (h : ¬ IsEncoding d) : ∃ detail,
    PeerIdentity.Keypair.ofRaw .dilithium d = .error (.decoding (some .dilithium) detail) :=
  KeyFault.exists_detail_of_ne_ok _ fun k hk => h ⟨k, mapError_eq_ok_iff.mpr hk⟩

/-- Reading a keypair accepts exactly consistent halves and loses nothing. A byte string is read if
its windows agree; then the keypair is written as these bytes and its public half as the last 2592
of them, and otherwise the byte string is refused with an error that names the algorithm. Public
halves that are read with the same secret half have the same hash of 64 bytes and the same first 32
bytes, so the secret half of a keypair is read with the different public half of another keypair
only where these two byte strings collide. -/
theorem decode_lossless :
    (∀ d, IsEncoding d ↔ d.length = 7488 ∧ d.extract 0 32 = d.extract 4896 4928 ∧
      d.extract 64 128 = shake256 (d.extract 4896 7488) 64) ∧
    (∀ d k, PeerIdentity.Keypair.ofRaw .dilithium d = .ok k →
      k.rawBytes = d ∧ k.publicKey.rawBytes = d.extract 4896 7488) ∧
    (∀ d, ¬ IsEncoding d → ∃ detail,
      PeerIdentity.Keypair.ofRaw .dilithium d = .error (.decoding (some .dilithium) detail)) ∧
    (∀ s p q : Bytes, s.length = 4896 → IsEncoding (s ++ p) → IsEncoding (s ++ q) →
      shake256 p 64 = shake256 q 64 ∧ p.take 32 = q.take 32) ∧
    ∀ k l : Keypair, k.publicKey ≠ l.publicKey → IsEncoding (k.secret ++ l.publicKey.bytes) →
      k.publicKey.bytes ≠ l.publicKey.bytes ∧
      shake256 k.publicKey.bytes 64 = shake256 l.publicKey.bytes 64 := by
  refine ⟨fun d => isEncoding_iff, fun d k hk => ?_, fun d => refused_of_not_isEncoding,
    fun s p q hs => same_of_isEncoding_append hs, fun k l hne h => ⟨fun hbytes => hne ?_, ?_⟩⟩
  · obtain ⟨l, rfl, rfl⟩ := ofRaw_eq_ok_iff.mp hk
    have hdrop : l.encode.drop 4896 = l.publicKey.bytes :=
      List.drop_left' l.isSecretOf.length_secret
    refine ⟨rfl, ?_⟩
    rw [List.extract_eq_take_drop, hdrop]
    exact (List.take_of_length_le l.publicKey.length_bytes.le).symm
  · exact PublicKey.ext_bytes hbytes
  · exact ((isEncoding_exchange_iff k l).mp h).2

/-- A generated keypair agrees with itself in the windows, and one byte more is refused. -/
theorem decode_lossless_generated :
    ∃ k, generate? (List.replicate 32 7) = some k ∧
      k.encode.extract 64 128 = shake256 (k.encode.extract 4896 7488) 64 ∧
      ∃ detail, PeerIdentity.Keypair.ofRaw .dilithium (k.encode ++ [0]) =
        .error (.decoding (some .dilithium) detail) := by
  obtain ⟨hwindows, -, hrefused, -⟩ := decode_lossless
  obtain ⟨k, hk, -⟩ := exists_generate? (List.replicate 32 7)
  refine ⟨k, hk, ((hwindows _).mp (isEncoding_encode k)).2.2, hrefused _ fun h => ?_⟩
  have hlen := ((hwindows _).mp h).1
  rw [List.length_append, k.length_encode] at hlen
  exact absurd hlen (by decide)

end Keypair

end PeerIdentity.Dilithium
