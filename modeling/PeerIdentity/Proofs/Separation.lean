import PeerIdentity.Proofs.Keypair

/-!
# Keypairs and public keys are told apart

Keypairs and public keys travel in the same envelopes, and nothing in an envelope says which of the
two it holds. They are told apart by their encodings alone. The encodings of three algorithms differ
in length:

* Ed25519: 64 bytes and 32 bytes;
* secp256k1: 32 bytes and 33 bytes;
* ML-DSA: 7488 bytes and 2592 bytes.

RSA and ECDSA keys are key structures, in sequences: a private key structure starts with a version,
an integer, and the written form of a public key structure starts with its algorithm, a sequence.

* `PrivateKeyInfo.startsWithInteger_of_decode?`: how private key structures start;
* `PublicKeyInfo.not_startsWithInteger_encodeRsa`, `PublicKeyInfo.not_startsWithInteger_encodeEc`:
  how the written forms of public key structures start;
* `Keypair.readRaw_ne_ok`: the encoding of a public key is that of no keypair;
* `Keypair.decode_disjoint`: no byte string is read both as a keypair and as a public key.
-/

namespace PeerIdentity

open Der (contentsLimit)

/-! ## How structures start -/

namespace Der

/-- What is read as an integer starts with the identifier of integers. -/
theorem head?_of_readInteger? {b : Bytes} {result : Nat × Bytes}
    (h : readInteger? b = some result) : b.head? = some integerTag := by
  by_contra hne
  rw [readInteger?_of_head? hne] at h
  cases h

/-- A sequence whose first element is an integer. -/
def StartsWithInteger (b : Bytes) : Prop :=
  ∃ contents, whole? sequenceTag b = some contents ∧ contents.head? = some integerTag

/-- A sequence whose first element is a sequence does not start with an integer. -/
theorem not_startsWithInteger_sequence {inner rest : List Bytes}
    (hlen : (sequence inner :: rest).flatten.length < contentsLimit) :
    ¬ StartsWithInteger (sequence (sequence inner :: rest)) := by
  rintro ⟨contents, hwhole, hhead⟩
  rw [sequence, whole?_element (by decide) hlen] at hwhole
  obtain rfl := Option.some.inj hwhole
  rw [List.flatten_cons, sequence, element] at hhead
  exact absurd (Option.some.inj hhead) (by decide)

end Der

namespace PrivateKeyInfo

open Der (StartsWithInteger)

/-- Every structure of a private key starts with an integer: the four readers all start by reading
one inside a sequence. -/
theorem startsWithInteger_of_decode? {b : Bytes} {k : PrivateKeyInfo} (h : decode? b = some k) :
    StartsWithInteger b := by
  simp only [decode?, Option.orElse_eq_some] at h
  rcases h with h | ⟨-, h | ⟨-, h | ⟨-, h⟩⟩⟩
  · simp only [decodeStructure?, Option.bind_eq_bind, Option.bind_eq_some_iff] at h
    obtain ⟨contents, hwhole, version, hversion, -⟩ := h
    exact ⟨contents, hwhole, Der.head?_of_readInteger? hversion⟩
  · simp only [decodeRsaNumbers?, Der.integers?, Option.bind_eq_bind, Option.bind_eq_some_iff] at h
    obtain ⟨contents, hwhole, -, ⟨version, hversion, -⟩, -⟩ := h
    exact ⟨contents, hwhole, Der.head?_of_readInteger? hversion⟩
  · simp only [decodeEc?, Option.bind_eq_bind, Option.bind_eq_some_iff] at h
    obtain ⟨contents, hwhole, version, hversion, -⟩ := h
    exact ⟨contents, hwhole, Der.head?_of_readInteger? hversion⟩
  · simp only [decodeDsaNumbers?, Der.integers?, Option.bind_eq_bind, Option.bind_eq_some_iff] at h
    obtain ⟨contents, hwhole, -, ⟨version, hversion, -⟩, -⟩ := h
    exact ⟨contents, hwhole, Der.head?_of_readInteger? hversion⟩

end PrivateKeyInfo

namespace PublicKeyInfo

open Der (StartsWithInteger)

/-! ### Written forms of public keys -/

/-- The structure of a public RSA key does not start with an integer, as private ones do. -/
theorem not_startsWithInteger_encodeRsa {n e : Nat}
    (hn : Bytes.byteLength n ≤ Rsa.maxProductLength)
    (he : Bytes.byteLength e ≤ Rsa.maxProductLength) : ¬ StartsWithInteger (encodeRsa n e) := by
  have hlen := length_rsaStructure_lt hn he
  have hle := length_contents_le [Der.identifier KeyAlgorithm.rsaIdentifier, Der.null]
    (encodeRsaNumbers n e) (by omega)
  exact Der.not_startsWithInteger_sequence (Nat.lt_of_le_of_lt hle (by omega))

/-- The structure of a public key on a curve does not start with an integer, as private ones do. -/
theorem not_startsWithInteger_encodeEc (c : NamedCurve) (x y : Nat) :
    ¬ StartsWithInteger (encodeEc c x y) := by
  have hlen := length_ecStructure_lt c x y
  have hle := length_contents_le
    [Der.identifier KeyAlgorithm.ecIdentifier, Der.identifier c.identifier]
    (c.curve.uncompressed x y) (by omega)
  exact Der.not_startsWithInteger_sequence (Nat.lt_of_le_of_lt hle (by omega))

end PublicKeyInfo

/-! ## Encodings of public keys -/

namespace PublicKey

/-- The keys whose numbers are no longer than those of accepted keypairs: public keys that are read
and the public halves of keypairs. -/
def IsBounded : PublicKey → Prop
  | rsa k => Bytes.byteLength k.e ≤ Rsa.maxProductLength
  | _ => True

/-- The numbers of a key that is read are bounded. -/
theorem IsReadable.isBounded {k : PublicKey} (h : k.IsReadable) : k.IsBounded := by
  cases k with
  | rsa k => exact k.sized.byteLength_le h.2.2.le
  | _ => trivial

/-- The numbers of a public half are bounded, because those of the keypair are consistent. -/
theorem isBounded_publicKey (k : Keypair) : k.publicKey.IsBounded := by
  cases k with
  | rsa k =>
    have hmem : k.numbers.e ∈ [0, k.numbers.n, k.numbers.e, k.numbers.d, k.numbers.p, k.numbers.q,
        k.numbers.dp, k.numbers.dq, k.numbers.qinv] := by simp
    exact k.consistent.byteLength_le k.sized hmem
  | _ => trivial

/-- The encoding of a bounded key is short enough for an envelope. -/
theorem IsBounded.length_rawBytes_lt {k : PublicKey} (h : k.IsBounded) :
    k.rawBytes.length < Varint.limit := by
  cases k with
  | rsa k =>
    have hlen := PublicKeyInfo.length_encodeRsa_lt (k.sized.byteLength_le le_rfl) h
    exact Nat.lt_trans hlen (by decide)
  | _ => exact PublicKey.length_rawBytes_lt trivial

end PublicKey

/-! ## Encodings of keypairs -/

/-- Every structure of an RSA keypair starts with an integer, its version or its own. -/
theorem Rsa.Keypair.startsWithInteger_of_decode {b : Bytes} {k : Keypair} (h : decode b = .ok k) :
    Der.StartsWithInteger b := by
  unfold decode at h
  split at h
  next => cases h
  next hread => exact PrivateKeyInfo.startsWithInteger_of_decode? hread
  next => cases h

/-- Every structure of an ECDSA keypair starts with an integer, its version. -/
theorem Ecdsa.Keypair.startsWithInteger_of_decode {b : Bytes} {k : Keypair} (h : decode b = .ok k) :
    Der.StartsWithInteger b := by
  unfold decode at h
  split at h
  next => cases h
  next hread => exact PrivateKeyInfo.startsWithInteger_of_decode? hread
  next => cases h
  next => cases h

namespace Keypair

/-- A reader of keypairs that are all written in one length refuses data of another length. -/
theorem map_ne_ok_of_length {α : Type} {decode : Bytes → Except KeyFault α} {encode : α → Bytes}
    {width : Nat} (hdecode : ∀ {b k}, decode b = .ok k ↔ encode k = b)
    (hlength : ∀ k, (encode k).length = width) {b : Bytes} (hb : b.length ≠ width)
    (wrap : α → Keypair) (k : Keypair) : (decode b).map wrap ≠ .ok k := by
  intro h
  obtain ⟨a, ha, -⟩ := map_eq_ok_iff.mp h
  rw [← hdecode.mp ha, hlength] at hb
  exact hb rfl

/-- The encoding of a public key is not the encoding of a keypair of its algorithm. -/
theorem readRaw_ne_ok {l : PublicKey} (hl : l.IsBounded) (k : Keypair) :
    readRaw l.keyType l.rawBytes ≠ .ok k := by
  cases l with
  | rsa l =>
    intro h
    have h : (Rsa.Keypair.decode l.encode).map rsa = .ok k := h
    obtain ⟨_, hk, -⟩ := map_eq_ok_iff.mp h
    have hstart : Der.StartsWithInteger (PublicKeyInfo.encodeRsa l.n l.e) :=
      Rsa.Keypair.startsWithInteger_of_decode hk
    have hmodulus := l.sized.byteLength_le le_rfl
    exact PublicKeyInfo.not_startsWithInteger_encodeRsa hmodulus hl hstart
  | ecdsa l =>
    intro h
    have h : (Ecdsa.Keypair.decode l.encode).map ecdsa = .ok k := h
    obtain ⟨_, hk, -⟩ := map_eq_ok_iff.mp h
    exact PublicKeyInfo.not_startsWithInteger_encodeEc _ _ _
      (Ecdsa.Keypair.startsWithInteger_of_decode hk)
  -- The keypairs of the other algorithms have an encoded length of their own.
  | ed25519 l =>
    have hb : l.bytes.length ≠ 64 := by rw [l.length_bytes]; decide
    exact map_ne_ok_of_length Ed25519.Keypair.decode_eq_ok_iff Ed25519.Keypair.length_encode hb
      ed25519 k
  | secp256k1 l =>
    have hb : l.encode.length ≠ 32 := by rw [l.length_encode]; decide
    exact map_ne_ok_of_length Secp256k1.Keypair.decode_eq_ok_iff Secp256k1.Keypair.length_encode
      hb secp256k1 k
  | dilithium l =>
    have hb : l.bytes.length ≠ 7488 := by rw [l.length_bytes]; decide
    exact map_ne_ok_of_length Dilithium.Keypair.decode_eq_ok_iff Dilithium.Keypair.length_encode
      hb dilithium k

/-- An envelope that is read as a public key is not read as a keypair. -/
theorem decode_ne_ok_of_publicKey {data : Bytes} {l : PublicKey}
    (hl : PublicKey.decode data = .ok l) (k : Keypair) : decode data ≠ .ok k := by
  obtain ⟨hreadable, henvelope⟩ := PublicKey.decode_eq_ok_iff.mp hl
  intro hk
  rw [decode, henvelope] at hk
  exact readRaw_ne_ok hreadable.isBounded k (mapError_eq_ok_iff.mp hk)

end Keypair

/-- No byte string is read both as a keypair and as a public key. The written form of a keypair is
refused as a public key and the written form of its public half is refused as a keypair, both with
an error that names their algorithm. -/
theorem Keypair.decode_disjoint :
    (∀ (data : Bytes) (k : Keypair) (l : PublicKey),
      ¬ (Keypair.decode data = .ok k ∧ PublicKey.decode data = .ok l)) ∧
    ∀ k : Keypair,
      (∃ detail, PublicKey.decode k.encode = .error (.decoding (some k.keyType) detail)) ∧
      (∃ detail, Keypair.decode k.publicKey.encode =
        .error (.decoding (some k.keyType) detail)) := by
  refine ⟨fun data k l h => decode_ne_ok_of_publicKey h.2 k h.1, fun k => ⟨?_, ?_⟩⟩
  · have henvelope : Envelope.decode k.encode = .ok k.envelope :=
      Envelope.decode_encode k.length_rawBytes_lt
    have hrefused : ∀ l, PublicKey.readRaw k.keyType k.rawBytes ≠ .ok l := by
      intro l hl
      have hdecode : PublicKey.decode k.encode = .ok l := by
        rw [PublicKey.decode, henvelope]
        exact mapError_eq_ok_iff.mpr hl
      exact decode_ne_ok_of_publicKey hdecode k k.decode_encode
    rw [PublicKey.decode, henvelope]
    exact KeyFault.exists_detail_of_ne_ok k.keyType hrefused
  -- The public half of a keypair need not be readable as a public key, so it is refused for its
  -- encoding and not by the first part.
  · have hbounded := PublicKey.isBounded_publicKey k
    have henvelope : Envelope.decode k.publicKey.encode = .ok k.publicKey.envelope :=
      Envelope.decode_encode hbounded.length_rawBytes_lt
    rw [Keypair.decode, henvelope, ← keyType_publicKey]
    exact KeyFault.exists_detail_of_ne_ok k.publicKey.keyType (readRaw_ne_ok hbounded)

end PeerIdentity
