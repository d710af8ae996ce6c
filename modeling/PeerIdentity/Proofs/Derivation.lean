import PeerIdentity.Proofs.PeerIdText
import PeerIdentity.Proofs.PublicKey

/-!
# Identifiers of public keys

The identifier of a key embeds the written form of the key, or its SHA-256 digest when the form has
more than 42 bytes. The algorithm decides: Ed25519 and secp256k1 keys are embedded, the keys of the
other algorithms never are.

* `PublicKey.length_encode_le`, `PublicKey.length_encode_gt`: which keys are embedded;
* `PublicKey.peerId_by_algorithm`: the identifier of every key, and the key that it embeds;
* `PublicKey.peerId_eq_iff`: different keys with one identifier are a collision of SHA-256, and the
  texts of identifiers tell them apart;
* `PeerId.publicKey?_eq_some_iff`: the keys that identifiers embed;
* `PeerId.isOf_iff_canonical`: an identifier that embeds a key is that of the key exactly if it
  embeds the written form of the key.
-/

namespace PeerIdentity

/-! ## Lengths -/

namespace PublicKey

/-- The keys that identifiers embed. -/
def IsInlined (k : PublicKey) : Prop :=
  k.keyType = .ed25519 ∨ k.keyType = .secp256k1

/-- The envelope of an embedded key fits into an identity hash. -/
theorem length_encode_le {k : PublicKey} (h : k.IsInlined) : k.encode.length ≤ maxInlineLength := by
  have hraw : k.rawBytes.length ≤ 33 := by
    cases k with
    | ed25519 k => exact k.length_bytes.trans_le (by decide)
    | secp256k1 k => exact k.length_encode.trans_le (by decide)
    | _ => simp [IsInlined, keyType] at h
  -- Two tags, the type and the length of the encoding take one byte each.
  have hencode : k.encode.length = k.rawBytes.length + 4 :=
    Envelope.length_encode_of_lt (Nat.lt_of_le_of_lt hraw (by decide))
  rw [hencode, maxInlineLength]
  omega

/-- The encoding of a key that is not embedded alone is longer than an identity hash may be. -/
theorem length_rawBytes_gt {k : PublicKey} (h : ¬ k.IsInlined) :
    maxInlineLength < k.rawBytes.length := by
  cases k with
  | ed25519 | secp256k1 => simp [IsInlined, keyType] at h
  | rsa k =>
    -- The modulus alone has at least 2048 bits.
    have hn := k.sized.1
    have hlen := PublicKeyInfo.bitLength_div_lt_length_encodeRsa k.n k.e
    rw [minRsaBits] at hn
    exact Nat.lt_of_le_of_lt (by rw [maxInlineLength]; omega) hlen
  | ecdsa k =>
    have hlen := PublicKeyInfo.fieldLength_lt_length_encodeEc .secp256r1 k.point.x k.point.y
    exact Nat.lt_of_le_of_lt (by decide) hlen
  | dilithium k => exact Nat.lt_of_lt_of_eq (by decide) k.length_bytes.symm

/-- The envelope of a key that is not embedded is too long for an identity hash. -/
theorem length_encode_gt {k : PublicKey} (h : ¬ k.IsInlined) :
    maxInlineLength < k.encode.length :=
  Nat.lt_of_lt_of_le (length_rawBytes_gt h) (Envelope.length_data_le_length_encode k.envelope)

/-- Keys that are embedded are among those that are read back from their envelopes. -/
theorem IsInlined.isReadable {k : PublicKey} (h : k.IsInlined) : k.IsReadable := by
  refine isReadable_of_keyType_ne fun hrsa => ?_
  rw [IsInlined, hrsa] at h
  simp at h

/-! ## Identifiers of keys -/

/-- The multihash of a derived identifier is that of the envelope of its key. -/
theorem decode_multihash_peerId (k : PublicKey) :
    Multihash.decode k.peerId.multihash = .ok (Multihash.ofData k.encode) :=
  Multihash.decode_eq_ok_iff.mpr ⟨(Multihash.isPeerHash_ofData _).isValid, rfl⟩

/-- A derived identifier passes the checks on the bytes of identifiers. -/
theorem readBytes_peerId (k : PublicKey) : PeerId.readBytes k.peerId.multihash = .ok k.peerId :=
  PeerId.readBytes_eq_ok_iff.mpr ⟨_, Multihash.isPeerHash_ofData k.encode, rfl, rfl⟩

/-- A derived identifier is read back from its bytes. -/
theorem ofBytes_peerId (k : PublicKey) : PeerId.ofBytes k.peerId.multihash = .ok k.peerId :=
  mapError_eq_ok_iff.mpr k.readBytes_peerId

/-- An embedded key is taken out of its identifier. -/
theorem publicKey?_peerId_of_isInlined {k : PublicKey} (h : k.IsInlined) :
    k.peerId.publicKey? = .ok (some k) := by
  rw [PeerId.publicKey?, decode_multihash_peerId, Multihash.ofData_of_le (length_encode_le h)]
  simp only [Multihash.identity, decode_encode h.isReadable]
  rfl

/-- No key is taken out of the identifier of a key that is not embedded. -/
theorem publicKey?_peerId_of_not_isInlined {k : PublicKey} (h : ¬ k.IsInlined) :
    k.peerId.publicKey? = .ok none := by
  rw [PeerId.publicKey?, decode_multihash_peerId, Multihash.ofData_of_lt (length_encode_gt h)]
  rfl

/-- The identifier of a key by its algorithm. Ed25519 and secp256k1 keys have written forms of at
most 42 bytes, which their identifiers embed, so that the key is found in the identifier. The
identifiers of other keys hold the SHA-256 digest of a longer form, and no key is found in them.
Every identifier of a key is read from its bytes. -/
theorem peerId_by_algorithm (k : PublicKey) :
    (match k.keyType with
      | .ed25519 | .secp256k1 =>
        k.encode.length ≤ 42 ∧
        Multihash.decode k.peerId.multihash = .ok ⟨.identity, k.encode⟩ ∧
        k.peerId.publicKey? = .ok (some k)
      | .rsa | .ecdsa | .dilithium =>
        42 < k.encode.length ∧
        Multihash.decode k.peerId.multihash = .ok ⟨.sha256, sha256 k.encode⟩ ∧
        k.peerId.publicKey? = .ok none) ∧
    PeerId.ofBytes k.peerId.multihash = .ok k.peerId := by
  refine ⟨?_, k.ofBytes_peerId⟩
  have hinlined (h : k.IsInlined) : k.encode.length ≤ 42 ∧
      Multihash.decode k.peerId.multihash = .ok ⟨.identity, k.encode⟩ ∧
      k.peerId.publicKey? = .ok (some k) := by
    refine ⟨length_encode_le h, ?_, publicKey?_peerId_of_isInlined h⟩
    rw [decode_multihash_peerId, Multihash.ofData_of_le (length_encode_le h), Multihash.identity]
  have hhashed (h : ¬ k.IsInlined) : 42 < k.encode.length ∧
      Multihash.decode k.peerId.multihash = .ok ⟨.sha256, sha256 k.encode⟩ ∧
      k.peerId.publicKey? = .ok none := by
    refine ⟨length_encode_gt h, ?_, publicKey?_peerId_of_not_isInlined h⟩
    rw [decode_multihash_peerId, Multihash.ofData_of_lt (length_encode_gt h), Multihash.sha256]
  cases k with
  | ed25519 k => exact hinlined (.inl rfl)
  | secp256k1 k => exact hinlined (.inr rfl)
  | rsa k => exact hhashed (by simp [IsInlined, keyType])
  | ecdsa k => exact hhashed (by simp [IsInlined, keyType])
  | dilithium k => exact hhashed (by simp [IsInlined, keyType])

/-! ## Equal identifiers -/

/-- Different keys with one identifier are a collision of SHA-256. -/
theorem peerId_inj {k l : PublicKey} :
    k.peerId = l.peerId ↔ k = l ∨ Multihash.IsCollision k.encode l.encode := by
  have hhash : k.peerId = l.peerId ↔ Multihash.ofData k.encode = Multihash.ofData l.encode :=
    ⟨fun h => Multihash.encode_injective (PeerId.mk.inj h),
      fun h => congrArg (fun m => PeerId.mk m.encode) h⟩
  have hencode : k.encode = l.encode ↔ k = l := ⟨encode_injective, congrArg encode⟩
  rw [hhash, Multihash.ofData_eq_iff, hencode]

end PublicKey

namespace PeerId

/-- An identifier belongs to a key exactly if it is the one derived from the key. -/
theorem isOf_iff {p : PeerId} {k : PublicKey} : p.isOf k = true ↔ p = k.peerId :=
  decide_eq_true_iff

/-- Identifiers with one text in base 58 are equal. -/
theorem toBase58_inj {p q : PeerId} : p.toBase58 = q.toBase58 ↔ p = q := by
  constructor
  · intro h
    have hread := congrArg Base58.decode h
    rw [toBase58, toBase58, Base58.decode_encode, Base58.decode_encode] at hread
    exact congrArg PeerId.mk (Except.ok.inj hread)
  · exact congrArg toBase58

/-- Identifiers with one content identifier are equal. -/
theorem toCid_inj {p q : PeerId} : p.toCid = q.toCid ↔ p = q := by
  constructor
  · intro h
    have hbody := (List.cons.inj (String.ofList_injective h)).2
    have hread := congrArg (fun s => Base32.decode (upperAscii s)) hbody
    simp only [Base32.decode_upperAscii_encode, Except.ok.injEq] at hread
    exact congrArg PeerId.mk (List.append_cancel_left hread)
  · exact congrArg toCid

end PeerId

/-- Two keys have one identifier exactly if they are the same key, or if their written forms are
different, both have more than 42 bytes, and collide under SHA-256. It is the same for the texts of
the identifiers. So an identifier that embeds a key is that of one key, and is no digest of
another. -/
theorem PublicKey.peerId_eq_iff (a b : PublicKey) :
    (a.peerId.isOf b = true ↔ a.peerId = b.peerId) ∧
    (a.peerId.toBase58 = b.peerId.toBase58 ↔ a.peerId = b.peerId) ∧
    (a.peerId.toCid = b.peerId.toCid ↔ a.peerId = b.peerId) ∧
    (a.peerId = b.peerId ↔ a = b ∨
      42 < a.encode.length ∧ 42 < b.encode.length ∧ a.encode ≠ b.encode ∧
        sha256 a.encode = sha256 b.encode) ∧
    (a.encode.length ≤ 42 → (a.peerId = b.peerId ↔ a = b)) := by
  refine ⟨PeerId.isOf_iff, PeerId.toBase58_inj, PeerId.toCid_inj, peerId_inj, fun ha => ?_⟩
  rw [peerId_inj]
  constructor
  · rintro (rfl | ⟨hlong, -⟩)
    · rfl
    · exact absurd ha (Nat.not_le.mpr hlong)
  · exact .inl

namespace PeerId

/-! ## Keys of identifiers -/

/-- The identifiers that are read from bytes or from a text. -/
inductive IsRead (p : PeerId) : Prop
  | bytes {b : Bytes} (h : ofBytes b = .ok p)
  | base58 {s : String} (h : ofBase58 s = .ok p)
  | cid {s : String} (h : ofCid s = .ok p)
  | text {s : String} (h : ofText s = .ok p)

/-- What a text in base 58 writes has passed the checks on bytes. -/
theorem exists_readBytes_of_readBase58 {s : String} {p : PeerId} (h : readBase58 s = .ok p) :
    ∃ b, readBytes b = .ok p := by
  unfold readBase58 at h
  split at h
  next => cases h
  next b _ => exact ⟨b, h⟩

/-- What a content identifier writes has passed the checks on bytes. -/
theorem exists_readBytes_of_readCid {s : String} {p : PeerId} (h : readCid s = .ok p) :
    ∃ b, readBytes b = .ok p := by
  unfold readCid at h
  split at h
  next =>
    split at h
    next => cases h
    next => exact ⟨_, (readCidBytes_eq_ok_iff.mp h).1⟩
  next => cases h

/-- All readers end in the reader of bytes, so the identifiers that are read are the multihashes
with short data or a SHA-256 digest. -/
theorem isRead_iff {p : PeerId} : p.IsRead ↔ ∃ m : Multihash, m.IsPeerHash ∧ p = ⟨m.encode⟩ := by
  constructor
  · intro h
    -- The texts are taken apart, and what is left goes to the reader of bytes.
    have hbytes : ∃ b, readBytes b = .ok p := by
      cases h with
      | bytes h => exact ⟨_, mapError_eq_ok_iff.mp h⟩
      | base58 h => exact exists_readBytes_of_readBase58 (mapError_eq_ok_iff.mp h)
      | cid h => exact exists_readBytes_of_readCid (mapError_eq_ok_iff.mp h)
      | text h =>
        rcases ofText_eq_ok_iff.mp h with h | h
        · exact exists_readBytes_of_readBase58 (mapError_eq_ok_iff.mp h)
        · exact exists_readBytes_of_readCid (mapError_eq_ok_iff.mp h)
    obtain ⟨b, hb⟩ := hbytes
    obtain ⟨m, hm, -, hp⟩ := readBytes_eq_ok_iff.mp hb
    exact ⟨m, hm, hp⟩
  · rintro ⟨m, hm, rfl⟩
    exact .bytes (mapError_eq_ok_iff.mpr (readBytes_eq_ok_iff.mpr ⟨m, hm, rfl, rfl⟩))

/-- A derived identifier is one that is read. -/
theorem isRead_peerId (k : PublicKey) : k.peerId.IsRead :=
  .bytes k.ofBytes_peerId

/-- An identifier that is read holds a key exactly if it embeds an envelope of the key. -/
theorem publicKey?_eq_some_iff {p : PeerId} {k : PublicKey} (hp : p.IsRead) :
    p.publicKey? = .ok (some k) ↔ ∃ data : Bytes, data.length ≤ maxInlineLength ∧
      p = ⟨(Multihash.identity data).encode⟩ ∧ PublicKey.decode data = .ok k := by
  obtain ⟨⟨code, digest⟩, hm, rfl⟩ := isRead_iff.mp hp
  rw [publicKey?, Multihash.decode_eq_ok_iff.mpr ⟨hm.isValid, rfl⟩]
  cases code with
  | identity =>
    have hembedded : (Except.ok (PublicKey.decode digest).toOption :
        Except IdentityError (Option PublicKey)) = .ok (some k) ↔
          PublicKey.decode digest = .ok k := by
      cases PublicKey.decode digest <;> simp [Except.toOption]
    -- The embedded data is the only data that makes the same identifier.
    refine hembedded.trans ⟨fun h => ⟨digest, hm, rfl, h⟩, ?_⟩
    rintro ⟨data, -, hdata, h⟩
    cases Multihash.encode_injective (PeerId.mk.inj hdata)
    exact h
  | sha256 =>
    constructor
    · intro h
      cases h
    · rintro ⟨data, -, hdata, -⟩
      cases Multihash.encode_injective (PeerId.mk.inj hdata)

/-- A key that an identifier can embed in some envelope is embedded in its own identifier. -/
theorem isInlined_of_decode {data : Bytes} {k : PublicKey} (hlen : data.length ≤ maxInlineLength)
    (h : PublicKey.decode data = .ok k) : k.IsInlined := by
  by_contra hk
  have hraw : k.rawBytes.length ≤ data.length :=
    Envelope.length_data_le_of_decode (PublicKey.decode_eq_ok_iff.mp h).2
  have hlong := PublicKey.length_rawBytes_gt hk
  omega

/-- An identifier that is read and holds a key embeds an envelope of that key. It is the identifier
of the key exactly if this envelope is the written form of the key. The identifier of the key is
read too and holds the key, and no other identifier embeds the written form of the key. -/
theorem isOf_iff_canonical {p : PeerId} {k : PublicKey} (hp : p.IsRead)
    (hk : p.publicKey? = .ok (some k)) :
    ∃ data, Multihash.decode p.multihash = .ok (Multihash.identity data) ∧
      PublicKey.decode data = .ok k ∧
      (k.peerId = p ↔ data = k.encode) ∧
      (p.isOf k = true ↔ data = k.encode) ∧
      k.peerId.IsRead ∧ k.peerId.publicKey? = .ok (some k) ∧
      ∀ q : PeerId,
        Multihash.decode q.multihash = .ok (Multihash.identity k.encode) ↔ q = k.peerId := by
  obtain ⟨data, hlen, rfl, hdata⟩ := (publicKey?_eq_some_iff hp).mp hk
  -- The embedded envelope is short, so the key is one that its own identifier embeds.
  have hinlined := isInlined_of_decode hlen hdata
  have hform : k.peerId = ⟨(Multihash.identity k.encode).encode⟩ := by
    rw [PublicKey.peerId, Multihash.ofData_of_le (PublicKey.length_encode_le hinlined)]
  have hsame : k.peerId = ⟨(Multihash.identity data).encode⟩ ↔ data = k.encode := by
    rw [hform]
    constructor
    · intro h
      exact (Multihash.mk.inj (Multihash.encode_injective (PeerId.mk.inj h))).2.symm
    · rintro rfl
      rfl
  refine ⟨data, ?_, hdata, hsame, ?_, isRead_peerId k,
    PublicKey.publicKey?_peerId_of_isInlined hinlined, fun q => ?_⟩
  · exact Multihash.decode_eq_ok_iff.mpr ⟨Multihash.IsPeerHash.isValid hlen, rfl⟩
  · rw [isOf_iff, eq_comm, hsame]
  · have hvalid : (Multihash.identity k.encode).IsValid :=
      Multihash.IsPeerHash.isValid (PublicKey.length_encode_le hinlined)
    rw [Multihash.decode_eq_ok_iff, and_iff_right hvalid, hform]
    exact ⟨congrArg PeerId.mk, PeerId.mk.inj⟩

/-- The identifier of an Ed25519 key is read and holds the key, and embeds its written form. -/
theorem isOf_iff_canonical_ed25519 :
    let k := PublicKey.ed25519 ⟨List.replicate 32 7, by decide⟩
    k.peerId.IsRead ∧ k.peerId.publicKey? = .ok (some k) ∧
      Multihash.decode k.peerId.multihash = .ok (Multihash.identity k.encode) := by
  intro k
  have hread := isRead_peerId k
  have hk : k.peerId.publicKey? = .ok (some k) :=
    PublicKey.publicKey?_peerId_of_isInlined (.inl rfl)
  obtain ⟨-, -, -, -, -, -, -, hunique⟩ := isOf_iff_canonical hread hk
  exact ⟨hread, hk, (hunique _).mpr rfl⟩

/-- The identifier that embeds an envelope with the data in front of the type is read and holds a
key, but it is not the identifier of the key, which holds the key too. -/
theorem not_isOf_of_swapped :
    let k := PublicKey.ed25519 ⟨List.replicate 32 7, by decide⟩
    let p : PeerId := ⟨0x00 :: 0x24 :: 0x12 :: 0x20 :: (List.replicate 32 7 ++ [0x08, 0x01])⟩
    p.IsRead ∧ p.publicKey? = .ok (some k) ∧ k.peerId ≠ p ∧ p.isOf k = false ∧
      k.peerId.IsRead ∧ k.peerId.publicKey? = .ok (some k) := by
  intro k p
  have hread : ofBytes p.multihash = .ok p := by decide +kernel
  exact ⟨.bytes hread, by decide +kernel, by decide +kernel, by decide +kernel, isRead_peerId k,
    PublicKey.publicKey?_peerId_of_isInlined (.inl rfl)⟩

end PeerId

end PeerIdentity
