import PeerIdentity.Proofs.Derivation
import PeerIdentity.Proofs.Keypair

/-!
# Equal public keys are interchangeable

A public key is held in two forms, as the bytes of its encoding and as the key that these bytes were
parsed into. Equality, hashes and the order look at the bytes only, and signatures are verified with
the parsed key only. The two come about in different ways: a reader keeps the bytes that it was
given beside what it read from them, and a keypair knows the parsed key and writes the bytes itself,
which for RSA and P-256 no reader looks at again.

* `HeldKey`: the two forms, with the algorithm;
* `HeldKey.IsReached`: the ways in which a public key is obtained;
* `HeldKey.IsReached.denotes`: on each of these ways the bytes are the encoding of the parsed key;
* `HeldKey.interchangeable`: keys with equal bytes verify the same signatures, and agree in all else
  that can be asked of them.
-/

namespace PeerIdentity

/-- A public key in the two forms in which it is held. -/
structure HeldKey where
  /-- The algorithm. -/
  keyType : KeyType
  /-- The encoding, which is compared. -/
  bytes : Bytes
  /-- The parsed key, with which signatures are verified. -/
  key : PublicKey

namespace HeldKey

/-- The equality of public keys: equal algorithms and equal encodings. -/
def IsEqual (a b : HeldKey) : Prop :=
  a.keyType = b.keyType ∧ a.bytes = b.bytes

/-- The ways in which a public key is obtained. -/
inductive IsReached : HeldKey → Prop
  /-- An encoding is read for an algorithm; the bytes that were read are kept. -/
  | raw {t : KeyType} {b : Bytes} {k : PublicKey} (h : PublicKey.ofRaw t b = .ok k) :
      IsReached ⟨t, b, k⟩
  /-- An envelope is read; the data in it is kept. -/
  | envelope {data : Bytes} {m : Envelope} {k : PublicKey} (hm : Envelope.decode data = .ok m)
      (hk : PublicKey.decode data = .ok k) : IsReached ⟨m.keyType, m.data, k⟩
  /-- The public half of a keypair, whether that was generated or read; the bytes are written from
  the parsed key. -/
  | half (k : Keypair) : IsReached ⟨k.keyType, k.publicKey.rawBytes, k.publicKey⟩
  /-- A peer identifier embeds an envelope; the data in it is kept. -/
  | embedded {p : PeerId} {data : Bytes} {m : Envelope} {k : PublicKey}
      (hdata : Multihash.decode p.multihash = .ok (Multihash.identity data))
      (hm : Envelope.decode data = .ok m) (hk : p.publicKey? = .ok (some k)) :
      IsReached ⟨m.keyType, m.data, k⟩

/-! ## Both forms are of one key -/

/-- The bytes that are kept from an envelope are the encoding of the key that was read from it. -/
theorem denotes_of_decode {data : Bytes} {m : Envelope} {k : PublicKey}
    (hm : Envelope.decode data = .ok m) (hk : PublicKey.decode data = .ok k) :
    k.keyType = m.keyType ∧ k.rawBytes = m.data := by
  have henvelope := (PublicKey.decode_eq_ok_iff.mp hk).2
  rw [hm] at henvelope
  obtain rfl := Except.ok.inj henvelope
  exact ⟨rfl, rfl⟩

/-- An identifier that embeds data holds the key that is read from the data. -/
theorem decode_of_publicKey? {p : PeerId} {data : Bytes} {k : PublicKey}
    (hdata : Multihash.decode p.multihash = .ok (Multihash.identity data))
    (hk : p.publicKey? = .ok (some k)) : PublicKey.decode data = .ok k := by
  rw [PeerId.publicKey?, hdata] at hk
  simp only [Multihash.identity, Except.ok.injEq] at hk
  cases hdecode : PublicKey.decode data with
  | error e => simp [hdecode, Except.toOption] at hk
  | ok l =>
    rw [hdecode] at hk
    exact congrArg Except.ok (Option.some.inj hk)

/-- However a key was obtained, its bytes are the encoding of the parsed key. -/
theorem IsReached.denotes {a : HeldKey} (h : a.IsReached) :
    a.key.keyType = a.keyType ∧ a.key.rawBytes = a.bytes := by
  cases h with
  | raw h => exact (PublicKey.readRaw_eq_ok_iff.mp (mapError_eq_ok_iff.mp h)).2
  | envelope hm hk => exact denotes_of_decode hm hk
  | half k => exact ⟨k.keyType_publicKey, rfl⟩
  | embedded hdata hm hk => exact denotes_of_decode hm (decode_of_publicKey? hdata hk)

/-- The bytes that are held are the encoding of one key only, so there is one parsed key that they
can stand for. -/
theorem IsReached.key_unique {a : HeldKey} (h : a.IsReached) {k : PublicKey}
    (ht : k.keyType = a.keyType) (hb : k.rawBytes = a.bytes) : k = a.key := by
  obtain ⟨htype, hbytes⟩ := h.denotes
  exact PublicKey.rawBytes_injective (ht.trans htype.symm) (hb.trans hbytes.symm)

/-- Held keys that are reached by parsing or deriving are equal exactly if they hold one key. -/
theorem isEqual_iff {a b : HeldKey} (ha : a.IsReached) (hb : b.IsReached) :
    a.IsEqual b ↔ a.key = b.key := by
  obtain ⟨hta, hba⟩ := ha.denotes
  obtain ⟨htb, hbb⟩ := hb.denotes
  constructor
  · rintro ⟨ht, hbytes⟩
    exact hb.key_unique (hta.trans ht) (hba.trans hbytes)
  · intro h
    exact ⟨by rw [← hta, ← htb, h], by rw [← hba, ← hbb, h]⟩

/-- Equal public keys are interchangeable, however each of them was obtained. The parsed key is the
one key that the held bytes are the encoding of, and keys are equal exactly if their parsed keys
are. So equal keys have the same hash, algorithm, written form and peer identifier, they stand in
the same order to every other key, and they verify the same signatures. -/
theorem interchangeable {a b : HeldKey} (ha : a.IsReached) (hb : b.IsReached) :
    (∀ k : PublicKey, k.keyType = a.keyType ∧ k.rawBytes = a.bytes ↔ k = a.key) ∧
    (a.IsEqual b ↔ a.key = b.key) ∧
    (a.IsEqual b →
      (∀ hash : Bytes → Int, hash a.bytes = hash b.bytes) ∧
      a.key.keyType = b.key.keyType ∧
      a.key.encode = b.key.encode ∧
      a.key.peerId = b.key.peerId ∧
      (∀ relation ∈ [PublicKey.lt, PublicKey.le, PublicKey.gt, PublicKey.ge], ∀ c : PublicKey,
        relation a.key c = relation b.key c ∧ relation c a.key = relation c b.key) ∧
      ∀ message signature : Bytes,
        a.key.verify message signature = b.key.verify message signature) := by
  refine ⟨fun k => ⟨fun h => ha.key_unique h.1 h.2, ?_⟩, isEqual_iff ha hb, fun h => ?_⟩
  · rintro rfl
    exact ha.denotes
  -- Apart from the hash, all of it is computed from the parsed key.
  · have hkey := (isEqual_iff ha hb).mp h
    obtain ⟨-, hbytes⟩ := h
    refine ⟨fun hash => congrArg hash hbytes, ?_, ?_, ?_, fun relation _ c => ⟨?_, ?_⟩,
      fun message signature => ?_⟩ <;> rw [hkey]

/-- The public half of an Ed25519 keypair and the key that its peer identifier embeds are equal, and
verify the same signatures. -/
theorem interchangeable_half_embedded :
    let secret := List.replicate 32 7
    let k := Keypair.ed25519
      ⟨secret, ⟨Ed25519.derive secret, Ed25519.length_derive secret⟩, by decide, rfl⟩
    ∃ l : PublicKey, k.peerId.publicKey? = .ok (some l) ∧
      IsReached ⟨k.keyType, k.publicKey.rawBytes, k.publicKey⟩ ∧
      IsReached ⟨l.keyType, l.rawBytes, l⟩ ∧
      ∀ message signature : Bytes,
        k.publicKey.verify message signature = l.verify message signature := by
  intro secret k
  have hinlined : k.publicKey.IsInlined := .inl rfl
  have hembedded := PublicKey.publicKey?_peerId_of_isInlined hinlined
  have hdata : Multihash.decode k.peerId.multihash =
      .ok (Multihash.identity k.publicKey.encode) := by
    rw [← Multihash.ofData_of_le (PublicKey.length_encode_le hinlined)]
    exact k.publicKey.decode_multihash_peerId
  have henvelope : Envelope.decode k.publicKey.encode = .ok k.publicKey.envelope :=
    Envelope.decode_encode (PublicKey.length_rawBytes_lt hinlined.isReadable)
  have hhalf := IsReached.half k
  have hreached := IsReached.embedded hdata henvelope hembedded
  obtain ⟨-, -, hsame⟩ := interchangeable hhalf hreached
  obtain ⟨-, -, -, -, -, hverify⟩ := hsame ⟨rfl, rfl⟩
  exact ⟨_, hembedded, hhalf, hreached, hverify⟩

end HeldKey

end PeerIdentity
