import PeerIdentity.Proofs.Derivation
import PeerIdentity.Proofs.Keypair
import PeerIdentity.Record

/-!
# Records describe their keys

The record of a public key has five fields, each written by an encoder of its own: the name of the
algorithm, two texts of the peer identifier, the envelope in hexadecimal, and whether the identifier
embeds the key. Each field is read back by the reader of its form, and the fields agree with each
other. The envelope alone determines the key, so different keys have different records.

One reader may refuse what a record holds. The envelope of an RSA key whose exponent is not below
the modulus is in the record of the key, but it is not read as a key. Such a key is the public half
of some RSA keypairs and comes from no other source.

* `IdentityRecord.inlined_iff`: the keys that are inlined;
* `IdentityRecord.publicKey?_eq_some_iff`: the identifier of a record embeds the key exactly if the
  record says so;
* `IdentityRecord.ofPublicKey_injective`: different keys have different records;
* `IdentityRecord.describes_key`: what the fields of a record tell of its key;
* `IdentityRecord.not_decode_of_largeExponent`: a record with an envelope that is not read.
-/

namespace PeerIdentity

/-- The name of an algorithm is read back in lower case, too. -/
theorem KeyType.ofName?_lowerName (t : KeyType) : ofName? t.lowerName = some t := by
  cases t <;> decide

namespace IdentityRecord

/-! ## Peer identifiers -/

/-- The identifier is read back from the record in base 58. -/
theorem ofText_peerId (k : PublicKey) : PeerId.ofText (ofPublicKey k).peerId = .ok k.peerId := by
  rw [PeerId.ofText_eq_ok_iff]
  exact .inl (mapError_eq_ok_iff.mpr (PeerId.readBase58_toBase58 k.readBytes_peerId))

/-- The identifier is read back from the record as a content identifier. -/
theorem ofText_peerIdCid (k : PublicKey) :
    PeerId.ofText (ofPublicKey k).peerIdCid = .ok k.peerId := by
  rw [PeerId.ofText_eq_ok_iff]
  exact .inr (mapError_eq_ok_iff.mpr (PeerId.readCid_toCid k.readBytes_peerId))

/-- The record of a key says that the key is inlined exactly if its algorithm is one of the two with
short keys. -/
theorem inlined_iff (k : PublicKey) : (ofPublicKey k).inlined = true ↔ k.IsInlined := by
  by_cases h : k.IsInlined
  · simp [ofPublicKey, Multihash.ofData_of_le (PublicKey.length_encode_le h), Multihash.identity, h]
  · simp [ofPublicKey, Multihash.ofData_of_lt (PublicKey.length_encode_gt h), Multihash.sha256, h]

/-- The hash function of the identifier decides what the record says. -/
theorem inlined_iff_hashCode (k : PublicKey) :
    (ofPublicKey k).inlined = true ↔ k.peerId.hashCode = .ok .identity := by
  rw [PeerId.hashCode, k.decode_multihash_peerId, map_eq_ok_iff]
  simp [ofPublicKey]

/-- The identifier of a key embeds that key if the record says so, and no key otherwise. -/
theorem publicKey?_eq_some_iff (k l : PublicKey) :
    k.peerId.publicKey? = .ok (some l) ↔ (ofPublicKey k).inlined = true ∧ l = k := by
  rw [inlined_iff]
  by_cases h : k.IsInlined
  · rw [PublicKey.publicKey?_peerId_of_isInlined h]
    simp [h, eq_comm]
  · rw [PublicKey.publicKey?_peerId_of_not_isInlined h]
    simp [h]

/-! ## Envelopes -/

/-- The envelope is the only byte string whose hexadecimal text is in the record. -/
theorem hex_eq_publicKey_iff (k : PublicKey) (b : Bytes) :
    Bytes.hex b = (ofPublicKey k).publicKey ↔ b = k.encode :=
  ⟨fun h => Bytes.hex_injective h, congrArg Bytes.hex⟩

/-- Keys with one record are equal. -/
theorem ofPublicKey_injective {k l : PublicKey} (h : ofPublicKey k = ofPublicKey l) : k = l :=
  PublicKey.encode_injective (Bytes.hex_injective (congrArg publicKey h))

/-- The envelope in a record is read as the key of the record, if it is read at all. -/
theorem decode_eq_ok_iff {k l : PublicKey} {b : Bytes}
    (hb : Bytes.hex b = (ofPublicKey k).publicKey) :
    PublicKey.decode b = .ok l ↔ k.IsReadable ∧ l = k := by
  obtain rfl := (hex_eq_publicKey_iff k b).mp hb
  exact PublicKey.decode_encode_eq_ok_iff

/-! ## Records -/

/-- The fields of the record of a public key tell its key apart from all others, and agree with each
other. Both texts of the identifier are read as the identifier, and the name as the algorithm. The
key is said to be inlined exactly if the identifier embeds a key, which is this one. The envelope is
read as the key, for every key that was itself read, and for the public half of every keypair but
those of RSA with a public exponent as large as the modulus. -/
theorem describes_key (k : PublicKey) :
    let r := ofPublicKey k
    PeerId.ofText r.peerId = .ok k.peerId ∧
    PeerId.ofText r.peerIdCid = .ok k.peerId ∧
    (∀ b : Bytes, Bytes.hex b = r.publicKey ↔ b = k.encode) ∧
    (∀ (b : Bytes) (l : PublicKey), Bytes.hex b = r.publicKey →
      (PublicKey.decode b = .ok l ↔ k.IsReadable ∧ l = k)) ∧
    (∀ data : Bytes, PublicKey.decode data = .ok k → k.IsReadable) ∧
    (∀ pair : Keypair, pair.publicKey = k →
      (k.IsReadable ↔ ∀ rsa, pair = .rsa rsa → rsa.numbers.e < rsa.numbers.n)) ∧
    KeyType.ofName? r.keyType = some k.keyType ∧
    (r.inlined = true ↔ k.peerId.hashCode = .ok .identity) ∧
    (∀ (p : PeerId) (l : PublicKey), PeerId.ofText r.peerId = .ok p →
      (p.publicKey? = .ok (some l) ↔ r.inlined = true ∧ l = k)) ∧
    ∀ l : PublicKey, ofPublicKey l = r ↔ l = k := by
  intro r
  refine ⟨ofText_peerId k, ofText_peerIdCid k, hex_eq_publicKey_iff k,
    fun b l hb => decode_eq_ok_iff hb, fun data hdata => ?_, ?_,
    KeyType.ofName?_lowerName k.keyType, inlined_iff_hashCode k, fun p l hp => ?_,
    fun l => ⟨ofPublicKey_injective, congrArg ofPublicKey⟩⟩
  -- A key that was read is readable.
  · exact (PublicKey.decode_eq_ok_iff.mp hdata).1
  · rintro pair rfl
    exact pair.isReadable_publicKey_iff
  -- The text determines the identifier.
  · obtain rfl : k.peerId = p := Except.ok.inj ((ofText_peerId k).symm.trans hp)
    exact publicKey?_eq_some_iff k l

/-- The record of an Ed25519 key is read back: its envelope is that of the key, and its identifier
embeds the key. -/
theorem describes_key_ed25519 :
    let k := PublicKey.ed25519 ⟨List.replicate 32 7, by decide⟩
    let r := ofPublicKey k
    r.inlined = true ∧ Bytes.hex k.encode = r.publicKey ∧ PublicKey.decode k.encode = .ok k ∧
      ∃ p, PeerId.ofText r.peerId = .ok p ∧ p.publicKey? = .ok (some k) := by
  intro k r
  obtain ⟨htext, -, hhex, hdecode, -, -, -, -, hembedded, -⟩ := describes_key k
  have hinlined : r.inlined = true := (inlined_iff k).mpr (.inl rfl)
  have henvelope : Bytes.hex k.encode = r.publicKey := (hhex _).mpr rfl
  exact ⟨hinlined, henvelope, (hdecode _ _ henvelope).mpr ⟨trivial, rfl⟩, _, htext,
    (hembedded _ _ htext).mpr ⟨hinlined, rfl⟩⟩

/-- The public half of an RSA keypair with a large exponent has a record, but the envelope in it is
not read as a key. -/
theorem not_decode_of_largeExponent :
    let pair := Keypair.rsa Rsa.largeExponent
    Keypair.decode pair.encode = .ok pair ∧
      ∃ b, Bytes.hex b = (ofPublicKey pair.publicKey).publicKey ∧
        ¬ ∃ l, PublicKey.decode b = .ok l := by
  intro pair
  refine ⟨pair.decode_encode, pair.publicKey.encode, rfl, ?_⟩
  rintro ⟨l, hl⟩
  exact Rsa.not_isReadable_largeExponent (PublicKey.decode_encode_eq_ok_iff.mp hl).1

end IdentityRecord

end PeerIdentity
