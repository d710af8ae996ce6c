import PeerIdentity.Proofs.Envelope
import PeerIdentity.Proofs.KeyFormat
import PeerIdentity.Proofs.Result
import PeerIdentity.PublicKey

/-!
# Public keys and their encodings

Each algorithm reads exactly the byte strings that it writes, so a public key is its encoding. An
RSA key is read only if its exponent is odd, at least 3 and below the modulus; the keys of the other
algorithms are all read.

* `PublicKey.IsReadable`: the keys that are read;
* `PublicKey.IsEncoding`: the encodings that are accepted for an algorithm;
* `PublicKey.decode_eq_ok_iff`: a key is read from the envelopes of its type and its encoding;
* `PublicKey.decode_encode_eq_ok_iff`: exactly these keys are read from their own envelopes;
* `PublicKey.encode_injective`: different keys have different envelopes;
* `PublicKey.decode_canonical`: reading and writing brings every envelope into the one form of its
  key.
-/

namespace PeerIdentity

/-- A reader of encodings that ends in no value ends in an error that names the algorithm. -/
theorem KeyFault.exists_detail_of_ne_ok {α : Type} {x : Except KeyFault α} (t : KeyType)
    (h : ∀ a, x ≠ .ok a) :
    ∃ detail, x.mapError (KeyFault.toError t) = .error (.decoding (some t) detail) := by
  cases x with
  | error fault => exact ⟨fault.message, rfl⟩
  | ok a => exact absurd rfl (h a)

/-! ## Algorithms -/

/-- The bytes that are read as a public key are the key itself, and no others. -/
theorem Ed25519.PublicKey.decode_eq_ok_iff {b : Bytes} {k : PublicKey} :
    decode b = .ok k ↔ k.encode = b := by
  constructor
  · intro h
    unfold decode at h
    split at h
    next =>
      cases h
      rfl
    next => cases h
  · rintro rfl
    exact dif_pos k.length_bytes

/-- The bytes that are read as a public key are the key itself, and no others. -/
theorem Dilithium.PublicKey.decode_eq_ok_iff {b : Bytes} {k : PublicKey} :
    decode b = .ok k ↔ k.encode = b := by
  constructor
  · intro h
    unfold decode at h
    split at h
    next =>
      cases h
      rfl
    next => cases h
  · rintro rfl
    exact dif_pos k.length_bytes

namespace Secp256k1.PublicKey

/-- An encoding is a compressed point. -/
theorem length_encode (k : PublicKey) : k.encode.length = publicKeyLength := by
  rw [encode, Curve.length_compressed]
  rfl

/-- A public key is written as it was read, so uncompressed points are not accepted. -/
theorem encode_of_decode {b : Bytes} {k : PublicKey} (h : decode b = .ok k) : k.encode = b := by
  unfold decode at h
  split at h
  next =>
    split at h
    next lead rest =>
      split at h
      next hlead =>
        unfold ofCompressed at h
        split at h
        next point hpoint =>
          cases h
          obtain ⟨⟨x, y⟩, hread, hon⟩ := Option.bind_eq_some_iff.mp hpoint
          obtain ⟨hx, hy⟩ := Curve.PublicPoint.of?_eq_some hon
          rw [encode, hx, hy]
          exact Curve.compressed_of_decodePoint? hlead hread
        next => cases h
      next => cases h
    next => cases h
  next => cases h

/-- A public key is read back from its compressed point. -/
theorem decode_encode (k : PublicKey) : decode k.encode = .ok k := by
  have hread := Curve.decodePoint?_compressed Curve.prime_secp256k1 (by decide) k.point.isOn
  have hcompressed : ofCompressed k.encode = .ok k := by
    simp only [ofCompressed, encode, hread, Option.bind_some, Curve.PublicPoint.of?_self]
  unfold decode
  rw [if_pos k.length_encode]
  exact (if_pos (Curve.compressed_lead k.point.y)).trans hcompressed

/-- The bytes that are read as a public key are its encoding, and no others. -/
theorem decode_eq_ok_iff {b : Bytes} {k : PublicKey} : decode b = .ok k ↔ k.encode = b := by
  constructor
  · exact encode_of_decode
  · rintro rfl
    exact decode_encode k

end Secp256k1.PublicKey

namespace Ecdsa.PublicKey

/-- A public key is written as it was read, so other structures of it are not accepted. -/
theorem encode_of_decode {b : Bytes} {k : PublicKey} (h : decode b = .ok k) : k.encode = b := by
  unfold decode at h
  split at h
  next => cases h
  next x y _ =>
    split at h
    next hform =>
      unfold ofPoint at h
      split at h
      next point hon =>
        cases h
        obtain ⟨hx, hy⟩ := Curve.PublicPoint.of?_eq_some hon
        rw [encode, hx, hy]
        exact hform
      next => cases h
    next => cases h
  next => cases h
  next => cases h

/-- A public key is read back from its structure. -/
theorem decode_encode (k : PublicKey) : decode k.encode = .ok k := by
  have hread : PublicKeyInfo.decode? k.encode = some (.ec .secp256r1 k.point.x k.point.y) :=
    PublicKeyInfo.decode?_encodeEc k.point.isOn
  rw [decode, hread]
  refine (if_pos rfl).trans ?_
  rw [ofPoint, Curve.PublicPoint.of?_self]

/-- The bytes that are read as a public key are its encoding, and no others. -/
theorem decode_eq_ok_iff {b : Bytes} {k : PublicKey} : decode b = .ok k ↔ k.encode = b := by
  constructor
  · exact encode_of_decode
  · rintro rfl
    exact decode_encode k

end Ecdsa.PublicKey

namespace Rsa.PublicKey

/-- The keys of which the structure is read: their exponent is odd, at least 3 and below the
modulus. -/
def IsReadable (k : PublicKey) : Prop :=
  PublicKeyInfo.IsExponent k.n k.e

/-- A public key that is read has an exponent that is read, and is written as it was read. -/
theorem eq_of_decode {b : Bytes} {k : PublicKey} (h : decode b = .ok k) :
    k.IsReadable ∧ k.encode = b := by
  unfold decode at h
  split at h
  next => cases h
  next n e hread =>
    split at h
    next =>
      split at h
      next hform =>
        cases h
        exact ⟨PublicKeyInfo.isExponent_of_decode? hread, hform⟩
      next => cases h
    next => cases h
  next => cases h

/-- A public key is read back from its structure if its exponent is one that is read. -/
theorem decode_encode {k : PublicKey} (h : k.IsReadable) : decode k.encode = .ok k := by
  have hread : PublicKeyInfo.decode? k.encode = some (.rsa k.n k.e) :=
    PublicKeyInfo.decode?_encodeRsa k.sized h
  rw [decode, hread]
  exact (dif_pos k.sized).trans (if_pos rfl)

/-- The bytes that are read as a public key are its encoding, if its exponent is one that is
read. -/
theorem decode_eq_ok_iff {b : Bytes} {k : PublicKey} :
    decode b = .ok k ↔ k.IsReadable ∧ k.encode = b := by
  constructor
  · exact eq_of_decode
  · rintro ⟨h, rfl⟩
    exact decode_encode h

/-- Two public keys with one structure are equal. -/
theorem encode_injective {k l : PublicKey} (h : k.encode = l.encode) : k = l := by
  obtain ⟨n, e, hn⟩ := k
  obtain ⟨m, d, hm⟩ := l
  obtain ⟨rfl, rfl⟩ := PublicKeyInfo.encodeRsa_injective hn hm h
  rfl

end Rsa.PublicKey

namespace PublicKey

/-! ## Encodings of all algorithms -/

/-- The keys that are read from their own encodings: all but RSA keys with other exponents. -/
def IsReadable : PublicKey → Prop
  | rsa k => k.IsReadable
  | _ => True

/-- A key is read from its encoding under its type, and from nothing else. -/
theorem readRaw_eq_ok_iff {t : KeyType} {b : Bytes} {k : PublicKey} :
    readRaw t b = .ok k ↔ k.IsReadable ∧ k.keyType = t ∧ k.rawBytes = b := by
  cases t <;> simp only [readRaw, map_eq_ok_iff, Ed25519.PublicKey.decode_eq_ok_iff,
    Dilithium.PublicKey.decode_eq_ok_iff, Secp256k1.PublicKey.decode_eq_ok_iff,
    Ecdsa.PublicKey.decode_eq_ok_iff, Rsa.PublicKey.decode_eq_ok_iff] <;>
    cases k <;> simp [IsReadable, keyType, rawBytes]

/-- A key is read exactly from the envelopes of its type and its encoding. -/
theorem decode_eq_ok_iff {b : Bytes} {k : PublicKey} :
    decode b = .ok k ↔ k.IsReadable ∧ Envelope.decode b = .ok k.envelope := by
  unfold decode
  split
  next e he => simp [he]
  next m hm =>
    obtain ⟨t, d⟩ := m
    rw [hm, ofRaw, mapError_eq_ok_iff, readRaw_eq_ok_iff]
    simp [envelope, eq_comm]

/-- Only the keys of RSA may not be read back. -/
theorem isReadable_of_keyType_ne {k : PublicKey} (h : k.keyType ≠ .rsa) : k.IsReadable := by
  cases k with
  | rsa => exact absurd rfl h
  | _ => trivial

/-- A key with the type of RSA is a key of RSA. -/
theorem eq_rsa_of_keyType {k : PublicKey} (h : k.keyType = .rsa) : ∃ r, k = rsa r := by
  cases k with
  | rsa r => exact ⟨r, rfl⟩
  | _ => cases h

/-- The accepted encodings of public keys of an algorithm. -/
def IsEncoding (t : KeyType) (b : Bytes) : Prop :=
  ∃ k, ofRaw t b = .ok k

/-- The encodings that are accepted are those of keys that are read back. -/
theorem isEncoding_iff {t : KeyType} {b : Bytes} :
    IsEncoding t b ↔ ∃ k : PublicKey, k.IsReadable ∧ k.keyType = t ∧ k.rawBytes = b := by
  simp only [IsEncoding, ofRaw, mapError_eq_ok_iff, readRaw_eq_ok_iff]

/-- What is not accepted is refused with an error that names the algorithm. -/
theorem refused_of_not_isEncoding {t : KeyType} {b : Bytes} (h : ¬ IsEncoding t b) :
    ∃ detail, ofRaw t b = .error (.decoding (some t) detail) :=
  KeyFault.exists_detail_of_ne_ok t fun k hk => h ⟨k, mapError_eq_ok_iff.mpr hk⟩

/-- Different keys of one algorithm have different encodings. -/
theorem rawBytes_injective {k l : PublicKey} (ht : k.keyType = l.keyType)
    (h : k.rawBytes = l.rawBytes) : k = l := by
  by_cases hrsa : l.keyType = .rsa
  · -- The encoding of an RSA key determines it even if it is not read back.
    obtain ⟨l, rfl⟩ := eq_rsa_of_keyType hrsa
    obtain ⟨k, rfl⟩ := eq_rsa_of_keyType ht
    exact congrArg rsa (Rsa.PublicKey.encode_injective h)
  · -- The other keys are read back from their encodings.
    have hk := readRaw_eq_ok_iff.mpr ⟨isReadable_of_keyType_ne (ht ▸ hrsa), ht, h⟩
    have hl := readRaw_eq_ok_iff.mpr ⟨isReadable_of_keyType_ne hrsa, rfl, rfl⟩
    exact Except.ok.inj (hk.symm.trans hl)

/-- Different keys have different envelopes, whether the keys are read or not. -/
theorem encode_injective {k l : PublicKey} (h : k.encode = l.encode) : k = l := by
  obtain ⟨ht, hraw⟩ := Envelope.mk.inj (Envelope.encode_injective h)
  exact rawBytes_injective ht hraw

/-! ## Reading back -/

/-- The encoding of a key that is read back is short enough for an envelope. -/
theorem length_rawBytes_lt {k : PublicKey} (h : k.IsReadable) :
    k.rawBytes.length < Varint.limit := by
  have hlimit : Der.contentsLimit < Varint.limit := by decide
  cases k with
  | rsa k =>
    have hlen := PublicKeyInfo.length_encodeRsa_lt (k.sized.byteLength_le le_rfl)
      (k.sized.byteLength_le h.2.2.le)
    exact Nat.lt_trans hlen hlimit
  | ed25519 k => exact k.length_bytes.trans_lt (by decide)
  | secp256k1 k => exact k.length_encode.trans_lt (by decide)
  | ecdsa k => exact Nat.lt_trans (PublicKeyInfo.length_encodeEc_lt _ _ _) hlimit
  | dilithium k => exact k.length_bytes.trans_lt (by decide)

/-- A key that can be read is read from its own envelope. -/
theorem decode_encode {k : PublicKey} (h : k.IsReadable) : decode k.encode = .ok k :=
  decode_eq_ok_iff.mpr ⟨h, Envelope.decode_encode (length_rawBytes_lt h)⟩

/-- Exactly the readable keys are read from their own envelopes, and nothing else is. -/
theorem decode_encode_eq_ok_iff {k l : PublicKey} :
    decode k.encode = .ok l ↔ k.IsReadable ∧ l = k := by
  constructor
  · intro h
    obtain ⟨hreadable, henvelope⟩ := decode_eq_ok_iff.mp h
    obtain ⟨-, hsame⟩ := Envelope.decode_encode_eq_ok_iff.mp henvelope
    obtain rfl : l = k := encode_injective (congrArg Envelope.encode hsame)
    exact ⟨hreadable, rfl⟩
  · rintro ⟨h, rfl⟩
    exact decode_encode h

/-- Reading and writing brings an envelope into the one form of its key. The encoding of a key that
is read is the data of the envelope; the key is written as its type, the shortest form of the length
and the encoding, which is read as the same key again; and keys that are read are equal exactly if
their written forms are. -/
theorem decode_canonical {data : Bytes} {k : PublicKey} (h : decode data = .ok k) :
    Envelope.decode data = .ok ⟨k.keyType, k.rawBytes⟩ ∧
    k.encode = 0x08 :: UInt8.ofNat k.keyType.code :: 0x12 ::
      (Varint.encode k.rawBytes.length ++ k.rawBytes) ∧
    decode k.encode = .ok k ∧
    (decode k.encode).map encode = .ok k.encode ∧
    ∀ {other : Bytes} {l : PublicKey}, decode other = .ok l → (k = l ↔ k.encode = l.encode) := by
  obtain ⟨hreadable, henvelope⟩ := decode_eq_ok_iff.mp h
  have hread := decode_encode hreadable
  refine ⟨henvelope, k.envelope.encode_eq, hread, ?_, fun _ => ⟨congrArg encode, encode_injective⟩⟩
  rw [hread]
  rfl

/-- An envelope with the data in front of the type is read, and its key is written with the type in
front. -/
theorem decode_canonical_of_swapped :
    let k := ed25519 ⟨List.replicate 32 7, by decide⟩
    decode (0x12 :: 0x20 :: (List.replicate 32 7 ++ [0x08, 0x01])) = .ok k ∧
      k.encode = 0x08 :: 0x01 :: 0x12 :: (Varint.encode 32 ++ List.replicate 32 7) ∧
      decode k.encode = .ok k := by
  intro k
  have hread : decode (0x12 :: 0x20 :: (List.replicate 32 7 ++ [0x08, 0x01])) = .ok k := by
    decide +kernel
  obtain ⟨-, hform, hagain, -⟩ := decode_canonical hread
  exact ⟨hread, hform, hagain⟩

end PublicKey

end PeerIdentity
