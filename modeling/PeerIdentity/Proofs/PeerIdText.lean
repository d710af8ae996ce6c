import PeerIdentity.PublicKey
import PeerIdentity.Proofs.Base32
import PeerIdentity.Proofs.Base58
import PeerIdentity.Proofs.Multihash

/-!
# The text forms of peer identifiers

Both text forms of a peer identifier are read back as the identifier, and the first characters of a
text tell the forms apart. A multihash with embedded data starts with a zero byte, which base 58
writes as `1`, and every SHA-256 multihash is written with `Qm` in front; content identifiers start
with `b`.

* `readBytes_eq_ok_iff`, `readCidBytes_eq_ok_iff`: the byte strings that are peer identifiers, and
  those of their content identifiers;
* `readBase58_toBase58`, `readCid_toCid`: each text form is read back;
* `looksBase58_of_readBase58`, `not_looksBase58_of_readCid`: the first characters decide;
* `ofText_lossless`: reading either text form loses nothing and confuses nothing.
-/

namespace PeerIdentity.PeerId

/-! ## Bytes -/

/-- The byte strings that are peer identifiers are the forms of their multihashes. -/
theorem readBytes_eq_ok_iff {b : Bytes} {p : PeerId} :
    readBytes b = .ok p ↔ ∃ m : Multihash, m.IsPeerHash ∧ b = m.encode ∧ p = ⟨m.encode⟩ := by
  rw [readBytes]
  constructor
  · intro h
    split at h
    next => cases h
    next m hm =>
      obtain ⟨hvalid, rfl⟩ := Multihash.read_eq_ok_iff.mp hm
      split at h
      next => cases h
      -- A digest has the length of its function already, and embedded data is short by this check.
      next hinline =>
        cases h
        refine ⟨m, ?_, rfl, rfl⟩
        obtain ⟨code, digest⟩ := m
        cases code with
        | identity => simpa [Multihash.IsPeerHash] using hinline
        | sha256 => exact hvalid.2 rfl
  · rintro ⟨m, hm, rfl, rfl⟩
    rw [Multihash.read_encode hm.isValid]
    obtain ⟨code, digest⟩ := m
    cases code with
    | identity => simpa [Multihash.IsPeerHash] using hm
    | sha256 => simp

/-- What is read from the bytes of a content identifier is an identifier with these bytes. -/
theorem readCidBytes_eq_ok_iff {b : Bytes} {p : PeerId} :
    readCidBytes b = .ok p ↔ readBytes p.multihash = .ok p ∧ b = p.cidBytes := by
  have hversion : cidVersion < Varint.limit := by decide
  have hcodec : keyCodec < Varint.limit := by decide
  constructor
  · intro h
    rw [readCidBytes] at h
    split at h
    next => cases h
    next version rest hfirst =>
      -- Numbers are read in their shortest form only, which determines the bytes.
      obtain ⟨-, rfl⟩ := Varint.eq_encode_append_of_read hfirst
      split at h
      next => cases h
      next codec multihash hsecond =>
        obtain ⟨-, rfl⟩ := Varint.eq_encode_append_of_read hsecond
        split at h
        next => cases h
        next hv =>
          split at h
          next => cases h
          next hc =>
            obtain rfl : version = cidVersion := by simpa using hv
            obtain rfl : codec = keyCodec := by simpa using hc
            obtain ⟨m, -, rfl, rfl⟩ := readBytes_eq_ok_iff.mp h
            exact ⟨h, by rw [cidBytes, List.append_assoc]⟩
  · rintro ⟨hbytes, rfl⟩
    rw [readCidBytes, cidBytes, List.append_assoc, Varint.read_encode hversion]
    simp only [Varint.read_encode hcodec]
    simpa using hbytes

/-! ## Text forms -/

/-- An identifier that passes the checks on bytes is read back from its text in base 58. -/
theorem readBase58_toBase58 {p : PeerId} (h : readBytes p.multihash = .ok p) :
    readBase58 p.toBase58 = .ok p := by
  rw [readBase58, toBase58, Base58.decode_encode]
  exact h

/-- An identifier that passes the checks on bytes is read back from its content identifier. -/
theorem readCid_toCid {p : PeerId} (h : readBytes p.multihash = .ok p) :
    readCid p.toCid = .ok p := by
  rw [readCid, toCid, String.toList_ofList]
  simp only [Base32.decode_upperAscii_encode]
  exact readCidBytes_eq_ok_iff.mpr ⟨h, rfl⟩

/-! ## First characters -/

/-- The forms of the multihashes of peer identifiers look like base 58. -/
theorem looksBase58_encode {m : Multihash} (h : m.IsPeerHash) :
    looksBase58 (Base58.encode m.encode).toList = true := by
  obtain ⟨code, digest⟩ := m
  cases code with
  | identity =>
    -- The code zero is the first byte.
    have hform : Multihash.encode ⟨.identity, digest⟩ =
        0 :: (Varint.encode digest.length ++ digest) := by
      rw [Multihash.encode, HashCode.code, Varint.encode_of_lt (by decide)]
      simp
    have hhead := Base58.encode_lead_zero (Varint.encode digest.length ++ digest)
    rw [hform]
    cases htext : (Base58.encode (0 :: (Varint.encode digest.length ++ digest))).toList with
    | nil => simp [htext] at hhead
    | cons c s =>
      obtain rfl : c = '1' := by simpa [htext] using hhead
      rfl
  | sha256 =>
    have hlen : digest.length = 32 := h
    -- The code and the length are the first two bytes.
    have hform : Multihash.encode ⟨.sha256, digest⟩ = 0x12 :: 0x20 :: digest := by
      rw [Multihash.encode, HashCode.code, hlen, Varint.encode_of_lt (by decide),
        Varint.encode_of_lt (by decide)]
      rfl
    obtain ⟨s, hs⟩ := Base58.encode_sha256_form hlen
    rw [hform, hs]
    rfl

/-- A text that is read in base 58 looks like it. -/
theorem looksBase58_of_readBase58 {s : String} {p : PeerId} (h : readBase58 s = .ok p) :
    looksBase58 s.toList = true := by
  rw [readBase58] at h
  split at h
  next => cases h
  next b hb =>
    obtain ⟨m, hm, rfl, -⟩ := readBytes_eq_ok_iff.mp h
    rw [← Base58.encode_of_decode hb]
    exact looksBase58_encode hm

/-- A text that is read as a content identifier does not look like base 58. -/
theorem not_looksBase58_of_readCid {s : String} {p : PeerId} (h : readCid s = .ok p) :
    looksBase58 s.toList = false := by
  unfold readCid at h
  split at h
  next body hbody =>
    rw [hbody]
    rfl
  next => cases h

/-! ## Both forms -/

/-- Either text form is read by its own reader. -/
theorem ofText_eq_ok_iff {s : String} {p : PeerId} :
    ofText s = .ok p ↔ ofBase58 s = .ok p ∨ ofCid s = .ok p := by
  rw [ofText, ofBase58, ofCid, mapError_eq_ok_iff, mapError_eq_ok_iff,
    mapError_eq_ok_iff, readText]
  constructor
  · intro h
    split at h
    next => exact .inl h
    next => exact .inr h
  · rintro (h | h)
    · rwa [if_pos (looksBase58_of_readBase58 h)]
    · rwa [if_neg (by simp [not_looksBase58_of_readCid h])]

/-- The text forms lose nothing, and a text is read in one of them at most. Every identifier with
embedded data of at most 42 bytes or with a SHA-256 digest is read back from both of its texts, so
is the identifier of every byte string and of every public key, and a text is accepted exactly if
one of the two readers accepts it, which the other then does not. -/
theorem ofText_lossless :
    (∀ (p : PeerId) (m : Multihash), m.IsPeerHash → p.multihash = m.encode →
      ofText p.toBase58 = .ok p ∧ ofText p.toCid = .ok p) ∧
    (∀ data : Bytes, (Multihash.ofData data).IsPeerHash) ∧
    (∀ k : PublicKey, ofText k.peerId.toBase58 = .ok k.peerId ∧
      ofText k.peerId.toCid = .ok k.peerId) ∧
    (∀ (s : String) (p : PeerId), ofText s = .ok p ↔ ofBase58 s = .ok p ∨ ofCid s = .ok p) ∧
    (∀ (s : String) (p q : PeerId), ¬ (ofBase58 s = .ok p ∧ ofCid s = .ok q)) := by
  have hforms : ∀ (p : PeerId) (m : Multihash), m.IsPeerHash → p.multihash = m.encode →
      ofText p.toBase58 = .ok p ∧ ofText p.toCid = .ok p := by
    rintro ⟨b⟩ m hm rfl
    have hbytes := readBytes_eq_ok_iff.mpr ⟨m, hm, rfl, rfl⟩
    rw [ofText_eq_ok_iff, ofText_eq_ok_iff]
    exact ⟨.inl (mapError_eq_ok_iff.mpr (readBase58_toBase58 hbytes)),
      .inr (mapError_eq_ok_iff.mpr (readCid_toCid hbytes))⟩
  refine ⟨hforms, Multihash.isPeerHash_ofData, fun k => ?_, fun s p => ofText_eq_ok_iff, ?_⟩
  · exact hforms k.peerId (Multihash.ofData k.encode) (Multihash.isPeerHash_ofData _) rfl
  -- The first characters of a text that both read would contradict each other.
  · rintro s p q ⟨hp, hq⟩
    have hbase := looksBase58_of_readBase58 (mapError_eq_ok_iff.mp hp)
    have hcid := not_looksBase58_of_readCid (mapError_eq_ok_iff.mp hq)
    rw [hbase] at hcid
    cases hcid

end PeerIdentity.PeerId
