import PeerIdentity.Multihash
import PeerIdentity.Proofs.Result
import PeerIdentity.Proofs.Varint

/-!
# Multihashes have one form

Reading accepts exactly the forms of multihashes whose digest has the length of its hash function:

* `Multihash.IsValid`: a SHA-256 digest has 32 bytes, and every length has a form;
* `Multihash.read_eq_ok_iff`: what is read is valid and was written by `encode`;
* `Multihash.IsPeerHash`: the multihashes of peer identifiers, whose embedded data is short;
* `Multihash.ofData_eq_iff`: different data has different multihashes, but for collisions of
  SHA-256.
-/

namespace PeerIdentity

/-- The code of a hash function is read back. -/
theorem HashCode.ofCode?_code (c : HashCode) : ofCode? c.code = some c := by
  cases c <;> rfl

/-- A number that is read as a hash function is the code of it. -/
theorem HashCode.eq_code_of_ofCode? {n : Nat} {c : HashCode} (h : ofCode? n = some c) :
    n = c.code := by
  unfold ofCode? at h
  split at h
  next h0 =>
    cases h
    exact h0
  next =>
    split at h
    next h0 =>
      cases h
      exact h0
    next => cases h

/-- The codes of hash functions are integers that are read. -/
theorem HashCode.code_lt_limit (c : HashCode) : c.code < Varint.limit := by
  cases c <;> decide

namespace Multihash

/-- The digest has the length of the hash function, and a length that has a form. -/
def IsValid (m : Multihash) : Prop :=
  m.digest.length < Varint.limit ∧ (m.code = .sha256 → m.digest.length = 32)

/-- The multihashes of peer identifiers: embedded data of at most 42 bytes, or a SHA-256 digest. -/
def IsPeerHash (m : Multihash) : Prop :=
  match m.code with
  | .identity => m.digest.length ≤ maxInlineLength
  | .sha256 => m.digest.length = 32

/-- The hashes of peers are valid. -/
theorem IsPeerHash.isValid {m : Multihash} (h : m.IsPeerHash) : m.IsValid := by
  obtain ⟨code, digest⟩ := m
  have hlimit : Varint.limit = 0x10000000000000000 := rfl
  cases code with
  | identity =>
    have hlen : digest.length ≤ 42 := h
    exact ⟨by simp only; omega, nofun⟩
  | sha256 =>
    have hlen : digest.length = 32 := h
    exact ⟨by simp only; omega, fun _ => hlen⟩

/-- The multihash of an encoded public key is one of a peer identifier. -/
theorem isPeerHash_ofData (data : Bytes) : (ofData data).IsPeerHash := by
  rw [ofData]
  split
  next h => exact h
  next => exact length_sha256 data

/-- A valid multihash is read back. -/
theorem read_encode {m : Multihash} (h : m.IsValid) : read m.encode = .ok m := by
  obtain ⟨code, digest⟩ := m
  obtain ⟨hlen, hsha⟩ := h
  rw [read, encode, List.append_assoc, Varint.read_encode code.code_lt_limit]
  simp only [Varint.read_encode hlen, HashCode.ofCode?_code]
  cases code with
  | identity => simp
  | sha256 => simpa using hsha rfl

/-- What is read is valid and was written. -/
theorem eq_encode_of_read {b : Bytes} {m : Multihash} (h : read b = .ok m) :
    m.IsValid ∧ b = m.encode := by
  unfold read at h
  split at h
  next => cases h
  next n rest hn =>
    -- The code and the length were read from their one form each, and the digest is what is left.
    obtain ⟨-, rfl⟩ := Varint.eq_encode_append_of_read hn
    split at h
    next => cases h
    next length digest hlength =>
      obtain ⟨hlt, rfl⟩ := Varint.eq_encode_append_of_read hlength
      split at h
      next => cases h
      next hdigest =>
        obtain rfl : digest.length = length := by simpa using hdigest
        split at h
        next => cases h
        next hcode =>
          obtain rfl := HashCode.eq_code_of_ofCode? hcode
          cases h
          exact ⟨⟨hlt, nofun⟩, by simp [encode]⟩
        next hcode =>
          obtain rfl := HashCode.eq_code_of_ofCode? hcode
          split at h
          next => cases h
          next h32 =>
            cases h
            exact ⟨⟨hlt, fun _ => by simpa using h32⟩, by simp [encode]⟩

/-- Reading accepts exactly the forms of valid multihashes. -/
theorem read_eq_ok_iff {b : Bytes} {m : Multihash} : read b = .ok m ↔ m.IsValid ∧ b = m.encode := by
  constructor
  · exact eq_encode_of_read
  · rintro ⟨hm, rfl⟩
    exact read_encode hm

/-- The bytes that are read as a multihash are those of a valid one, in its one form. -/
theorem decode_eq_ok_iff {b : Bytes} {m : Multihash} :
    decode b = .ok m ↔ m.IsValid ∧ b = m.encode := by
  rw [← read_eq_ok_iff, decode, mapError_eq_ok_iff]

/-- Different multihashes have different forms, valid or not. -/
theorem encode_injective {m n : Multihash} (h : m.encode = n.encode) : m = n := by
  obtain ⟨c, d⟩ := m
  obtain ⟨c', d'⟩ := n
  simp only [encode, List.append_assoc] at h
  obtain ⟨hcode, h⟩ := Varint.encode_append_inj h
  obtain ⟨-, rfl⟩ := Varint.encode_append_inj h
  have hread := HashCode.ofCode?_code c
  rw [hcode, HashCode.ofCode?_code c'] at hread
  rw [Option.some.inj hread]

/-! ## Data -/

/-- Two byte strings that are too long to be embedded, and have one SHA-256 digest. -/
def IsCollision (a b : Bytes) : Prop :=
  maxInlineLength < a.length ∧ maxInlineLength < b.length ∧ a ≠ b ∧
    PeerIdentity.sha256 a = PeerIdentity.sha256 b

/-- Short data is its own hash. -/
theorem ofData_of_le {data : Bytes} (h : data.length ≤ maxInlineLength) :
    ofData data = identity data :=
  if_pos h

/-- Longer data is hashed. -/
theorem ofData_of_lt {data : Bytes} (h : maxInlineLength < data.length) :
    ofData data = sha256 data :=
  if_neg (Nat.not_le.mpr h)

/-- Data is told apart by its multihash, but for collisions. -/
theorem ofData_eq_iff {a b : Bytes} : ofData a = ofData b ↔ a = b ∨ IsCollision a b := by
  constructor
  · intro h
    rcases Nat.lt_or_ge maxInlineLength a.length with ha | ha <;>
      rcases Nat.lt_or_ge maxInlineLength b.length with hb | hb
    · rw [ofData_of_lt ha, ofData_of_lt hb] at h
      by_cases hab : a = b
      · exact .inl hab
      · exact .inr ⟨ha, hb, hab, (Multihash.mk.inj h).2⟩
    -- Embedded and hashed data have multihashes of different codes.
    · rw [ofData_of_lt ha, ofData_of_le hb] at h
      cases (Multihash.mk.inj h).1
    · rw [ofData_of_le ha, ofData_of_lt hb] at h
      cases (Multihash.mk.inj h).1
    · rw [ofData_of_le ha, ofData_of_le hb] at h
      exact .inl (Multihash.mk.inj h).2
  · rintro (rfl | ⟨ha, hb, -, hdigest⟩)
    · rfl
    · rw [ofData_of_lt ha, ofData_of_lt hb, sha256, sha256, hdigest]

end Multihash

end PeerIdentity
