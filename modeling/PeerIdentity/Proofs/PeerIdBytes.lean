import PeerIdentity.Proofs.PeerIdText

/-!
# The byte forms of peer identifiers

A multihash is two numbers and a digest, and it is accepted in one form only: both numbers are
written in their shortest forms, the second counts the bytes of the digest exactly, and the first is
the number of a hash function whose digests have that length. So whatever is cut off, appended,
written longer than necessary, or of another size or function than it claims is refused.

* `Multihash.eq_of_isPrefix_encode`: no form is the beginning of another one;
* `Multihash.exists_decode_iff`: which numbers and digests make a multihash;
* `PeerId.ofBytes_eq_ok_iff`: which multihashes are those of peer identifiers;
* `PeerId.ofBytes_canonical`: what is accepted, and that everything else is a parse error.
-/

namespace PeerIdentity

namespace Multihash

/-! ## Forms -/

/-- The valid multihashes: any data that is its own hash, and hashes of 32 bytes. -/
theorem isValid_iff {m : Multihash} :
    m.IsValid ↔ m.digest.length < 2 ^ 64 ∧
      (m.code = .identity ∨ m.code = .sha256 ∧ m.digest.length = 32) := by
  have hlimit : Varint.limit = 2 ^ 64 := by decide
  rw [IsValid, hlimit]
  cases m.code <;> simp

/-- No form is the beginning of another one: the length says where the digest ends. -/
theorem eq_of_isPrefix_encode {m n : Multihash} (h : m.encode <+: n.encode) : m = n := by
  obtain ⟨rest, hrest⟩ := h
  refine encode_injective ?_
  have hnumbers := hrest
  simp only [encode, List.append_assoc] at hnumbers
  obtain ⟨-, hnumbers⟩ := Varint.encode_append_inj hnumbers
  obtain ⟨hlength, hdigest⟩ := Varint.encode_append_inj hnumbers
  -- The digests have one length, so nothing is left for the rest.
  have htotal := congrArg List.length hdigest
  rw [List.length_append] at htotal
  obtain rfl : rest = [] := List.eq_nil_of_length_eq_zero (by omega)
  rwa [List.append_nil] at hrest

/-- Two numbers and a digest make a multihash exactly if the second number is the length of the
digest, and the first is that of the identity, or that of SHA-256 with a digest of 32 bytes. -/
theorem exists_decode_iff {code length : Nat} {digest : Bytes} (hlength : length < Varint.limit) :
    (∃ m, decode (Varint.encode code ++ Varint.encode length ++ digest) = .ok m) ↔
      length = digest.length ∧ (code = 0x00 ∨ code = 0x12 ∧ length = 32) := by
  constructor
  · rintro ⟨m, hm⟩
    obtain ⟨hvalid, hform⟩ := decode_eq_ok_iff.mp hm
    rw [encode, List.append_assoc, List.append_assoc] at hform
    obtain ⟨hcode, hrest⟩ := Varint.encode_append_inj hform
    obtain ⟨rfl, rfl⟩ := Varint.encode_append_inj hrest
    rw [hcode]
    refine ⟨rfl, ?_⟩
    rcases (isValid_iff.mp hvalid).2 with h | ⟨h, h32⟩
    · exact .inl (congrArg HashCode.code h)
    · exact .inr ⟨congrArg HashCode.code h, h32⟩
  · rintro ⟨rfl, rfl | ⟨rfl, h32⟩⟩
    · exact ⟨⟨.identity, digest⟩, decode_eq_ok_iff.mpr ⟨isValid_iff.mpr ⟨hlength, .inl rfl⟩, rfl⟩⟩
    · exact ⟨⟨.sha256, digest⟩,
        decode_eq_ok_iff.mpr ⟨isValid_iff.mpr ⟨hlength, .inr ⟨rfl, h32⟩⟩, rfl⟩⟩

end Multihash

namespace PeerId

/-! ## Identifiers -/

/-- The identifiers are the multihashes whose embedded data is short, as they stand. -/
theorem ofBytes_eq_ok_iff {b : Bytes} {p : PeerId} :
    ofBytes b = .ok p ↔ p.multihash = b ∧
      ∃ m, Multihash.decode b = .ok m ∧ (m.code = .identity → m.digest.length ≤ 42) := by
  rw [ofBytes, mapError_eq_ok_iff, readBytes_eq_ok_iff]
  constructor
  · rintro ⟨m, hm, rfl, rfl⟩
    refine ⟨rfl, m, Multihash.decode_eq_ok_iff.mpr ⟨hm.isValid, rfl⟩, fun hcode => ?_⟩
    rwa [Multihash.IsPeerHash, hcode] at hm
  · rintro ⟨rfl, m, hm, hshort⟩
    obtain ⟨hvalid, hform⟩ := Multihash.decode_eq_ok_iff.mp hm
    refine ⟨m, ?_, hform, congrArg PeerId.mk hform⟩
    rw [Multihash.IsPeerHash]
    cases hcode : m.code with
    | identity => exact hshort hcode
    | sha256 => exact hvalid.2 hcode

/-- The bytes of multihashes and of peer identifiers are accepted exactly in their one form. A
multihash is read from its form when its digest has the length of its function, below `2 ^ 64` for
the identity, since longer lengths have no form. An identifier is read from the same bytes when
embedded data has at most 42 bytes, it keeps these bytes, and its hash function is then known. All
other bytes are refused by a parse error: two numbers before a digest make a multihash only if the
second is the length of the digest and the first the number of a function of that length, no
accepted bytes are the beginning of others, and equal identifiers have equal bytes. -/
theorem ofBytes_canonical :
    (∀ (b : Bytes) (code : HashCode) (digest : Bytes),
      Multihash.decode b = .ok ⟨code, digest⟩ ↔
        b = Multihash.encode ⟨code, digest⟩ ∧ digest.length < 2 ^ 64 ∧
          (code = .identity ∨ code = .sha256 ∧ digest.length = 32)) ∧
    (∀ (b : Bytes) (p : PeerId), ofBytes b = .ok p ↔ p.multihash = b ∧
      ∃ m, Multihash.decode b = .ok m ∧ p.hashCode = .ok m.code ∧
        (m.code = .identity → m.digest.length ≤ 42)) ∧
    (∀ b : Bytes, (∃ m, Multihash.decode b = .ok m) ∨
      ∃ message, Multihash.decode b = .error (.parse message)) ∧
    (∀ b : Bytes, (∃ p, ofBytes b = .ok p) ∨ ∃ message, ofBytes b = .error (.parse message)) ∧
    (∀ (code length : Nat) (digest : Bytes), length < 2 ^ 64 →
      ((∃ m, Multihash.decode (Varint.encode code ++ Varint.encode length ++ digest) = .ok m) ↔
        length = digest.length ∧ (code = 0x00 ∨ code = 0x12 ∧ length = 32))) ∧
    (∀ (a b : Bytes) (m n : Multihash), Multihash.decode a = .ok m → Multihash.decode b = .ok n →
      a <+: b → a = b) ∧
    ∀ (a b : Bytes) (p q : PeerId), ofBytes a = .ok p → ofBytes b = .ok q → (p = q ↔ a = b) := by
  have hlimit : Varint.limit = 2 ^ 64 := by decide
  refine ⟨fun b code digest => ?_, fun b p => ?_, fun b => ?_, fun b => ?_,
    fun code length digest hlength => ?_, fun a b m n ha hb hprefix => ?_,
    fun a b p q ha hb => ?_⟩
  · rw [Multihash.decode_eq_ok_iff, Multihash.isValid_iff, and_comm]
  · rw [ofBytes_eq_ok_iff]
    constructor
    · rintro ⟨rfl, m, hm, hshort⟩
      exact ⟨rfl, m, hm, map_eq_ok_iff.mpr ⟨m, hm, rfl⟩, hshort⟩
    · rintro ⟨hb, m, hm, -, hshort⟩
      exact ⟨hb, m, hm, hshort⟩
  · rw [Multihash.decode]
    cases Multihash.read b with
    | ok m => exact .inl ⟨m, rfl⟩
    | error fault => exact .inr ⟨fault.message, rfl⟩
  · rw [ofBytes]
    cases readBytes b with
    | ok p => exact .inl ⟨p, rfl⟩
    | error fault => exact .inr ⟨fault.message, rfl⟩
  · exact Multihash.exists_decode_iff (hlimit ▸ hlength)
  · obtain ⟨-, rfl⟩ := Multihash.decode_eq_ok_iff.mp ha
    obtain ⟨-, rfl⟩ := Multihash.decode_eq_ok_iff.mp hb
    rw [Multihash.eq_of_isPrefix_encode hprefix]
  · obtain ⟨rfl, -⟩ := ofBytes_eq_ok_iff.mp ha
    obtain ⟨rfl, -⟩ := ofBytes_eq_ok_iff.mp hb
    exact ⟨congrArg PeerId.multihash, congrArg PeerId.mk⟩

/-- The identity multihash of two bytes is accepted as an identifier; with a third byte, or with the
number of another function, it is no multihash. -/
theorem ofBytes_canonical_two_bytes :
    ofBytes [0x00, 0x02, 0x08, 0x01] = .ok ⟨[0x00, 0x02, 0x08, 0x01]⟩ ∧
      (¬ ∃ m, Multihash.decode [0x00, 0x02, 0x08, 0x01, 0x12] = .ok m) ∧
      ¬ ∃ m, Multihash.decode [0x13, 0x02, 0x08, 0x01] = .ok m := by
  obtain ⟨hmultihash, hidentifier, -, -, hnumbers, hprefix, -⟩ := ofBytes_canonical
  have hform : Multihash.encode ⟨.identity, [0x08, 0x01]⟩ = [0x00, 0x02, 0x08, 0x01] := by
    decide +kernel
  have hread : Multihash.decode [0x00, 0x02, 0x08, 0x01] = .ok ⟨.identity, [0x08, 0x01]⟩ :=
    (hmultihash _ _ _).mpr ⟨hform.symm, by decide, .inl rfl⟩
  have hcode : (PeerId.mk [0x00, 0x02, 0x08, 0x01]).hashCode = .ok .identity :=
    map_eq_ok_iff.mpr ⟨_, hread, rfl⟩
  refine ⟨(hidentifier _ _).mpr ⟨rfl, _, hread, hcode, fun _ => by decide⟩, ?_, ?_⟩
  · rintro ⟨m, hm⟩
    have hsame := hprefix _ _ _ _ hread hm ⟨[0x12], rfl⟩
    exact absurd hsame (by decide)
  · have hother := hnumbers 0x13 2 [0x08, 0x01] (by decide)
    rw [Varint.encode_of_lt (by decide), Varint.encode_of_lt (by decide)] at hother
    intro hm
    obtain ⟨-, hcode⟩ := hother.mp hm
    exact absurd hcode (by decide)

end PeerId

end PeerIdentity
