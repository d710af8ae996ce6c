import PeerIdentity.Proofs.Refusal

/-!
# Truncated keys are refused

The written form of a message is its type, in two bytes, and its data, as a tag, a length and as
many bytes. Where such a form is cut off decides what is missed:

* before the type, the type itself;
* inside the type or the length, the rest of an integer;
* inside the data, the bytes that the length announces;
* between the type and the data, nothing: what is left is a message without data, which the reader
  of the type refuses, since no key has an empty encoding.

The module introduces:

* `Envelope.decode_of_isPrefix`: what is read from the beginning of a written form;
* `Envelope.eq_of_isPrefix_encode`: no written form is the beginning of another one;
* `truncated_refused`: no beginning of a written key or keypair is accepted.
-/

namespace PeerIdentity

namespace Envelope

/-! ## Beginnings of written forms -/

/-- No written form is the beginning of another one: the type and the length say where it ends. -/
theorem eq_of_isPrefix_encode {m n : Envelope} (h : m.encode <+: n.encode) : m = n := by
  obtain ⟨t, d⟩ := m
  obtain ⟨u, e⟩ := n
  obtain ⟨rest, hrest⟩ := h
  simp only [encode, List.cons_append, List.append_assoc, List.cons.injEq, true_and] at hrest
  obtain ⟨hcode, hrest⟩ := Varint.encode_append_inj hrest
  obtain ⟨hlength, hdata⟩ := Varint.encode_append_inj (List.cons.inj hrest).2
  have htype : t = u := by
    have hread := KeyType.ofCode?_code t
    rw [hcode, KeyType.ofCode?_code u] at hread
    exact (Option.some.inj hread).symm
  rw [htype, (List.append_inj (hdata.trans (List.append_nil e).symm) hlength).1]

/-- A type without data is a message of that type. -/
theorem decode_type (t : KeyType) : decode [0x08, UInt8.ofNat t.code] = .ok ⟨t, []⟩ := by
  have hcode : t.code < Varint.limit := by cases t <;> decide
  have hfield := @FieldForm.mk 1 0 _ _ (by decide) (by decide) (.keyType hcode)
  rw [Varint.encode_of_lt (by decide), Varint.encode_of_lt (by cases t <;> decide)] at hfield
  have hlast : IsLast Field.code? [.keyType t.code] t.code := ⟨[], _, [], rfl, rfl, by simp⟩
  have hwrites : Writes [.keyType t.code] [0x08, UInt8.ofNat t.code] := .cons hfield .nil
  rw [decode_of_writes hwrites, ofFields_of_known hlast]
  rfl

/-- The tag of the type alone writes no fields. -/
theorem not_writes_tag : ¬ ∃ fs, Writes fs [0x08] := by
  rintro ⟨fs, h⟩
  have htag : Varint.encode 8 ++ [] = [0x08] := by rw [Varint.encode_of_lt (by decide)]; rfl
  rw [← htag] at h
  obtain ⟨f, _, v, _, hvalue, -, hnil⟩ := h.value_of_tag
  obtain ⟨rfl, -⟩ := List.append_eq_nil_iff.mp hnil.symm
  generalize hw : ([] : Bytes) = w at hvalue
  cases hvalue with
  | keyType => exact Varint.encode_ne_nil _ hw.symm
  | integer hnumber => omega

/-- A type that is followed by the tag of the data and a strict beginning of a length and its bytes
writes no fields. -/
theorem not_writes_of_cut {t : KeyType} {d b rest : Bytes} (hne : rest ≠ [])
    (hcut : b ++ rest = Varint.encode d.length ++ d) :
    ¬ ∃ fs, Writes fs (0x08 :: UInt8.ofNat t.code :: 0x12 :: b) := by
  rintro ⟨fs, h⟩
  have htags : 0x08 :: UInt8.ofNat t.code :: 0x12 :: b =
      Varint.encode 8 ++ (Varint.encode t.code ++ (Varint.encode 18 ++ b)) := by
    rw [Varint.encode_of_lt (by decide : 8 < 128), Varint.encode_of_lt (by decide : 18 < 128),
      Varint.encode_of_lt (by cases t <;> decide : t.code < 128)]
    rfl
  rw [htags] at h
  -- The tags leave only a type as the first field, and only data as the second.
  obtain ⟨_, _, _, _, hvalue, hfields, heq⟩ := h.value_of_tag
  cases hvalue with
  | integer hnumber => omega
  | keyType =>
    obtain ⟨-, rfl⟩ := Varint.encode_append_inj heq
    obtain ⟨_, _, _, after, hdata, -, rfl⟩ := hfields.value_of_tag
    cases hdata with
    | bytes hnumber => omega
    | data =>
      rename_i d' _
      -- The two lengths are one, so the data that was read leaves nothing for the rest.
      rw [List.append_assoc, List.append_assoc] at hcut
      obtain ⟨hlength, hbytes⟩ := Varint.encode_append_inj hcut
      have htotal := congrArg List.length hbytes
      simp only [List.length_append] at htotal
      exact hne (List.eq_nil_of_length_eq_zero (by omega))

/-- What is read from a strict beginning of a written form. The first two bytes are a message
without data, and every other beginning is refused. -/
theorem decode_of_isPrefix {m : Envelope} {b : Bytes} (h : b <+: m.encode)
    (hlt : b.length < m.encode.length) :
    (b.length = 2 ∧ decode b = .ok ⟨m.keyType, []⟩) ∨
      b.length ≠ 2 ∧ ∃ e, decode b = .error e := by
  obtain ⟨rest, hrest⟩ := h
  have hne : rest ≠ [] := by
    rintro rfl
    rw [List.append_nil] at hrest
    exact absurd (congrArg List.length hrest) (Nat.ne_of_lt hlt)
  rw [encode_eq] at hrest
  -- A form is the tag and the code of the type, the tag of the data, and the data with its length.
  match b, hrest with
  | [], _ =>
    refine .inr ⟨by decide, .unsupportedKeyType none, ?_⟩
    rw [decode_of_writes .nil, ofFields_of_no_code (by simp)]
    rfl
  | [tag], hrest =>
    obtain rfl : tag = 0x08 := (List.cons.inj hrest).1
    obtain ⟨detail, hrefused⟩ := decode_of_not_writes not_writes_tag
    exact .inr ⟨by simp, _, hrefused⟩
  | [tag, code], hrest =>
    simp only [List.cons_append, List.cons.injEq] at hrest
    obtain ⟨rfl, rfl, -⟩ := hrest
    exact .inl ⟨rfl, decode_type m.keyType⟩
  | tag :: code :: tag' :: b, hrest =>
    simp only [List.cons_append, List.cons.injEq] at hrest
    obtain ⟨rfl, rfl, rfl, hcut⟩ := hrest
    obtain ⟨detail, hrefused⟩ := decode_of_not_writes (not_writes_of_cut hne hcut)
    exact .inr ⟨by simp, _, hrefused⟩

end Envelope

/-! ## Beginnings of written keys -/

/-- A reader of keys in envelopes refuses every strict beginning of a written form if it refuses
empty data. The error names the type of the key exactly if the beginning is the type alone. -/
theorem KeepsContext.refuses_isPrefix {α : Type} {typeOf : α → KeyType}
    {ofRaw : KeyType → Bytes → Except IdentityError α} {decode : Bytes → Except IdentityError α}
    (hdecode : KeepsContext typeOf ofRaw decode)
    (hempty : ∀ t, ∃ detail, ofRaw t [] = .error (.decoding (some t) detail))
    {m : Envelope} {b : Bytes} (h : b <+: m.encode) (hlt : b.length < m.encode.length) :
    ∃ e, decode b = .error e ∧ e.IsDecoding ∧
      e.keyType? = if b.length = 2 then some m.keyType else none := by
  obtain ⟨hlen, henvelope⟩ | ⟨hlen, e, henvelope⟩ := Envelope.decode_of_isPrefix h hlt
  · obtain ⟨detail, hrefused⟩ := hempty m.keyType
    have hread := (hdecode.contents b _ m.keyType).mpr ⟨[], detail, henvelope, hrefused, rfl⟩
    exact ⟨_, hread.1, hdecode.isDecoding _ _ hread.1, by rw [if_pos hlen, hread.2]⟩
  · have hread := (hdecode.envelope b e).mpr henvelope
    exact ⟨e, hread.1, hdecode.isDecoding _ _ hread.1, by rw [if_neg hlen, hread.2]⟩

/-- No public key has an empty encoding. -/
theorem PublicKey.ofRaw_nil (t : KeyType) :
    ∃ detail, ofRaw t [] = .error (.decoding (some t) detail) := by
  cases t <;> exact ⟨_, rfl⟩

/-- No keypair has an empty encoding. -/
theorem Keypair.ofRaw_nil (t : KeyType) :
    ∃ detail, ofRaw t [] = .error (.decoding (some t) detail) := by
  cases t <;> exact ⟨_, rfl⟩

/-- Truncated keys are refused. Every strict beginning of the written form of a public key is
refused as a public key, and every strict beginning of that of a keypair as a keypair, by a decoding
error, which names the type of the key exactly if the type is all that is left. So no written form
of a public key is the beginning of that of another one, and likewise for keypairs. -/
theorem truncated_refused :
    (∀ (k : PublicKey) (b : Bytes), b <+: k.encode → b.length < k.encode.length →
      ∃ e, PublicKey.decode b = .error e ∧ e.IsDecoding ∧
        e.keyType? = if b.length = 2 then some k.keyType else none) ∧
    (∀ (k : Keypair) (b : Bytes), b <+: k.encode → b.length < k.encode.length →
      ∃ e, Keypair.decode b = .error e ∧ e.IsDecoding ∧
        e.keyType? = if b.length = 2 then some k.keyType else none) ∧
    (∀ k l : PublicKey, k.encode <+: l.encode → k = l) ∧
    ∀ k l : Keypair, k.encode <+: l.encode → k = l := by
  refine ⟨fun k b h hlt => ?_, fun k b h hlt => ?_, fun k l h => ?_, fun k l h => ?_⟩
  · exact PublicKey.keepsContext_decode.refuses_isPrefix PublicKey.ofRaw_nil h hlt
  · exact Keypair.keepsContext_decode.refuses_isPrefix Keypair.ofRaw_nil h hlt
  · exact PublicKey.encode_injective (congrArg Envelope.encode (Envelope.eq_of_isPrefix_encode h))
  -- A keypair is read back from its written form.
  · have hsame : k.encode = l.encode :=
      congrArg Envelope.encode (Envelope.eq_of_isPrefix_encode h)
    have hread := k.decode_encode
    rw [hsame, l.decode_encode] at hread
    exact (Except.ok.inj hread).symm

/-- Of the keypair of a secret of 32 bytes the type alone is refused, by the reader of the type. -/
theorem truncated_refused_type :
    let secret := List.replicate 32 7
    let k := Keypair.ed25519
      ⟨secret, ⟨Ed25519.derive secret, Ed25519.length_derive secret⟩, by decide, rfl⟩
    [0x08, 0x01] <+: k.encode ∧ [0x08, 0x01].length < k.encode.length ∧
      ∃ e, Keypair.decode [0x08, 0x01] = .error e ∧ e.IsDecoding ∧ e.keyType? = some .ed25519 := by
  intro secret k
  have hform : k.encode = 0x08 :: 0x01 :: 0x12 :: (Varint.encode k.rawBytes.length ++ k.rawBytes) :=
    k.envelope.encode_eq
  have hbegins : [0x08, 0x01] <+: k.encode := by
    rw [hform]
    exact List.prefix_append [0x08, 0x01] _
  have hlt : [0x08, 0x01].length < k.encode.length := by
    rw [hform]
    simp
  exact ⟨hbegins, hlt, truncated_refused.2.1 k _ hbegins hlt⟩

end PeerIdentity
