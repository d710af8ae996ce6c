import PeerIdentity.Proofs.Envelope

/-!
# Envelopes one after the other

The fields of two messages, one behind the other, are the fields of one message, in which the last
type and the last data win. So a message is merged with what follows it: each of the two last values
is that of the second message, or that of the first one when the second has none.

Errors are merged too. Every reader is local: it stops where a value ends, it finds the same fault
in longer bytes unless the bytes end too early, and it reports only positions within its bytes.

* `IsLocal`: local readers, with one lemma for each reader of the module;
* `fields_append_of_writes`, `fields_append_of_error`: the fields of bytes one behind the other;
* `decode_append_of_writes`: the merged message, from the last values of both;
* `decode_append_of_malformed`, `decode_append_of_error`: the errors of bytes one behind the other;
* `decode_append_merges`: messages and errors together.
-/

namespace PeerIdentity.Envelope

/-! ## Faults -/

/-- The faults of bytes that end too early. -/
def Fault.IsShort : Fault → Prop
  | varint .truncated _ | shortData .. | truncatedFixed => True
  | _ => False

/-- The fault of bytes after which `count` more are left. -/
def Fault.followedBy (count : Nat) : Fault → Fault
  | varint fault left => varint fault (left + count)
  | other => other

/-- The position that a fault reports, if it does, lies within bytes of a length. -/
def Fault.IsWithin (length : Nat) : Fault → Prop
  | varint _ left => left ≤ length
  | _ => True

/-- A position within some bytes is a position within more bytes. -/
theorem Fault.IsWithin.mono {fault : Fault} {m n : Nat} (h : fault.IsWithin m) (hmn : m ≤ n) :
    fault.IsWithin n := by
  cases fault with
  | varint => exact Nat.le_trans h hmn
  | _ => trivial

/-- A reader that is local: what follows the bytes that it reads plays no part, nor does what
follows bytes that it refuses, unless they end too early, and the positions that it reports lie
within its bytes. -/
structure IsLocal {α : Type} (read : Bytes → Except Fault (α × Bytes)) : Prop where
  ok {b rest : Bytes} {a : α} (h : read b = .ok (a, rest)) (c : Bytes) :
    read (b ++ c) = .ok (a, rest ++ c)
  error {b : Bytes} {fault : Fault} (h : read b = .error fault) (hshort : ¬ fault.IsShort)
    (c : Bytes) : read (b ++ c) = .error (fault.followedBy c.length)
  within {b : Bytes} {fault : Fault} (h : read b = .error fault) : fault.IsWithin b.length

/-! ## Local readers -/

/-- What follows an integer plays no part in reading it. -/
theorem isLocal_readVarint : IsLocal readVarint where
  ok h c := by
    obtain ⟨hn, rfl⟩ := readVarint_eq_ok_iff.mp h
    rw [List.append_assoc]
    exact readVarint_eq_ok_iff.mpr ⟨hn, rfl⟩
  error {b fault} h hshort c := by
    unfold readVarint at h ⊢
    split at h
    next => cases h
    next f hf =>
      cases h
      -- A truncated integer is the only one that more bytes can complete.
      have htruncated : f ≠ .truncated := by
        rintro rfl
        exact hshort trivial
      rw [Varint.read_append_of_error hf htruncated, List.length_append]
      rfl
  within {b fault} h := by
    unfold readVarint at h
    split at h
    next => cases h
    next =>
      cases h
      exact Nat.le_refl b.length

/-- What follows data plays no part in reading it. -/
theorem isLocal_readData : IsLocal readData where
  ok h c := by
    obtain ⟨hd, rfl⟩ := readData_eq_ok_iff.mp h
    rw [List.append_assoc]
    exact readData_eq_ok_iff.mpr ⟨hd, rfl⟩
  error {b fault} h hshort c := by
    unfold readData at h ⊢
    split at h
    next f hf =>
      cases h
      rw [isLocal_readVarint.error hf hshort]
    next n rest hn =>
      split at h
      -- The length was read and its bytes are not all there, so more bytes can complete the data.
      next => cases h
      next =>
        cases h
        exact absurd trivial hshort
  within {b fault} h := by
    unfold readData at h
    split at h
    next f hf =>
      cases h
      exact isLocal_readVarint.within hf
    next =>
      split at h
      next => cases h
      next =>
        cases h
        trivial

/-- What follows bytes of a fixed width plays no part in skipping them. -/
theorem isLocal_skip (width : Nat) : IsLocal (skip width) where
  ok h c := by
    obtain ⟨rfl, w, hw, rfl⟩ := skip_eq_ok_iff.mp h
    rw [List.append_assoc]
    exact skip_eq_ok_iff.mpr ⟨rfl, w, hw, rfl⟩
  error {b fault} h hshort c := by
    unfold skip at h
    split at h
    next => cases h
    next =>
      cases h
      exact absurd trivial hshort
  within {b fault} h := by
    unfold skip at h
    split at h
    next => cases h
    next =>
      cases h
      trivial

/-- A local reader stays one when its values are taken for fields. -/
theorem IsLocal.asField {α : Type} {read : Bytes → Except Fault (α × Bytes)} (hread : IsLocal read)
    (field : α → Field) : IsLocal fun b => Envelope.asField field (read b) where
  ok h c := by
    obtain ⟨a, ha, rfl⟩ := asField_eq_ok_iff.mp h
    exact asField_eq_ok_iff.mpr ⟨a, hread.ok ha c, rfl⟩
  error {b fault} h hshort c := by
    cases hb : read b with
    | ok => simp [hb, Envelope.asField] at h
    | error f =>
      obtain rfl : f = fault := by simpa [hb, Envelope.asField] using h
      simp only [hread.error hb hshort c, Envelope.asField]
  within {b fault} h := by
    cases hb : read b with
    | ok => simp [hb, Envelope.asField] at h
    | error f =>
      obtain rfl : f = fault := by simpa [hb, Envelope.asField] using h
      exact hread.within hb

/-- A reader that refuses everything is local if its fault reports no position. -/
theorem isLocal_refuse {α : Type} {fault : Fault} (hfault : ∀ f left, fault ≠ .varint f left) :
    IsLocal fun _ : Bytes => (.error fault : Except Fault (α × Bytes)) where
  ok h := by cases h
  error h _ c := by
    cases h
    cases fault with
    | varint f left => exact absurd rfl (hfault f left)
    | _ => rfl
  within h := by
    cases h
    cases fault with
    | varint f left => exact absurd rfl (hfault f left)
    | _ => trivial

/-- What follows the value of a field plays no part in reading it. -/
theorem isLocal_readValue (number form : Nat) : IsLocal (readValue number form) := by
  -- The number is reserved (0), that of the type (1), that of the data (2), or of any other field.
  obtain rfl | rfl | rfl | hnumber : number = 0 ∨ number = 1 ∨ number = 2 ∨ 3 ≤ number := by omega
  · exact isLocal_refuse (by simp)
  · by_cases hform : form = 0
    · subst hform
      exact isLocal_readVarint.asField .keyType
    · have hrefuse : readValue 1 form = fun _ => .error (.typeForm form) := by
        funext b
        simp [readValue, hform]
      rw [hrefuse]
      exact isLocal_refuse (by simp)
  · by_cases hform : form = 2
    · subst hform
      exact isLocal_readData.asField .data
    · have hrefuse : readValue 2 form = fun _ => .error (.dataForm form) := by
        funext b
        simp [readValue, hform]
      rw [hrefuse]
      exact isLocal_refuse (by simp)
  · simp only [funext (readValue_of_le hnumber form)]
    split
    · exact isLocal_readVarint.asField fun _ => .unknown
    · exact isLocal_skip 8
    · exact isLocal_readData.asField fun _ => .unknown
    · exact isLocal_skip 4
    · exact isLocal_refuse (by simp)

/-- What follows a field plays no part in reading it. -/
theorem Field.isLocal_read : IsLocal Field.read where
  ok h c := by
    obtain ⟨w, hw, rfl⟩ := Field.read_eq_ok_iff.mp h
    rw [List.append_assoc]
    exact Field.read_eq_ok_iff.mpr ⟨w, hw, rfl⟩
  error {b fault} h hshort c := by
    unfold Field.read at h ⊢
    split at h
    next f hf =>
      cases h
      rw [isLocal_readVarint.error hf hshort]
    next tag rest htag =>
      rw [isLocal_readVarint.ok htag]
      exact (isLocal_readValue _ _).error h hshort c
  within {b fault} h := by
    unfold Field.read at h
    split at h
    next f hf =>
      cases h
      exact isLocal_readVarint.within hf
    next tag rest htag =>
      exact ((isLocal_readValue _ _).within h).mono (Nat.le_of_lt (length_readVarint htag))

/-! ## Lists of fields -/

/-- A field that is read is the first of the fields, and the others are in the rest. -/
theorem fields_of_read_ok {b rest : Bytes} {f : Field} (h : Field.read b = .ok (f, rest)) :
    fields b = (fields rest).map (f :: ·) := by
  have hb : b ≠ [] := by
    rintro rfl
    exact Nat.not_lt_zero _ (Field.length_read h)
  rw [fields, if_neg hb]
  split
  next fault hfault => rw [h] at hfault; cases hfault
  next f' rest' hread =>
    rw [h] at hread
    cases hread
    cases fields rest <;> rfl

/-- A fault of the first field is one of the whole message. -/
theorem fields_of_read_error {b : Bytes} {fault : Fault} (hb : b ≠ [])
    (h : Field.read b = .error fault) : fields b = .error fault := by
  rw [fields, if_neg hb]
  split
  next fault' hfault =>
    rw [h] at hfault
    cases hfault
    rfl
  next hread => rw [h] at hread; cases hread

/-- The fields of bytes behind a list of fields. -/
theorem fields_append_of_writes {fs : List Field} {a : Bytes} (h : Writes fs a) (b : Bytes) :
    fields (a ++ b) = (fields b).map (fs ++ ·) := by
  induction h with
  | nil =>
    rw [List.nil_append]
    cases fields b <;> rfl
  | @cons f fs w rest hf _ ih =>
    have hread : Field.read (w ++ (rest ++ b)) = .ok (f, rest ++ b) :=
      Field.read_eq_ok_iff.mpr ⟨w, hf, rfl⟩
    rw [List.append_assoc, fields_of_read_ok hread, ih]
    cases fields b <;> rfl

/-- Bytes that write no fields are refused with the same fault whatever follows, unless they end too
early. -/
theorem fields_append_of_error {a : Bytes} {fault : Fault} (h : fields a = .error fault)
    (hshort : ¬ fault.IsShort) (b : Bytes) :
    fields (a ++ b) = .error (fault.followedBy b.length) := by
  fun_induction fields a with
  | case1 => cases h
  | case2 a ha f hread =>
    cases h
    exact fields_of_read_error (by simp [ha]) (Field.isLocal_read.error hread hshort b)
  | case3 a ha f rest hread f' hrest ih =>
    cases h
    rw [fields_of_read_ok (Field.isLocal_read.ok hread b), ih hrest]
    rfl
  | case4 => cases h

/-- The position that is reported lies within the bytes. -/
theorem isWithin_of_fields {b : Bytes} {fault : Fault} (h : fields b = .error fault) :
    fault.IsWithin b.length := by
  fun_induction fields b with
  | case1 => cases h
  | case2 b hb f hread =>
    cases h
    exact Field.isLocal_read.within hread
  | case3 b hb f rest hread f' hrest ih =>
    cases h
    exact (ih hrest).mono (Nat.le_of_lt (Field.length_read hread))
  | case4 => cases h

/-! ## Details of errors -/

/-- The detail of an error that reports a position: the fault of an integer, and its offset. -/
def located (fault : Varint.Fault) (offset : Nat) : String :=
  s!"{fault.message} at byte offset {offset}"

/-- The details of errors for bytes that end too early. -/
inductive EndsEarly : String → Prop
  | integer (offset : Nat) : EndsEarly (located .truncated offset)
  | data (needed left : Nat) :
      EndsEarly s!"length-delimited field needs {needed} bytes, only {left} left"
  | fixed : EndsEarly "truncated fixed-width field"

/-- The details of faults of bytes that end too early have one of three forms. -/
theorem Fault.endsEarly_of_isShort {fault : Fault} (h : fault.IsShort) (length : Nat) :
    EndsEarly (fault.message length) := by
  cases fault with
  | varint f left =>
    cases f with
    | truncated => exact .integer (length - left)
    | _ => cases h
  | shortData needed left => exact .data needed left
  | truncatedFixed => exact .fixed
  | _ => cases h

/-- The beginning of a text stays when another text is appended. -/
theorem isPrefix_toList_append {l : List Char} {s : String} (h : l <+: s.toList) (t : String) :
    l <+: (s ++ t).toList := by
  rw [String.toList_append]
  exact h.trans (List.prefix_append _ _)

/-- The first two characters of the details that report a position. -/
theorem located_begins (fault : Varint.Fault) (offset : Nat) :
    ∃ l ∈ [['T', 'r'], ['V', 'a'], ['N', 'o']], l <+: (located fault offset).toList := by
  have hbegins {l : List Char} (h : l <+: fault.message.toList) :
      l <+: (located fault offset).toList :=
    isPrefix_toList_append (isPrefix_toList_append h _) _
  cases fault with
  | truncated => exact ⟨['T', 'r'], by decide, hbegins ⟨_, rfl⟩⟩
  | tooLong | exceeds => exact ⟨['V', 'a'], by decide, hbegins ⟨_, rfl⟩⟩
  | nonMinimal => exact ⟨['N', 'o'], by decide, hbegins ⟨_, rfl⟩⟩

/-- The detail of data that is too short starts with the word `length`. -/
theorem Fault.shortData_begins (needed left length : Nat) :
    ['l', 'e'] <+: ((shortData needed left).message length).toList := by
  have hbegins : ['l', 'e'] <+: "length-delimited field needs ".toList := ⟨_, rfl⟩
  exact isPrefix_toList_append (isPrefix_toList_append (isPrefix_toList_append
    (isPrefix_toList_append hbegins _) _) _) _

/-- The detail of a fixed width that is cut off starts with the word `truncated`. -/
theorem Fault.truncatedFixed_begins (length : Nat) :
    ['t', 'r'] <+: (truncatedFixed.message length).toList := by
  have hbegins : ['t', 'r'] <+: "truncated fixed-width field".toList := ⟨_, rfl⟩
  exact hbegins

/-- The first two characters of the other details. -/
theorem Fault.message_begins {fault : Fault} (h : ∀ f left, fault ≠ .varint f left)
    (length : Nat) :
    ∃ l ∈ [['l', 'e'], ['i', 'n'], ['T', 'y'], ['D', 'a'], ['t', 'r'], ['u', 'n']],
      l <+: (fault.message length).toList := by
  cases fault with
  | varint f left => exact absurd rfl (h f left)
  | shortData needed left => exact ⟨['l', 'e'], by decide, shortData_begins needed left length⟩
  | fieldZero =>
    have hbegins : ['i', 'n'] <+: "invalid field number 0".toList := ⟨_, rfl⟩
    exact ⟨['i', 'n'], by decide, hbegins⟩
  | typeForm form =>
    have hbegins : ['T', 'y'] <+: "Type field has wire type ".toList := ⟨_, rfl⟩
    exact ⟨['T', 'y'], by decide, isPrefix_toList_append hbegins _⟩
  | dataForm form =>
    have hbegins : ['D', 'a'] <+: "Data field has wire type ".toList := ⟨_, rfl⟩
    exact ⟨['D', 'a'], by decide, isPrefix_toList_append hbegins _⟩
  | truncatedFixed => exact ⟨['t', 'r'], by decide, truncatedFixed_begins length⟩
  | unknownForm form =>
    have hbegins : ['u', 'n'] <+: "unsupported wire type ".toList := ⟨_, rfl⟩
    exact ⟨['u', 'n'], by decide, isPrefix_toList_append hbegins _⟩

/-- The first two characters of the details for bytes that end too early. -/
theorem EndsEarly.begins {detail : String} (h : EndsEarly detail) :
    ∃ l ∈ [['T', 'r'], ['l', 'e'], ['t', 'r']], l <+: detail.toList := by
  cases h with
  | integer offset =>
    have hbegins : ['T', 'r'] <+: (Varint.Fault.message .truncated).toList := ⟨_, rfl⟩
    exact ⟨['T', 'r'], by decide, isPrefix_toList_append (isPrefix_toList_append hbegins _) _⟩
  | data needed left => exact ⟨['l', 'e'], by decide, Fault.shortData_begins needed left 0⟩
  | fixed => exact ⟨['t', 'r'], by decide, Fault.truncatedFixed_begins 0⟩

/-- Only ill-formed integers are reported with a position: the other details begin differently. -/
theorem Fault.message_ne_located {fault : Fault} (h : ∀ f left, fault ≠ .varint f left)
    (length : Nat) (f : Varint.Fault) (offset : Nat) : fault.message length ≠ located f offset := by
  intro hsame
  obtain ⟨l, hl, hbegins⟩ := message_begins h length
  obtain ⟨l', hl', hbegins'⟩ := located_begins f offset
  have hdiffer : ∀ l ∈ [['l', 'e'], ['i', 'n'], ['T', 'y'], ['D', 'a'], ['t', 'r'], ['u', 'n']],
      ∀ l' ∈ [['T', 'r'], ['V', 'a'], ['N', 'o']], l.length = l'.length ∧ l ≠ l' := by decide
  obtain ⟨hlength, hne⟩ := hdiffer l hl l' hl'
  rw [hsame] at hbegins
  have hstart := List.prefix_of_prefix_length_le hbegins hbegins' hlength.le
  exact hne (hstart.eq_of_length hlength)

/-! ## Messages -/

/-- The last data of a list of fields. -/
def lastData? (fs : List Field) : Option Bytes :=
  (fs.filterMap Field.data?).getLast?

/-- The outcome of reading a message of a last type and a last data. -/
def ofLast (code? : Option Nat) (data? : Option Bytes) : Except IdentityError Envelope :=
  match code? with
  | none => .error (.unsupportedKeyType none)
  | some code =>
    match KeyType.ofCode? code with
    | none => .error (.unsupportedKeyType (some code))
    | some t => .ok ⟨t, data?.getD []⟩

/-- Bytes that write fields are read by their last type and their last data. -/
theorem decode_eq_ofLast {fs : List Field} {b : Bytes} (h : Writes fs b) :
    decode b = ofLast (lastCode? fs) (lastData? fs) := by
  rw [decode_of_writes h, ofFields]
  cases lastCode? fs with
  | none => rfl
  | some code =>
    simp only [ofLast]
    cases KeyType.ofCode? code <;> rfl

/-- A message is merged with the message behind it. -/
theorem decode_append_of_writes {fs gs : List Field} {a b : Bytes} (ha : Writes fs a)
    (hb : Writes gs b) :
    decode (a ++ b) =
      ofLast ((lastCode? gs).or (lastCode? fs)) ((lastData? gs).or (lastData? fs)) := by
  have hfields : Writes (fs ++ gs) (a ++ b) := by
    rw [← fields_eq_ok_iff, fields_append_of_writes ha, fields_eq_ok_iff.mpr hb]
    rfl
  rw [decode_eq_ofLast hfields, lastCode?, lastData?, List.filterMap_append, List.filterMap_append,
    List.getLast?_append, List.getLast?_append]
  rfl

/-- A message is refused without a key type exactly if its bytes write no fields. -/
theorem decode_eq_malformed_iff {b : Bytes} {detail : String} :
    decode b = .error (.decoding none detail) ↔
      ∃ fault, fields b = .error fault ∧ fault.message b.length = detail := by
  constructor
  · intro h
    cases hfields : fields b with
    | error fault =>
      rw [decode, read, hfields] at h
      exact ⟨fault, rfl, by simpa [Failure.toError] using h⟩
    | ok fs =>
      -- Bytes that write fields are read, or refused for their type.
      have hread := decode_eq_ofLast (fields_eq_ok_iff.mp hfields)
      rw [h] at hread
      unfold ofLast at hread
      split at hread
      next => cases hread
      next => split at hread <;> cases hread
  · rintro ⟨fault, hfault, rfl⟩
    rw [decode, read, hfault]
    rfl

/-- Bytes that are read, or refused for their type only, write fields. -/
theorem exists_writes_iff {b : Bytes} :
    (∃ fs, Writes fs b) ↔ ∀ detail, decode b ≠ .error (.decoding none detail) := by
  constructor
  · rintro ⟨fs, hfs⟩ detail h
    obtain ⟨fault, hfault, -⟩ := decode_eq_malformed_iff.mp h
    rw [fields_eq_ok_iff.mpr hfs] at hfault
    cases hfault
  · intro h
    by_contra hnot
    obtain ⟨detail, hdetail⟩ := decode_of_not_writes hnot
    exact h detail hdetail

/-- Behind a message, bytes that write no fields are refused with the same detail, except that an
offset counts from the beginning of the message. -/
theorem decode_append_of_malformed {fs : List Field} {a b : Bytes} {detail : String}
    (ha : Writes fs a) (hb : decode b = .error (.decoding none detail)) :
    (∃ fault offset, detail = located fault offset ∧
      decode (a ++ b) = .error (.decoding none (located fault (a.length + offset)))) ∨
    (∀ fault offset, detail ≠ located fault offset) ∧
      decode (a ++ b) = .error (.decoding none detail) := by
  obtain ⟨fault, hfault, rfl⟩ := decode_eq_malformed_iff.mp hb
  have hfields : fields (a ++ b) = .error fault := by
    rw [fields_append_of_writes ha, hfault]
    rfl
  have happend : decode (a ++ b) =
      .error (.decoding none (fault.message (a.length + b.length))) := by
    rw [decode_eq_malformed_iff, ← List.length_append]
    exact ⟨fault, hfields, rfl⟩
  cases fault with
  | varint f left =>
    -- The offset is the number of bytes before those that are left, which lie within `b`.
    have hoffset : a.length + b.length - left = a.length + (b.length - left) :=
      Nat.add_sub_assoc (isWithin_of_fields hfault) _
    refine .inl ⟨f, b.length - left, rfl, ?_⟩
    rw [happend, ← hoffset]
    rfl
  -- The other details do not depend on the number of bytes.
  | _ => exact .inr ⟨Fault.message_ne_located (by simp) _, happend⟩

/-- Bytes that write no fields, though not because they end too early, are refused with the same
detail whatever follows. -/
theorem decode_append_of_error {a : Bytes} {detail : String}
    (ha : decode a = .error (.decoding none detail)) (hearly : ¬ EndsEarly detail) (b : Bytes) :
    decode (a ++ b) = .error (.decoding none detail) := by
  obtain ⟨fault, hfault, rfl⟩ := decode_eq_malformed_iff.mp ha
  have hshort : ¬ fault.IsShort := fun h => hearly (Fault.endsEarly_of_isShort h _)
  rw [decode_eq_malformed_iff]
  refine ⟨_, fields_append_of_error hfault hshort b, ?_⟩
  rw [List.length_append]
  cases fault with
  -- Both the number of bytes and that of the bytes left grow, so the offset stays.
  | varint f left => exact congrArg (located f) (Nat.add_sub_add_right _ _ _)
  | _ => rfl

/-- Messages one behind the other are merged, and so are errors. Let `a` be read or refused for its
type only. If `b` is refused for its form, so is `a ++ b`, with the same detail, except that an
offset in it grows by the length of `a`. If not, the last type and the last data of `a ++ b` are
those of `b`, or those of `a` where `b` has none, and decide what is read. And if `a` is refused for
its form, though not because it ends too early, `a ++ b` is refused with the very same error. -/
theorem decode_append_merges (a b : Bytes) :
    ((∃ m, decode a = .ok m) ∨ (∃ v, decode a = .error (.unsupportedKeyType v)) →
      (∀ detail, decode b = .error (.decoding none detail) →
        (∃ fault offset, detail = located fault offset ∧
          decode (a ++ b) = .error (.decoding none (located fault (a.length + offset)))) ∨
        (∀ fault offset, detail ≠ located fault offset) ∧
          decode (a ++ b) = .error (.decoding none detail)) ∧
      ((∀ detail, decode b ≠ .error (.decoding none detail)) →
        ∃ fs gs, Writes fs a ∧ Writes gs b ∧
          decode a = ofLast (lastCode? fs) (lastData? fs) ∧
          decode b = ofLast (lastCode? gs) (lastData? gs) ∧
          decode (a ++ b) =
            ofLast ((lastCode? gs).or (lastCode? fs)) ((lastData? gs).or (lastData? fs)))) ∧
    ∀ detail, decode a = .error (.decoding none detail) → ¬ EndsEarly detail →
      decode (a ++ b) = .error (.decoding none detail) := by
  refine ⟨fun ha => ?_, fun detail ha hearly => decode_append_of_error ha hearly b⟩
  have hfields : ∃ fs, Writes fs a := by
    rw [exists_writes_iff]
    intro detail hdetail
    obtain ⟨m, hm⟩ | ⟨v, hv⟩ := ha
    · rw [hm] at hdetail
      cases hdetail
    · rw [hv] at hdetail
      cases hdetail
  obtain ⟨fs, hfs⟩ := hfields
  refine ⟨fun detail hb => decode_append_of_malformed hfs hb, fun hb => ?_⟩
  obtain ⟨gs, hgs⟩ := exists_writes_iff.mpr hb
  exact ⟨fs, gs, hfs, hgs, decode_eq_ofLast hfs, decode_eq_ofLast hgs,
    decode_append_of_writes hfs hgs⟩

/-- Behind a type, a length that is cut off is reported two bytes later. The reserved field number
is refused whatever follows. -/
theorem decode_append_merges_type :
    decode [0x08, 0x01] = .ok ⟨.ed25519, []⟩ ∧
      decode [0x12, 0x80] = .error (.decoding none (located .truncated 1)) ∧
      (∃ fault offset, located .truncated 1 = located fault offset ∧
        decode [0x08, 0x01, 0x12, 0x80] = .error (.decoding none (located fault (2 + offset)))) ∧
      decode [0x00] = .error (.decoding none "invalid field number 0") ∧
      ¬ EndsEarly "invalid field number 0" ∧
      decode [0x00, 0x08, 0x01] = .error (.decoding none "invalid field number 0") := by
  have htype : decode [0x08, 0x01] = .ok ⟨.ed25519, []⟩ := by decide +kernel
  have hcut : decode [0x12, 0x80] = .error (.decoding none (located .truncated 1)) := by
    decide +kernel
  have hzero : decode [0x00] = .error (.decoding none "invalid field number 0") := by
    decide +kernel
  have hother : ¬ EndsEarly "invalid field number 0" := by
    intro h
    obtain ⟨l, hl, hbegins⟩ := h.begins
    have hnot : ∀ l ∈ [['T', 'r'], ['l', 'e'], ['t', 'r']],
        ¬ l <+: "invalid field number 0".toList := by decide +kernel
    exact hnot l hl hbegins
  obtain ⟨hmerged, -⟩ := decode_append_merges [0x08, 0x01] [0x12, 0x80]
  have hfixed := (decode_append_merges [0x00] [0x08, 0x01]).2 _ hzero hother
  refine ⟨htype, hcut, ?_, hzero, hother, hfixed⟩
  obtain hmoved | ⟨hnot, -⟩ := (hmerged (.inl ⟨_, htype⟩)).1 _ hcut
  · exact hmoved
  · exact absurd rfl (hnot .truncated 1)

end PeerIdentity.Envelope
