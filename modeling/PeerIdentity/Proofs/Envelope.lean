import Mathlib.Data.List.Induction
import PeerIdentity.Envelope
import PeerIdentity.Proofs.Result
import PeerIdentity.Proofs.Varint

/-!
# The grammar of key envelopes

An envelope is a sequence of fields. A field is a tag, `8 * number + form`, and a value whose shape
depends on the number and the form. This file states that grammar as relations between fields and
bytes and proves that reading decides it:

* `ValueForm`, `FieldForm`, `Writes`: the written forms of a value, of a field and of a list of
  fields;
* `fields_eq_ok_iff`: the fields that are read are those that the bytes write, so a byte string
  splits into fields in one way;
* `decode_classifies`: a message is read exactly from the bytes that write fields of which the last
  type is known, and the two classes of errors separate missing and unknown types from bytes that
  write no fields.
-/

namespace PeerIdentity.Envelope

/-! ## The grammar -/

/-- The written forms of a value, in the field of a number that is written in a form. -/
inductive ValueForm : (number form : Nat) → Field → Bytes → Prop
  /-- A type is an integer. -/
  | keyType {code : Nat} (hcode : code < Varint.limit) :
      ValueForm 1 0 (.keyType code) (Varint.encode code)
  /-- Data is a length and as many bytes. -/
  | data {d : Bytes} (hd : d.length < Varint.limit) :
      ValueForm 2 2 (.data d) (Varint.encode d.length ++ d)
  | integer {number n : Nat} (hnumber : 3 ≤ number) (hn : n < Varint.limit) :
      ValueForm number 0 .unknown (Varint.encode n)
  | eightBytes {number : Nat} {w : Bytes} (hnumber : 3 ≤ number) (hw : w.length = 8) :
      ValueForm number 1 .unknown w
  | bytes {number : Nat} {d : Bytes} (hnumber : 3 ≤ number) (hd : d.length < Varint.limit) :
      ValueForm number 2 .unknown (Varint.encode d.length ++ d)
  | fourBytes {number : Nat} {w : Bytes} (hnumber : 3 ≤ number) (hw : w.length = 4) :
      ValueForm number 5 .unknown w

/-- The written forms of a field: a tag that holds the number and, in its three lowest bits, the
form, and the value. -/
inductive FieldForm : Field → Bytes → Prop
  | mk {number form : Nat} {f : Field} {w : Bytes} (hform : form < 8)
      (htag : 8 * number + form < Varint.limit) (hvalue : ValueForm number form f w) :
      FieldForm f (Varint.encode (8 * number + form) ++ w)

/-- The written forms of a list of fields, one after the other. -/
inductive Writes : List Field → Bytes → Prop
  | nil : Writes [] []
  | cons {f : Field} {fs : List Field} {w b : Bytes} (hf : FieldForm f w) (hfs : Writes fs b) :
      Writes (f :: fs) (w ++ b)

/-- The fields of a list from which `get?` takes a value end with one of value `a`. -/
def IsLast {α : Type} (get? : Field → Option α) (fs : List Field) (a : α) : Prop :=
  ∃ before f after, fs = before ++ f :: after ∧ get? f = some a ∧ ∀ g ∈ after, get? g = none

/-! ## Readers of values -/

/-- Bytes start with an integer exactly if they start with its encoding, which is below the
limit. -/
theorem readVarint_eq_ok_iff {b rest : Bytes} {n : Nat} :
    readVarint b = .ok (n, rest) ↔ n < Varint.limit ∧ b = Varint.encode n ++ rest := by
  rw [← Varint.read_eq_ok_iff, readVarint]
  split <;> simp_all

/-- Bytes start with data exactly if they start with the encoding of its length and the data. -/
theorem readData_eq_ok_iff {b d rest : Bytes} :
    readData b = .ok (d, rest) ↔
      d.length < Varint.limit ∧ b = Varint.encode d.length ++ d ++ rest := by
  rw [readData]
  constructor
  · intro h
    split at h
    next => simp at h
    next n r hr =>
      obtain ⟨hn, rfl⟩ := readVarint_eq_ok_iff.mp hr
      split at h
      next hle =>
        obtain ⟨rfl, rfl⟩ : r.take n = d ∧ r.drop n = rest := by simpa using h
        have hlen : (r.take n).length = n := by simp [hle]
        refine ⟨by rwa [hlen], ?_⟩
        rw [hlen, List.append_assoc, List.take_append_drop]
      next => simp at h
  · rintro ⟨hd, rfl⟩
    rw [List.append_assoc, readVarint_eq_ok_iff.mpr ⟨hd, rfl⟩]
    simp

/-- Bytes of a width are skipped exactly if there are that many. -/
theorem skip_eq_ok_iff {width : Nat} {b rest : Bytes} {f : Field} :
    skip width b = .ok (f, rest) ↔ f = .unknown ∧ ∃ w, w.length = width ∧ b = w ++ rest := by
  rw [skip]
  constructor
  · intro h
    split at h
    next hle =>
      obtain ⟨rfl, rfl⟩ : Field.unknown = f ∧ b.drop width = rest := by simpa using h
      exact ⟨rfl, b.take width, by simp [hle], by simp⟩
    next => simp at h
  · rintro ⟨rfl, w, rfl, rfl⟩
    simp

/-- A field is read exactly if its value is. -/
theorem asField_eq_ok_iff {α : Type} {field : α → Field} {x : Except Fault (α × Bytes)} {f : Field}
    {rest : Bytes} :
    asField field x = .ok (f, rest) ↔ ∃ a, x = .ok (a, rest) ∧ field a = f := by
  constructor
  · intro h
    unfold asField at h
    split at h
    next a r =>
      obtain ⟨rfl, rfl⟩ : field a = f ∧ r = rest := by simpa using h
      exact ⟨a, rfl, rfl⟩
    next => simp at h
  · rintro ⟨a, rfl, rfl⟩
    rfl

/-! ## Readers of fields -/

/-- The form alone decides how the value of a field of any other number is read. -/
theorem readValue_of_le {number : Nat} (h : 3 ≤ number) (form : Nat) (b : Bytes) :
    readValue number form b =
      match form with
      | 0 => asField (fun _ => .unknown) (readVarint b)
      | 1 => skip 8 b
      | 2 => asField (fun _ => .unknown) (readData b)
      | 5 => skip 4 b
      | _ => .error (.unknownForm form) := by
  unfold readValue
  exact (if_neg (by omega)).trans ((if_neg (by omega)).trans (if_neg (by omega)))

/-- What is read for a value is a written form of it. -/
theorem valueForm_of_readValue {number form : Nat} {b rest : Bytes} {f : Field}
    (h : readValue number form b = .ok (f, rest)) :
    ∃ w, ValueForm number form f w ∧ b = w ++ rest := by
  -- A number is reserved (0), that of the type (1), that of the data (2), or of any other field.
  obtain rfl | rfl | rfl | hnumber : number = 0 ∨ number = 1 ∨ number = 2 ∨ 3 ≤ number := by omega
  · cases h
  · by_cases hform : form = 0
    · subst hform
      obtain ⟨code, hc, rfl⟩ := asField_eq_ok_iff.mp h
      obtain ⟨hcode, rfl⟩ := readVarint_eq_ok_iff.mp hc
      exact ⟨_, .keyType hcode, rfl⟩
    · simp [readValue, hform] at h
  · by_cases hform : form = 2
    · subst hform
      obtain ⟨d, hd, rfl⟩ := asField_eq_ok_iff.mp h
      obtain ⟨hlen, rfl⟩ := readData_eq_ok_iff.mp hd
      exact ⟨_, .data hlen, rfl⟩
    · simp [readValue, hform] at h
  · rw [readValue_of_le hnumber] at h
    split at h
    next =>
      obtain ⟨n, hn, rfl⟩ := asField_eq_ok_iff.mp h
      obtain ⟨hlt, rfl⟩ := readVarint_eq_ok_iff.mp hn
      exact ⟨_, .integer hnumber hlt, rfl⟩
    next =>
      obtain ⟨rfl, w, hw, rfl⟩ := skip_eq_ok_iff.mp h
      exact ⟨_, .eightBytes hnumber hw, rfl⟩
    next =>
      obtain ⟨d, hd, rfl⟩ := asField_eq_ok_iff.mp h
      obtain ⟨hlen, rfl⟩ := readData_eq_ok_iff.mp hd
      exact ⟨_, .bytes hnumber hlen, rfl⟩
    next =>
      obtain ⟨rfl, w, hw, rfl⟩ := skip_eq_ok_iff.mp h
      exact ⟨_, .fourBytes hnumber hw, rfl⟩
    next => cases h

/-- The written forms of a value are read, whatever follows. -/
theorem readValue_of_valueForm {number form : Nat} {w : Bytes} {f : Field}
    (h : ValueForm number form f w) (rest : Bytes) :
    readValue number form (w ++ rest) = .ok (f, rest) := by
  cases h with
  | keyType hcode => exact asField_eq_ok_iff.mpr ⟨_, readVarint_eq_ok_iff.mpr ⟨hcode, rfl⟩, rfl⟩
  | data hd => exact asField_eq_ok_iff.mpr ⟨_, readData_eq_ok_iff.mpr ⟨hd, rfl⟩, rfl⟩
  | integer hnumber hn =>
    rw [readValue_of_le hnumber]
    exact asField_eq_ok_iff.mpr ⟨_, readVarint_eq_ok_iff.mpr ⟨hn, rfl⟩, rfl⟩
  | eightBytes hnumber hw =>
    rw [readValue_of_le hnumber]
    exact skip_eq_ok_iff.mpr ⟨rfl, _, hw, rfl⟩
  | bytes hnumber hd =>
    rw [readValue_of_le hnumber]
    exact asField_eq_ok_iff.mpr ⟨_, readData_eq_ok_iff.mpr ⟨hd, rfl⟩, rfl⟩
  | fourBytes hnumber hw =>
    rw [readValue_of_le hnumber]
    exact skip_eq_ok_iff.mpr ⟨rfl, _, hw, rfl⟩

/-- A field is read exactly from its written forms. -/
theorem Field.read_eq_ok_iff {b rest : Bytes} {f : Field} :
    Field.read b = .ok (f, rest) ↔ ∃ w, FieldForm f w ∧ b = w ++ rest := by
  unfold Field.read
  constructor
  · intro h
    split at h
    next => simp at h
    next tag r hr =>
      obtain ⟨htag, rfl⟩ := readVarint_eq_ok_iff.mp hr
      obtain ⟨w, hw, rfl⟩ := valueForm_of_readValue h
      -- The tag that was read is put together from its parts again.
      have hsplit : 8 * (tag / 8) + tag % 8 = tag := Nat.div_add_mod tag 8
      refine ⟨Varint.encode tag ++ w, ?_, by simp⟩
      have hfield : FieldForm f (Varint.encode (8 * (tag / 8) + tag % 8) ++ w) :=
        .mk (Nat.mod_lt _ (by decide)) (by rwa [hsplit]) hw
      rwa [hsplit] at hfield
  · rintro ⟨w, ⟨hform, htag, hvalue⟩, rfl⟩
    rename_i number form v
    rw [List.append_assoc, readVarint_eq_ok_iff.mpr ⟨htag, rfl⟩]
    have hdiv : (8 * number + form) / 8 = number := by omega
    have hmod : (8 * number + form) % 8 = form := by omega
    simp only [hdiv, hmod]
    exact readValue_of_valueForm hvalue rest

/-! ## Readers of messages -/

/-- A field takes at least one byte. -/
theorem FieldForm.ne_nil {f : Field} {w : Bytes} (h : FieldForm f w) : w ≠ [] := by
  cases h
  simp

/-- The fields that are read are those that the bytes write. -/
theorem fields_eq_ok_iff {b : Bytes} {fs : List Field} : fields b = .ok fs ↔ Writes fs b := by
  constructor
  · intro h
    fun_induction fields b generalizing fs with
    | case1 =>
      cases h
      exact .nil
    | case2 => cases h
    | case3 => cases h
    | case4 b hb f rest hread gs hgs ih =>
      cases h
      obtain ⟨w, hw, rfl⟩ := Field.read_eq_ok_iff.mp hread
      exact .cons hw (ih hgs)
  · intro h
    induction h with
    | nil => rw [fields, if_pos rfl]
    | @cons f fs w b hw _ ih =>
      have hread : Field.read (w ++ b) = .ok (f, b) := Field.read_eq_ok_iff.mpr ⟨w, hw, rfl⟩
      -- The form of a field is not empty, so the fields do not end before it.
      rw [fields, if_neg (by simp [hw.ne_nil])]
      split
      next fault hfault => simp [hread] at hfault
      next f' rest hread' =>
        obtain ⟨rfl, rfl⟩ : f = f' ∧ b = rest := by simpa [hread] using hread'
        rw [ih]

/-- A byte string splits into fields in at most one way. -/
theorem Writes.unique {fs gs : List Field} {b : Bytes} (hfs : Writes fs b) (hgs : Writes gs b) :
    fs = gs := by
  have h := (fields_eq_ok_iff.mpr hfs).symm.trans (fields_eq_ok_iff.mpr hgs)
  simpa using h

/-! ## Last values -/

/-- No field has a property exactly if there is no last one with it. -/
theorem getLast?_filterMap_eq_none_iff {α : Type} {get? : Field → Option α} {fs : List Field} :
    (fs.filterMap get?).getLast? = none ↔ ∀ f ∈ fs, get? f = none := by
  simp

/-- The last of the values that are taken from a list of fields. -/
theorem getLast?_filterMap_eq_some_iff {α : Type} {get? : Field → Option α} {fs : List Field}
    {a : α} : (fs.filterMap get?).getLast? = some a ↔ IsLast get? fs a := by
  constructor
  -- From the end: either the last field has a value, or the fields before it end with one.
  · intro h
    induction fs using List.reverseRecOn with
    | nil => simp at h
    | append_singleton fs f ih =>
      rw [List.filterMap_append, List.getLast?_append] at h
      cases hf : get? f with
      | some a' =>
        obtain rfl : a' = a := by simpa [hf] using h
        exact ⟨fs, f, [], rfl, hf, by simp⟩
      | none =>
        obtain ⟨before, g, after, rfl, hg, hafter⟩ := ih (by simpa [hf] using h)
        refine ⟨before, g, after ++ [f], by simp, hg, ?_⟩
        exact List.forall_mem_append.mpr ⟨hafter, List.forall_mem_singleton.mpr hf⟩
  · rintro ⟨before, f, after, rfl, hf, hafter⟩
    have hnil : after.filterMap get? = [] := List.filterMap_eq_nil_iff.mpr hafter
    simp [List.filterMap_append, hf, hnil]

/-- The last data of a list of fields, which is empty when there is none. -/
theorem lastData_eq_iff {fs : List Field} {d : Bytes} :
    lastData fs = d ↔ IsLast Field.data? fs d ∨ d = [] ∧ ∀ f ∈ fs, f.data? = none := by
  rw [← getLast?_filterMap_eq_some_iff, ← getLast?_filterMap_eq_none_iff, lastData]
  cases (fs.filterMap Field.data?).getLast? with
  | none => simp [eq_comm]
  | some d' => simp

/-! ## Messages -/

/-- The numbers of key types are those up to 4. -/
theorem ofCode?_eq_none_iff {code : Nat} : KeyType.ofCode? code = none ↔ 4 < code := by
  unfold KeyType.ofCode?
  split <;> simp_all
  omega

/-- Bytes that write fields are read as the message of these fields. -/
theorem decode_of_writes {fs : List Field} {b : Bytes} (h : Writes fs b) :
    decode b = (ofFields fs).mapError (Failure.toError b.length) := by
  rw [decode, read, fields_eq_ok_iff.mpr h]

/-- Bytes that write no fields are refused by an error that names no key type. -/
theorem decode_of_not_writes {b : Bytes} (h : ¬ ∃ fs, Writes fs b) :
    ∃ detail, decode b = .error (.decoding none detail) := by
  cases hb : fields b with
  | ok fs => exact absurd ⟨fs, fields_eq_ok_iff.mp hb⟩ h
  | error fault =>
    exact ⟨fault.message b.length, by simp [decode, read, hb, Failure.toError]⟩

/-- A list of fields without a type is refused for the missing type. -/
theorem ofFields_of_no_code {fs : List Field} (h : ∀ f ∈ fs, f.code? = none) :
    ofFields fs = .error .missingType := by
  rw [ofFields, lastCode?, getLast?_filterMap_eq_none_iff.mpr h]

/-- The last type decides: a number of no key type is refused. -/
theorem ofFields_of_unknown {fs : List Field} {code : Nat} (h : IsLast Field.code? fs code)
    (hcode : 4 < code) : ofFields fs = .error (.unknownType code) := by
  rw [ofFields, lastCode?, getLast?_filterMap_eq_some_iff.mpr h]
  simp only [ofCode?_eq_none_iff.mpr hcode]

/-- The last type decides: the number of a key type gives a message of that type. -/
theorem ofFields_of_known {fs : List Field} {t : KeyType} (h : IsLast Field.code? fs t.code) :
    ofFields fs = .ok ⟨t, lastData fs⟩ := by
  rw [ofFields, lastCode?, getLast?_filterMap_eq_some_iff.mpr h]
  simp only [KeyType.ofCode?_code]

/-- The type of a message takes one byte. -/
theorem encode_eq (m : Envelope) : m.encode =
    0x08 :: UInt8.ofNat m.keyType.code :: 0x12 :: (Varint.encode m.data.length ++ m.data) := by
  have hcode : m.keyType.code < 128 := by cases m.keyType <;> decide
  simp [encode, Varint.encode_of_lt hcode]

/-- The form of a message with less than 128 bytes of data has four bytes more than the data. -/
theorem length_encode_of_lt {m : Envelope} (h : m.data.length < 128) :
    m.encode.length = m.data.length + 4 := by
  simp [encode_eq, Varint.encode_of_lt h]

/-- An envelope is not shorter than its data. -/
theorem length_data_le_length_encode (m : Envelope) : m.data.length ≤ m.encode.length := by
  simp only [encode_eq, List.length_cons, List.length_append]
  omega

/-- The written form of a message consists of its type and its data. -/
theorem writes_encode {m : Envelope} (h : m.data.length < Varint.limit) :
    Writes [.keyType m.keyType.code, .data m.data] m.encode := by
  have hcode : m.keyType.code < Varint.limit := by cases m.keyType <;> decide
  have htype := @FieldForm.mk 1 0 _ _ (by decide) (by decide) (.keyType hcode)
  have hdata := @FieldForm.mk 2 2 _ _ (by decide) (by decide) (.data h)
  rw [Varint.encode_of_lt (by decide)] at htype hdata
  simpa [encode] using Writes.cons htype (.cons hdata .nil)

/-- Reading the written form of a message gives the message back. -/
theorem decode_encode {m : Envelope} (h : m.data.length < Varint.limit) :
    decode m.encode = .ok m := by
  have hcode : IsLast Field.code? [.keyType m.keyType.code, .data m.data] m.keyType.code :=
    ⟨[], _, [.data m.data], rfl, rfl, by simp [Field.code?]⟩
  rw [decode_of_writes (writes_encode h), ofFields_of_known hcode]
  rfl

/-- Bytes that start with a tag, and write a field and more, continue with a value of that field. -/
theorem Writes.value_of_tag {tag : Nat} {fs : List Field} {b : Bytes}
    (h : Writes fs (Varint.encode tag ++ b)) :
    ∃ f gs v rest, ValueForm (tag / 8) (tag % 8) f v ∧ Writes gs rest ∧ b = v ++ rest := by
  generalize hwhole : Varint.encode tag ++ b = whole at h
  cases h with
  | nil => simp at hwhole
  | @cons f gs w rest hfield hgs =>
    obtain ⟨hform, -, hvalue⟩ := hfield
    rename_i number form v
    rw [List.append_assoc] at hwhole
    -- No form of an integer starts another one, so the tags agree and so does what follows them.
    obtain ⟨rfl, rfl⟩ := Varint.encode_append_inj hwhole
    have hdiv : (8 * number + form) / 8 = number := by omega
    have hmod : (8 * number + form) % 8 = form := by omega
    exact ⟨f, gs, v, rest, by rwa [hdiv, hmod], hgs, rfl⟩

/-- A message that is read from its written form has data of a length that has a form. -/
theorem length_lt_of_writes_encode {m : Envelope} {fs : List Field} (h : Writes fs m.encode) :
    m.data.length < Varint.limit := by
  have htags : m.encode = Varint.encode 8 ++ (Varint.encode m.keyType.code ++
      (Varint.encode 18 ++ (Varint.encode m.data.length ++ m.data))) := by
    have htypeTag := Varint.encode_of_lt (by decide : 8 < 128)
    have hdataTag := Varint.encode_of_lt (by decide : 18 < 128)
    rw [encode, htypeTag, hdataTag]
    simp
  rw [htags] at h
  -- The tag 8 leaves only the type as the first field, and the tag 18 only the data as the second.
  obtain ⟨_, _, _, _, hvalue, hrest, heq⟩ := h.value_of_tag
  cases hvalue with
  | keyType =>
    obtain ⟨-, rfl⟩ := Varint.encode_append_inj heq
    obtain ⟨_, _, _, _, hdata, -, heq⟩ := hrest.value_of_tag
    cases hdata with
    | data hd =>
      rw [List.append_assoc] at heq
      rwa [(Varint.encode_append_inj heq).1]
    | bytes hnumber => omega
  | integer hnumber => omega

/-- Different messages have different written forms, however long their data. -/
theorem encode_injective {m n : Envelope} (h : m.encode = n.encode) : m = n := by
  obtain ⟨t, d⟩ := m
  obtain ⟨u, e⟩ := n
  simp only [encode, List.cons_append, List.append_assoc, List.cons.injEq, true_and] at h
  obtain ⟨hcode, h⟩ := Varint.encode_append_inj h
  obtain ⟨-, hdata⟩ := Varint.encode_append_inj (List.cons.inj h).2
  have htype : t = u := by
    have hread := KeyType.ofCode?_code t
    rw [hcode, KeyType.ofCode?_code u] at hread
    exact (Option.some.inj hread).symm
  rw [htype, hdata]

/-- A data field is no longer than its written form, which contains the data. -/
theorem FieldForm.length_data_le {f : Field} {w d : Bytes} (h : FieldForm f w)
    (hd : f.data? = some d) : d.length ≤ w.length := by
  obtain ⟨-, -, hvalue⟩ := h
  cases hvalue with
  | data =>
    cases hd
    simp only [List.length_append]
    omega
  | _ => cases hd

/-- Data is no longer than the fields that it stands among. -/
theorem Writes.length_data_le {fs : List Field} {b : Bytes} (h : Writes fs b) {f : Field}
    (hf : f ∈ fs) {d : Bytes} (hd : f.data? = some d) : d.length ≤ b.length := by
  induction h with
  | nil => cases hf
  | cons hform _ ih =>
    rw [List.length_append]
    rcases List.mem_cons.mp hf with rfl | hf
    · exact Nat.le_add_right_of_le (hform.length_data_le hd)
    · exact Nat.le_add_left_of_le (ih hf)

/-- The data of a message is no longer than what it is read from. -/
theorem length_lastData_le {fs : List Field} {b : Bytes} (h : Writes fs b) :
    (lastData fs).length ≤ b.length := by
  rcases lastData_eq_iff.mp (rfl : lastData fs = _) with ⟨_, f, _, rfl, hf, -⟩ | ⟨hnil, -⟩
  · exact h.length_data_le (List.mem_append_right _ List.mem_cons_self) hf
  · simp [hnil]

/-- Reading has four outcomes: no type, a known last type, an unknown last type, and no fields. -/
theorem decode_cases (b : Bytes) :
    (∃ fs, Writes fs b ∧ (∀ f ∈ fs, f.code? = none) ∧
      decode b = .error (.unsupportedKeyType none)) ∨
    (∃ fs t, Writes fs b ∧ IsLast Field.code? fs (KeyType.code t) ∧
      decode b = .ok ⟨t, lastData fs⟩) ∨
    (∃ fs code, Writes fs b ∧ IsLast Field.code? fs code ∧ 4 < code ∧
      decode b = .error (.unsupportedKeyType (some code))) ∨
    (¬ ∃ fs, Writes fs b) ∧ ∃ detail, decode b = .error (.decoding none detail) := by
  by_cases h : ∃ fs, Writes fs b
  · obtain ⟨fs, hfs⟩ := h
    have hdecode := decode_of_writes hfs
    cases hlast : lastCode? fs with
    | none =>
      have hnone := getLast?_filterMap_eq_none_iff.mp hlast
      rw [ofFields_of_no_code hnone] at hdecode
      exact .inl ⟨fs, hfs, hnone, hdecode⟩
    | some code =>
      have hsome := getLast?_filterMap_eq_some_iff.mp hlast
      cases hcode : KeyType.ofCode? code with
      | none =>
        have hunknown := ofCode?_eq_none_iff.mp hcode
        rw [ofFields_of_unknown hsome hunknown] at hdecode
        exact .inr (.inr (.inl ⟨fs, code, hfs, hsome, hunknown, hdecode⟩))
      | some t =>
        obtain rfl := KeyType.eq_code_of_ofCode? hcode
        rw [ofFields_of_known hsome] at hdecode
        exact .inr (.inl ⟨fs, t, hfs, hsome, hdecode⟩)
  · exact .inr (.inr (.inr ⟨h, decode_of_not_writes h⟩))

/-- The bytes of a message write fields, of which the last data is that of the message. -/
theorem writes_of_decode {b : Bytes} {m : Envelope} (h : decode b = .ok m) :
    ∃ fs, Writes fs b ∧ lastData fs = m.data := by
  obtain ⟨_, _, _, h'⟩ | ⟨fs, t, hfs, _, h'⟩ | ⟨_, _, _, _, _, h'⟩ | ⟨_, _, h'⟩ :=
    decode_cases b <;> rw [h] at h' <;> cases h'
  exact ⟨fs, hfs, rfl⟩

/-- A message holds no more data than the bytes that it is read from. -/
theorem length_data_le_of_decode {b : Bytes} {m : Envelope} (h : decode b = .ok m) :
    m.data.length ≤ b.length := by
  obtain ⟨fs, hfs, hdata⟩ := writes_of_decode h
  rw [← hdata]
  exact length_lastData_le hfs

/-- A message is read from its written form exactly if the length of its data has a form. -/
theorem decode_encode_eq_ok_iff {m n : Envelope} :
    decode m.encode = .ok n ↔ m.data.length < Varint.limit ∧ n = m := by
  constructor
  · intro h
    obtain ⟨fs, hfs, -⟩ := writes_of_decode h
    have hlen := length_lt_of_writes_encode hfs
    rw [decode_encode hlen] at h
    exact ⟨hlen, (Except.ok.inj h).symm⟩
  · rintro ⟨hlen, rfl⟩
    exact decode_encode hlen

/-- Reading accepts exactly the grammar. A message is read from the bytes that write fields of
which the last type is the message's, and its data is the last data or empty. Bytes that write
fields without a type, or whose last type is a number above 4, are refused for their type; bytes
that write no fields are refused by an error that names no key type. The fields that bytes write
are determined by the bytes. -/
theorem decode_classifies (b : Bytes) :
    (∀ m : Envelope, decode b = .ok m ↔
      ∃ fs, Writes fs b ∧ IsLast Field.code? fs m.keyType.code ∧
        (IsLast Field.data? fs m.data ∨ m.data = [] ∧ ∀ f ∈ fs, f.data? = none)) ∧
    (decode b = .error (.unsupportedKeyType none) ↔
      ∃ fs, Writes fs b ∧ ∀ f ∈ fs, f.code? = none) ∧
    (∀ v : Int, decode b = .error (.unsupportedKeyType (some v)) ↔
      ∃ fs code, Writes fs b ∧ IsLast Field.code? fs code ∧ 4 < code ∧ v = code) ∧
    ((∃ detail, decode b = .error (.decoding none detail)) ↔ ¬ ∃ fs, Writes fs b) ∧
    Subsingleton { fs // Writes fs b } := by
  -- What is read tells which of the four outcomes it is, and each of them is what is read.
  refine ⟨fun m => ⟨fun h => ?_, ?_⟩, ⟨fun h => ?_, ?_⟩, fun v => ⟨fun h => ?_, ?_⟩,
    ⟨?_, decode_of_not_writes⟩, ⟨fun fs gs => Subtype.ext (fs.2.unique gs.2)⟩⟩
  · obtain ⟨_, _, _, h'⟩ | ⟨fs, t, hfs, hlast, h'⟩ | ⟨_, _, _, _, _, h'⟩ | ⟨_, _, h'⟩ :=
      decode_cases b <;> rw [h] at h' <;> cases h'
    exact ⟨fs, hfs, hlast, lastData_eq_iff.mp rfl⟩
  · rintro ⟨fs, hfs, hlast, hdata⟩
    rw [decode_of_writes hfs, ofFields_of_known hlast, lastData_eq_iff.mpr hdata]
    rfl
  · obtain ⟨fs, hfs, hnone, h'⟩ | ⟨_, _, _, _, h'⟩ | ⟨_, _, _, _, _, h'⟩ | ⟨_, _, h'⟩ :=
      decode_cases b <;> rw [h] at h' <;> cases h'
    exact ⟨fs, hfs, hnone⟩
  · rintro ⟨fs, hfs, hnone⟩
    rw [decode_of_writes hfs, ofFields_of_no_code hnone]
    rfl
  · obtain ⟨_, _, _, h'⟩ | ⟨_, _, _, _, h'⟩ | ⟨fs, code, hfs, hlast, hcode, h'⟩ | ⟨_, _, h'⟩ :=
      decode_cases b <;> rw [h] at h' <;> cases h'
    exact ⟨fs, code, hfs, hlast, hcode, rfl⟩
  · rintro ⟨fs, code, hfs, hlast, hcode, rfl⟩
    rw [decode_of_writes hfs, ofFields_of_unknown hlast hcode]
    rfl
  · rintro ⟨detail, h⟩ ⟨fs, hfs⟩
    obtain ⟨_, _, _, h'⟩ | ⟨_, _, _, _, h'⟩ | ⟨_, _, _, _, _, h'⟩ | ⟨hnot, _⟩ := decode_cases b
    · rw [h] at h'; cases h'
    · rw [h] at h'; cases h'
    · rw [h] at h'; cases h'
    · exact hnot ⟨fs, hfs⟩

end PeerIdentity.Envelope
