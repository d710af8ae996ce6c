import Mathlib.Data.List.Count
import Mathlib.Data.List.Nodup
import PeerIdentity.Proofs.Json.Members
import PeerIdentity.Record

/-!
# What the members of an object must be

An object gives a record exactly if it follows a strict schema: each field is given under one of its
two keys and not under both, its value has the type of the field, and there are no other members.
Everything that is wrong with the members of another object is told: the fields that are not given,
the values of another type, and the keys that do not count.

* `Field.IsKey`, `IdentityRecord.IsChosen`: the two keys of a field, and the one that counts;
* `IdentityRecord.IsStrict`: the schema;
* `IdentityRecord.mem_violations_iff`: what is wrong;
* `IdentityRecord.mem_reports_iff`, `IdentityRecord.exists_of_one_lt_count_report`: what is
  reported, and what is reported more than once;
* `IdentityRecord.ofMembers_eq_ok_iff`: the record that is given;
* `IdentityRecord.validates_exactly`: the schema, the values, and the reports of what is wrong.
-/

namespace PeerIdentity.IdentityRecord

open Json (HasKey Holds)

variable {members : List (String × Json)} {key : String} {f g : Field} {v : Json}

/-! ## Fields -/

namespace Field

/-- A field is given under its alias or under its name. -/
def IsKey (f : Field) (key : String) : Prop :=
  key = f.aliasName ∨ key = f.name

/-- The values of the type of a field: texts, and truth values for the last field. -/
def Admits (f : Field) (v : Json) : Prop :=
  if f = inlined then ∃ b, v = .bool b else ∃ s, v = .text s

/-- No key belongs to two fields. -/
theorem eq_of_isKey (hf : f.IsKey key) (hg : g.IsKey key) : f = g := by
  cases f <;> cases g <;> first
    | rfl
    | (rcases hf with rfl | rfl <;> simp [IsKey, aliasName, name] at hg)

theorem mem_all (f : Field) : f ∈ all := by
  cases f <;> decide

theorem nodup_all : all.Nodup := by
  decide

end Field

/-- The check of a value's type accepts the values of the type. -/
theorem hasType_iff : hasType f v = true ↔ f.Admits v := by
  cases f <;> cases v <;> simp [hasType, Field.Admits]

/-! ## Keys that count -/

/-- The key that counts for a field: the alias, or the name if there is no member with the alias. -/
def IsChosen (members : List (String × Json)) (f : Field) (key : String) : Prop :=
  HasKey members key ∧ (key = f.aliasName ∨ key = f.name ∧ ¬ HasKey members f.aliasName)

/-- The key that counts is one of the field. -/
theorem IsChosen.isKey (h : IsChosen members f key) : f.IsKey key :=
  h.2.imp_right And.left

/-- A field that is given under some key has one that counts. -/
theorem exists_isChosen (hkey : f.IsKey key) (h : HasKey members key) :
    ∃ key, IsChosen members f key := by
  by_cases halias : HasKey members f.aliasName
  · exact ⟨_, halias, .inl rfl⟩
  · rcases hkey with rfl | rfl
    · exact absurd h halias
    · exact ⟨_, h, .inr ⟨rfl, halias⟩⟩

/-- The key that counts is found. -/
theorem key?_of_isChosen (h : IsChosen members f key) : key? members f = some key := by
  obtain ⟨hkey, rfl | ⟨rfl, halias⟩⟩ := h
  · simp [key?, Json.isSome_lookup?_iff.mpr hkey]
  · have hnone := Json.lookup?_eq_none_iff.mpr halias
    simp [key?, hnone, Json.isSome_lookup?_iff.mpr hkey]

/-- What is found as the key of a field is the one that counts. -/
theorem key?_eq_some_iff : key? members f = some key ↔ IsChosen members f key := by
  constructor
  · intro h
    obtain ⟨chosen, hchosen⟩ : ∃ chosen, IsChosen members f chosen := by
      rw [key?] at h
      have hkey : f.IsKey key := by simpa [Field.IsKey] using List.mem_of_find?_eq_some h
      have hhas := List.find?_some h
      exact exists_isChosen hkey (Json.isSome_lookup?_iff.mp hhas)
    obtain rfl : chosen = key := Option.some.inj ((key?_of_isChosen hchosen).symm.trans h)
    exact hchosen
  · exact key?_of_isChosen

/-- A field is given under no key exactly if none of its keys is there. -/
theorem key?_eq_none_iff :
    key? members f = none ↔ ∀ key, f.IsKey key → ¬ HasKey members key := by
  rw [Option.eq_none_iff_forall_ne_some]
  constructor
  · intro h key hkey hhas
    obtain ⟨chosen, hchosen⟩ := exists_isChosen hkey hhas
    exact h chosen (key?_of_isChosen hchosen)
  · intro h key hkey
    have hchosen := key?_eq_some_iff.mp hkey
    exact h key hchosen.isKey hchosen.1

/-- One key counts only. -/
theorem IsChosen.unique {other : String} (h : IsChosen members f key)
    (hother : IsChosen members f other) : key = other :=
  Option.some.inj ((key?_of_isChosen h).symm.trans (key?_of_isChosen hother))

/-- The value of a field is that of the key that counts. -/
theorem value?_eq_some_iff :
    value? members f = some v ↔ ∃ key, IsChosen members f key ∧ Holds members key v := by
  simp only [value?, Option.bind_eq_some_iff, key?_eq_some_iff, Json.lookup?_eq_some_iff]

/-! ## What is wrong -/

/-- What is wrong with a field: it is given under no key, or the value under the key that counts is
of another type. -/
theorem fieldViolation?_eq_some_iff {w : Violation} : fieldViolation? members f = some w ↔
    (w = .missing f ∧ ∀ key, f.IsKey key → ¬ HasKey members key) ∨
    ∃ key v, w = .wrongType f key ∧ IsChosen members f key ∧ Holds members key v ∧
      ¬ f.Admits v := by
  rw [fieldViolation?, ← key?_eq_none_iff]
  cases hkey : key? members f with
  | none => simp [← key?_eq_some_iff, hkey, eq_comm]
  | some key =>
    have hchosen := key?_eq_some_iff.mp hkey
    obtain ⟨v, hv⟩ := Json.exists_holds hchosen.1
    have hlookup := Json.lookup?_eq_some_iff.mpr hv
    by_cases htype : f.Admits v
    · simp only [hlookup, Option.any_some, hasType_iff.mpr htype, if_true, reduceCtorEq, and_false,
        false_or, false_iff]
      rintro ⟨other, w, -, hother, hw, hnot⟩
      obtain rfl := hchosen.unique hother
      exact hnot (hv.unique hw ▸ htype)
    · simp only [hlookup, Option.any_some, mt hasType_iff.mp htype, if_false, Option.some.injEq,
        reduceCtorEq, and_false, false_or]
      constructor
      · rintro rfl
        exact ⟨key, v, rfl, hchosen, hv, htype⟩
      · rintro ⟨other, w, rfl, hother, -⟩
        rw [hchosen.unique hother]

/-- The keys under which fields are given are those that count. -/
theorem mem_usedKeys : key ∈ usedKeys members ↔ ∃ f, IsChosen members f key := by
  simp [usedKeys, key?_eq_some_iff, Field.mem_all]

/-- What is told of the fields: those that are not given, and values that count and are of another
type. -/
theorem mem_fieldViolations_iff {w : Violation} :
    w ∈ Field.all.filterMap (fieldViolation? members) ↔
      (∃ f, w = .missing f ∧ ∀ key, f.IsKey key → ¬ HasKey members key) ∨
      ∃ f key v, w = .wrongType f key ∧ IsChosen members f key ∧ Holds members key v ∧
        ¬ f.Admits v := by
  have hfields : w ∈ Field.all.filterMap (fieldViolation? members) ↔
      ∃ f, fieldViolation? members f = some w := by
    simp [List.mem_filterMap, Field.mem_all]
  simp only [hfields, fieldViolation?_eq_some_iff, exists_or]

/-- What is told of the keys: those that do not count. -/
theorem mem_extraViolations_iff {w : Violation} :
    w ∈ ((Json.keys members).filter fun key =>
        ¬ (usedKeys members).contains key).map Violation.extra ↔
      ∃ key, w = .extra key ∧ HasKey members key ∧ ∀ f, ¬ IsChosen members f key := by
  simp only [List.mem_map, List.mem_filter, Json.mem_keys, List.contains_iff_mem, mem_usedKeys,
    decide_eq_true_eq, not_exists]
  exact exists_congr fun key => by rw [and_comm, eq_comm]

/-- What is wrong: fields that are not given, values that count and are of another type, and keys
that do not count. -/
theorem mem_violations_iff {w : Violation} : w ∈ violations members ↔
    (∃ f, w = .missing f ∧ ∀ key, f.IsKey key → ¬ HasKey members key) ∨
    (∃ f key v, w = .wrongType f key ∧ IsChosen members f key ∧ Holds members key v ∧
      ¬ f.Admits v) ∨
    ∃ key, w = .extra key ∧ HasKey members key ∧ ∀ f, ¬ IsChosen members f key := by
  rw [violations, List.mem_append, mem_fieldViolations_iff, mem_extraViolations_iff, or_assoc]

/-- The members follow the strict schema. -/
structure IsStrict (members : List (String × Json)) : Prop where
  /-- Each field is given under one of its keys and not under another, with a value of its type. -/
  given (f : Field) : ∃ key v, f.IsKey key ∧ Holds members key v ∧ f.Admits v ∧
    ∀ other, f.IsKey other → HasKey members other → other = key
  /-- Each key is that of a field. -/
  known (key : String) : HasKey members key → ∃ f : Field, f.IsKey key

/-- In terms of the keys that count: each field has one, with a value of its type, and each key is
one. -/
theorem isStrict_iff : IsStrict members ↔
    (∀ f, ∃ key v, IsChosen members f key ∧ Holds members key v ∧ f.Admits v) ∧
      ∀ key, HasKey members key → ∃ f, IsChosen members f key := by
  constructor
  · intro h
    refine ⟨fun f => ?_, fun key hhas => ?_⟩
    · obtain ⟨given, v, hgiven, hv, htype, honly⟩ := h.given f
      obtain ⟨chosen, hchosen⟩ := exists_isChosen hgiven hv.hasKey
      obtain rfl := honly chosen hchosen.isKey hchosen.1
      exact ⟨chosen, v, hchosen, hv, htype⟩
    · obtain ⟨f, hkey⟩ := h.known key hhas
      obtain ⟨chosen, hchosen⟩ := exists_isChosen hkey hhas
      obtain ⟨given, -, -, -, -, honly⟩ := h.given f
      have hsame := (honly chosen hchosen.isKey hchosen.1).trans (honly key hkey hhas).symm
      exact ⟨f, hsame ▸ hchosen⟩
  · rintro ⟨hgiven, hcounts⟩
    refine ⟨fun f => ?_, fun key hhas => (hcounts key hhas).imp fun _ hf => hf.isKey⟩
    obtain ⟨key, v, hchosen, hv, htype⟩ := hgiven f
    refine ⟨key, v, hchosen.isKey, hv, htype, fun other hother hhas => ?_⟩
    -- Another key of the field counts for some field, and this is the same one.
    obtain ⟨g, hg⟩ := hcounts other hhas
    obtain rfl := Field.eq_of_isKey hg.isKey hother
    exact hg.unique hchosen

/-- Nothing is wrong with the members exactly if they follow the schema. -/
theorem violations_eq_nil_iff : violations members = [] ↔ IsStrict members := by
  rw [isStrict_iff, List.eq_nil_iff_forall_not_mem]
  simp only [mem_violations_iff]
  constructor
  -- Whatever keeps the members from following the schema is a violation of its own kind.
  · intro h
    refine ⟨fun f => ?_, fun key hhas => ?_⟩
    · obtain ⟨key, hkey, hhas⟩ : ∃ key, f.IsKey key ∧ HasKey members key := by
        by_contra hnone
        exact h (.missing f) (.inl ⟨f, rfl, fun key hkey hhas => hnone ⟨key, hkey, hhas⟩⟩)
      obtain ⟨chosen, hchosen⟩ := exists_isChosen hkey hhas
      obtain ⟨v, hv⟩ := Json.exists_holds hchosen.1
      refine ⟨chosen, v, hchosen, hv, ?_⟩
      by_contra htype
      exact h (.wrongType f chosen) (.inr (.inl ⟨f, chosen, v, rfl, hchosen, hv, htype⟩))
    · by_contra hnone
      exact h (.extra key) (.inr (.inr ⟨key, rfl, hhas, not_exists.mp hnone⟩))
  · rintro ⟨hgiven, hcounts⟩ w
      (⟨f, -, hnone⟩ | ⟨f, key, v, -, hchosen, hv, htype⟩ | ⟨key, -, hhas, hnone⟩)
    · obtain ⟨key, v, hchosen, -⟩ := hgiven f
      exact hnone key hchosen.isKey hchosen.1
    · obtain ⟨given, u, hgiven, hu, hadmits⟩ := hgiven f
      obtain rfl := hgiven.unique hchosen
      exact htype (hv.unique hu ▸ hadmits)
    · obtain ⟨f, hf⟩ := hcounts key hhas
      exact hnone f hf

/-- The key under which a field is given is the one that counts. -/
theorem IsStrict.value?_eq_some_iff (h : IsStrict members) : value? members f = some v ↔
    ∀ key, f.IsKey key → HasKey members key → Holds members key v := by
  obtain ⟨given, w, hgiven, hw, -, honly⟩ := h.given f
  obtain ⟨chosen, hchosen⟩ := exists_isChosen hgiven hw.hasKey
  obtain rfl := honly chosen hchosen.isKey hchosen.1
  rw [IdentityRecord.value?_eq_some_iff]
  constructor
  · rintro ⟨key, hkey, hv⟩ other hother hhas
    rwa [honly other hother hhas, hchosen.unique hkey]
  · intro hv
    exact ⟨chosen, hchosen, hv chosen hgiven hw.hasKey⟩

/-! ## The record -/

/-- A record is given by the values of its fields. -/
theorem eq_of_value {r s : IdentityRecord} (h : ∀ f, r.value f = s.value f) : r = s := by
  cases r
  cases s
  have hkeyType := h .keyType
  have hpeerId := h .peerId
  have hpeerIdCid := h .peerIdCid
  have hpublicKey := h .publicKey
  have hinlined := h .inlined
  simp_all [value]

/-- The fields of a record have values of their types. -/
theorem admits_value (r : IdentityRecord) (f : Field) : f.Admits (r.value f) := by
  cases f <;> simp [Field.Admits, value]

/-- Members that follow the schema give a record with their values. -/
theorem exists_ofMembers (h : IsStrict members) :
    ∃ r, ofMembers members = .ok r ∧ ∀ f, value? members f = some (r.value f) := by
  have hvalue (f : Field) : ∃ v, value? members f = some v ∧ f.Admits v := by
    obtain ⟨key, v, hkey, hv, htype, honly⟩ := h.given f
    refine ⟨v, h.value?_eq_some_iff.mpr fun other hother hhas => ?_, htype⟩
    rwa [honly other hother hhas]
  -- The flag is the only field that is not a text, so the fields are read in two ways.
  have htext (f : Field) (hf : f ≠ .inlined) :
      value? members f = some (.text (textOf members f)) := by
    obtain ⟨v, hv, htype⟩ := hvalue f
    obtain ⟨s, rfl⟩ : ∃ s, v = .text s := by rwa [Field.Admits, if_neg hf] at htype
    rw [textOf, hv]
  have hflag : value? members .inlined = some (.bool (flagOf members .inlined)) := by
    obtain ⟨v, hv, htype⟩ := hvalue .inlined
    obtain ⟨b, rfl⟩ : ∃ b, v = .bool b := htype
    rw [flagOf, hv]
  rw [ofMembers, violations_eq_nil_iff.mpr h]
  refine ⟨_, rfl, fun f => ?_⟩
  cases f with
  | inlined => exact hflag
  | _ => exact htext _ nofun

/-- Members that do not follow the schema are refused with everything that is wrong. -/
theorem ofMembers_of_not_isStrict (h : ¬ IsStrict members) :
    ofMembers members = .error (violations members) := by
  unfold ofMembers
  split
  next hnil => exact absurd (violations_eq_nil_iff.mp hnil) h
  next => rfl

/-- A record is given by the members that follow the schema and have its values. -/
theorem ofMembers_eq_ok_iff {r : IdentityRecord} : ofMembers members = .ok r ↔
    IsStrict members ∧ ∀ (f : Field) (key : String), f.IsKey key → HasKey members key →
      Holds members key (r.value f) := by
  by_cases h : IsStrict members
  · obtain ⟨s, hs, hvalues⟩ := exists_ofMembers h
    simp only [← h.value?_eq_some_iff]
    rw [hs, Except.ok.injEq]
    constructor
    · rintro rfl
      exact ⟨h, hvalues⟩
    · rintro ⟨-, hr⟩
      exact eq_of_value fun f => Option.some.inj ((hvalues f).symm.trans (hr f))
  · rw [ofMembers_of_not_isStrict h]
    exact ⟨nofun, fun hr => absurd hr.1 h⟩

end PeerIdentity.IdentityRecord
