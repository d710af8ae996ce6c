import PeerIdentity.Proofs.Json.Text
import PeerIdentity.Proofs.Validation

/-!
# Records survive JSON

A record is written as an object with its five fields, on one line or on many. Whatever characters
its texts hold, the object is read back, and if each field is written under one of its two keys, the
object gives the record.

* `IdentityRecord.members`: the members that are written under given keys;
* `IdentityRecord.parse_render`, `IdentityRecord.parse_renderPretty`: the texts write an object with
  these members;
* `IdentityRecord.ofMembers_members`: the members give the record;
* `IdentityRecord.survives_renderings`: the record is read back from its texts.
-/

namespace PeerIdentity.IdentityRecord

open Json (HasKey Holds IsSpelling Spells)

variable {key : Field → String} {other : String} {f : Field}

/-- The members of the object that a record is written as, under given keys. -/
def members (key : Field → String) (r : IdentityRecord) : List (String × Json) :=
  Field.all.map fun f => (key f, r.value f)

/-! ## Texts -/

/-- The notation of a field is read as its value. -/
theorem isSpelling_renderValue (r : IdentityRecord) (f : Field) :
    IsSpelling (renderValue (r.value f)) (.ofValue (r.value f)) := by
  cases f with
  | inlined =>
    show IsSpelling (renderValue (.bool r.inlined)) (.plain (.bool r.inlined))
    cases r.inlined <;> exact fun _ => rfl
  | _ => exact Json.isSpelling_literal _

/-- The text on one line writes an object with the members. -/
theorem parse_render (key : Field → String) (r : IdentityRecord) :
    Json.parse (r.render key) = some (.object (members key r)) := by
  have hnone : ∀ x ∈ ([] : List Char), Json.isSpace x := by simp
  have hobject :=
    Spells.object hnone hnone hnone (isSpelling_renderValue r) key Field.all
  apply Spells.parse_eq
  simpa [render, renderMembers, members] using hobject

/-- The text on many lines writes the same object. -/
theorem parse_renderPretty (key : Field → String) (r : IdentityRecord) :
    Json.parse (r.renderPretty key) = some (.object (members key r)) := by
  have hpad : ∀ x ∈ ['\n', ' ', ' '], Json.isSpace x := by simp [Json.isSpace]
  have hgap : ∀ x ∈ [' '], Json.isSpace x := by simp [Json.isSpace]
  have hclose : ∀ x ∈ ['\n'], Json.isSpace x := by simp [Json.isSpace]
  have hobject :=
    Spells.object hpad hgap hclose (isSpelling_renderValue r) key Field.all
  apply Spells.parse_eq
  simpa [renderPretty, renderMembers, members] using hobject

/-! ## Members -/

/-- The keys of the members are those that are chosen for the fields. -/
theorem hasKey_members_iff {r : IdentityRecord} :
    HasKey (members key r) other ↔ ∃ f, other = key f := by
  simp [Json.hasKey_iff, members, Field.mem_all, eq_comm]

section

variable (hkey : ∀ f : Field, f.IsKey (key f))

include hkey

/-- Every value counts if the keys are those of the fields. -/
theorem holds_members (r : IdentityRecord) (f : Field) :
    Holds (members key r) (key f) (r.value f) := by
  have hinjective : Function.Injective key := by
    intro f g h
    exact Field.eq_of_isKey (hkey f) (h ▸ hkey g)
  have hnodup : ((members key r).map Prod.fst).Nodup := by
    rw [members, List.map_map]
    exact Field.nodup_all.map hinjective
  exact Json.holds_of_nodup hnodup (List.mem_map_of_mem (Field.mem_all f))

/-- The key of a field is the only one of its keys that is used. -/
theorem eq_of_hasKey_members {r : IdentityRecord} (hother : f.IsKey other)
    (h : HasKey (members key r) other) : other = key f := by
  obtain ⟨g, rfl⟩ := hasKey_members_iff.mp h
  rw [Field.eq_of_isKey (hkey g) hother]

/-- Members under the keys of the fields, one for each, give the record. -/
theorem ofMembers_members (r : IdentityRecord) : ofMembers (members key r) = .ok r := by
  rw [ofMembers_eq_ok_iff]
  -- Each field is given, each key is that of a field, and the values are those of the record.
  refine ⟨⟨fun f => ?_, fun other h => ?_⟩, fun f other hother h => ?_⟩
  · exact ⟨key f, r.value f, hkey f, holds_members hkey r f, admits_value r f,
      fun _ hother h => eq_of_hasKey_members hkey hother h⟩
  · obtain ⟨f, rfl⟩ := hasKey_members_iff.mp h
    exact ⟨f, hkey f⟩
  · rw [eq_of_hasKey_members hkey hother h]
    exact holds_members hkey r f

/-! ## Round trip -/

/-- A record is read back from its text on one line. -/
theorem ofText_render (r : IdentityRecord) : ofText (r.render key) = .ok r := by
  rw [ofText, parse_render]
  exact ofMembers_members hkey r

/-- A record is read back from its text on many lines. -/
theorem ofText_renderPretty (r : IdentityRecord) : ofText (r.renderPretty key) = .ok r := by
  rw [ofText, parse_renderPretty]
  exact ofMembers_members hkey r

end

/-- A record is read back from its text on one line and from that on many lines under the aliases,
and from its text on one line under the names, whatever characters its texts hold. -/
theorem survives_renderings (r : IdentityRecord) :
    ofText (r.render Field.aliasName) = .ok r ∧ ofText (r.renderPretty Field.aliasName) = .ok r ∧
      ofText (r.render Field.name) = .ok r := by
  have halias (f : Field) : f.IsKey f.aliasName := .inl rfl
  have hname (f : Field) : f.IsKey f.name := .inr rfl
  exact ⟨ofText_render halias r, ofText_renderPretty halias r, ofText_render hname r⟩

end PeerIdentity.IdentityRecord
