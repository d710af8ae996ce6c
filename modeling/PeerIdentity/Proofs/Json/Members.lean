import PeerIdentity.Json.Value

/-!
# Members of an object

An object may have several members with one key. The last of them counts, so a look-up finds a value
exactly if a member with the key has it and no member after that one has the key.

* `Json.HasKey`, `Json.Holds`: the keys of an object, and the values that count;
* `Json.lookup?_eq_some_iff`, `Json.lookup?_eq_none_iff`: look-ups;
* `Json.mem_keys`: the list of keys;
* `Json.holds_of_nodup`: without repeated keys, every value counts.
-/

namespace PeerIdentity.Json

variable {members : List (String × Json)} {key : String} {v w : Json}

/-- Some member has the key. -/
def HasKey (members : List (String × Json)) (key : String) : Prop :=
  ∃ v, (key, v) ∈ members

/-- The last of the members with the key has the value. -/
def Holds (members : List (String × Json)) (key : String) (v : Json) : Prop :=
  ∃ before after, members = before ++ (key, v) :: after ∧ ¬ HasKey after key

/-- The keys of an object are the first parts of its members. -/
theorem hasKey_iff : HasKey members key ↔ key ∈ members.map Prod.fst := by
  simp [HasKey]

/-- A key with a value is one of the object. -/
theorem Holds.hasKey (h : Holds members key v) : HasKey members key := by
  obtain ⟨before, after, rfl, -⟩ := h
  exact ⟨v, List.mem_append_right _ List.mem_cons_self⟩

/-- The members with a key that none of them has are none. -/
theorem filter_eq_nil_iff : members.filter (fun m => m.1 = key) = [] ↔ ¬ HasKey members key := by
  simp only [List.filter_eq_nil_iff, decide_eq_true_eq]
  constructor
  · rintro h ⟨v, hv⟩
    exact h _ hv rfl
  · rintro h ⟨k, v⟩ hm rfl
    exact h ⟨v, hm⟩

/-! ## Look-ups -/

/-- A look-up finds the value that counts. -/
theorem lookup?_eq_some_iff : lookup? members key = some v ↔ Holds members key v := by
  rw [lookup?, Option.map_eq_some_iff]
  constructor
  · rintro ⟨⟨k, w⟩, hlast, rfl⟩
    obtain ⟨others, hfilter⟩ := List.getLast?_eq_some_iff.mp hlast
    -- The members are split where the last one with the key stands.
    obtain ⟨start, rest, rfl, -, hrest⟩ := List.filter_eq_append_iff.mp hfilter
    obtain ⟨middle, after, rfl, -, hkey, hafter⟩ := List.filter_eq_cons_iff.mp hrest
    obtain rfl : k = key := by simpa using hkey
    exact ⟨start ++ middle, after, by rw [List.append_assoc], filter_eq_nil_iff.mp hafter⟩
  · rintro ⟨before, after, rfl, hafter⟩
    refine ⟨(key, v), ?_, rfl⟩
    rw [List.filter_append, List.filter_cons_of_pos (by simp), filter_eq_nil_iff.mpr hafter,
      List.getLast?_concat]

/-- A look-up finds nothing exactly if no member has the key. -/
theorem lookup?_eq_none_iff : lookup? members key = none ↔ ¬ HasKey members key := by
  rw [lookup?, Option.map_eq_none_iff, List.getLast?_eq_none_iff, filter_eq_nil_iff]

/-- A look-up finds something exactly if some member has the key. -/
theorem isSome_lookup?_iff : (lookup? members key).isSome ↔ HasKey members key := by
  rw [Option.isSome_iff_ne_none, Ne, lookup?_eq_none_iff, Classical.not_not]

/-- Each key of an object has a value that counts. -/
theorem exists_holds (h : HasKey members key) : ∃ v, Holds members key v := by
  obtain ⟨v, hv⟩ := Option.isSome_iff_exists.mp (isSome_lookup?_iff.mpr h)
  exact ⟨v, lookup?_eq_some_iff.mp hv⟩

/-- One value counts only. -/
theorem Holds.unique (hv : Holds members key v) (hw : Holds members key w) : v = w := by
  rw [← lookup?_eq_some_iff] at hv hw
  exact Option.some.inj (hv.symm.trans hw)

/-- Where no key is repeated, every value counts. -/
theorem holds_of_nodup (h : (members.map Prod.fst).Nodup) (hmem : (key, v) ∈ members) :
    Holds members key v := by
  obtain ⟨before, after, rfl⟩ := List.append_of_mem hmem
  refine ⟨before, after, rfl, ?_⟩
  rw [List.map_append, List.map_cons] at h
  rw [hasKey_iff]
  exact (List.nodup_cons.mp (List.nodup_append.mp h).2.1).1

/-! ## Keys -/

/-- The list of keys has the keys of the object, and no others. -/
theorem mem_keys : key ∈ keys members ↔ HasKey members key :=
  hasKey_iff.symm

end PeerIdentity.Json
