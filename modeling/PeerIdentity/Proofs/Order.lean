import PeerIdentity.Proofs.Interchange

/-!
# The order of public keys

Keys of one algorithm are ordered by their encodings, and keys of different algorithms have no
order. The encodings of RSA keys differ in length, so the order also says which one comes first of a
byte string and a proper beginning of it. As a key is its encoding, the order of keys is as total as
that of byte strings, and a list of keys has only one sorted form.

* `Bytes.Precedes`: the lexicographic order, in terms of common beginnings;
* `PublicKey.lt_eq_true_iff`: the order of keys is the lexicographic order of their encodings;
* `PublicKey.lt_trichotomy`, `PublicKey.lt_trans`: it is total and transitive;
* `PublicKey.le_eq_map_lt`, `PublicKey.gt_eq_map_lt`, `PublicKey.ge_eq_map_lt`: the other
  comparisons come from it and from equality;
* `PublicKey.exists_sort`: the sorted form of a list of keys, in whatever order they are given;
* `PublicKey.totally_ordered`: the order within an algorithm and its absence across algorithms.
-/

namespace PeerIdentity

/-! ## The lexicographic order -/

/-- A byte string comes before another one: it is a proper beginning of it, or it has the smaller
byte where they first differ. -/
def Bytes.Precedes (x y : Bytes) : Prop :=
  (∃ rest, rest ≠ [] ∧ y = x ++ rest) ∨
    ∃ (shared x' y' : Bytes) (c d : UInt8), c < d ∧ x = shared ++ c :: x' ∧ y = shared ++ d :: y'

namespace Bytes

/-- A byte in front of both strings does not change which comes before. -/
theorem Precedes.cons {x y : Bytes} (h : x.Precedes y) (c : UInt8) :
    Precedes (c :: x) (c :: y) := by
  obtain ⟨rest, hrest, rfl⟩ | ⟨shared, x', y', a, b, hlt, rfl, rfl⟩ := h
  · exact .inl ⟨rest, hrest, rfl⟩
  · exact .inr ⟨c :: shared, x', y', a, b, hlt, rfl, rfl⟩

/-- What comes before is smaller in the order of lists. -/
theorem Precedes.lt {x y : Bytes} (h : x.Precedes y) : x < y := by
  obtain ⟨rest, hrest, rfl⟩ | ⟨shared, x', y', a, b, hlt, rfl, rfl⟩ := h
  · induction x with
    | nil =>
      obtain ⟨c, rest, rfl⟩ := List.exists_cons_of_ne_nil hrest
      exact List.nil_lt_cons c rest
    | cons c x ih => exact List.cons_lt_cons_iff.mpr (.inr ⟨rfl, ih⟩)
  · induction shared with
    | nil => exact List.cons_lt_cons_iff.mpr (.inl hlt)
    | cons c shared ih => exact List.cons_lt_cons_iff.mpr (.inr ⟨rfl, ih⟩)

/-- What is smaller in the order of lists comes before. -/
theorem precedes_of_lt {x y : Bytes} (h : x < y) : x.Precedes y := by
  induction x generalizing y with
  | nil =>
    refine .inl ⟨y, ?_, rfl⟩
    rintro rfl
    exact List.lt_irrefl _ h
  | cons c x ih =>
    cases y with
    | nil => exact absurd h (List.not_lt_nil _)
    | cons d y =>
      obtain hlt | ⟨rfl, htail⟩ := List.cons_lt_cons_iff.mp h
      · exact .inr ⟨[], x, y, c, d, hlt, rfl, rfl⟩
      · exact (ih htail).cons c

/-- The order of byte strings is the lexicographic one. -/
theorem lt_iff_precedes {x y : Bytes} : x < y ↔ x.Precedes y :=
  ⟨precedes_of_lt, Precedes.lt⟩

end Bytes

namespace PublicKey

variable {a b c : PublicKey}

/-! ## Comparisons -/

/-- Keys are equal if they have the same algorithm and the same encoding. -/
theorem eq_iff : a = b ↔ a.keyType = b.keyType ∧ a.rawBytes = b.rawBytes := by
  constructor
  · rintro rfl
    exact ⟨rfl, rfl⟩
  · rintro ⟨htype, hraw⟩
    exact rawBytes_injective htype hraw

/-- Keys of one algorithm are equal exactly if their encodings are. -/
theorem eq_iff_of_keyType_eq (h : a.keyType = b.keyType) : a = b ↔ a.rawBytes = b.rawBytes :=
  eq_iff.trans (and_iff_right h)

section Comparisons

variable {relation : Bytes → Bytes → Bool}

/-- Keys of one algorithm are compared by their encodings. -/
theorem compareBy_of_keyType_eq (h : a.keyType = b.keyType) :
    compareBy relation a b = .ok (relation a.rawBytes b.rawBytes) :=
  if_pos h

/-- Keys of different algorithms are not compared, and the fault names both, the left one first. -/
theorem compareBy_of_keyType_ne (h : a.keyType ≠ b.keyType) :
    compareBy relation a b = .error ⟨a.keyType, b.keyType⟩ :=
  if_neg h

/-- A comparison holds exactly if the keys are of one algorithm and their encodings compare so. -/
theorem compareBy_eq_true_iff : compareBy relation a b = .ok true ↔
    a.keyType = b.keyType ∧ relation a.rawBytes b.rawBytes = true := by
  by_cases h : a.keyType = b.keyType
  · simp [compareBy_of_keyType_eq h, h]
  · simp [compareBy_of_keyType_ne h, h]

/-- A comparison by one relation is got from a comparison by another one, if this is so for the
encodings of keys of one algorithm. -/
theorem compareBy_eq_map {relation' : Bytes → Bytes → Bool} {f : Bool → Bool}
    (h : a.keyType = b.keyType →
      relation' a.rawBytes b.rawBytes = f (relation a.rawBytes b.rawBytes)) :
    compareBy relation' a b = (compareBy relation a b).map f := by
  by_cases htype : a.keyType = b.keyType
  · rw [compareBy_of_keyType_eq htype, compareBy_of_keyType_eq htype, h htype]
    rfl
  · rw [compareBy_of_keyType_ne htype, compareBy_of_keyType_ne htype]
    rfl

end Comparisons

/-- Keys of one algorithm are ordered like their encodings. -/
theorem lt_of_keyType_eq (h : a.keyType = b.keyType) :
    a.lt b = .ok (decide (a.rawBytes < b.rawBytes)) :=
  compareBy_of_keyType_eq h

/-- A key is smaller exactly if it is of one algorithm with the other and its encoding comes
before. -/
theorem lt_eq_true_iff :
    a.lt b = .ok true ↔ a.keyType = b.keyType ∧ a.rawBytes.Precedes b.rawBytes := by
  rw [lt, compareBy_eq_true_iff, decide_eq_true_iff, Bytes.lt_iff_precedes]

/-- The order is transitive. -/
theorem lt_trans (hab : a.lt b = .ok true) (hbc : b.lt c = .ok true) : a.lt c = .ok true := by
  rw [lt_eq_true_iff, ← Bytes.lt_iff_precedes] at *
  exact ⟨hab.1.trans hbc.1, List.lt_trans hab.2 hbc.2⟩

/-- Of two keys of one algorithm, either one comes before the other one, or they are equal. -/
theorem lt_trichotomy (h : a.keyType = b.keyType) :
    (a.lt b = .ok true ∧ a ≠ b ∧ b.lt a = .ok false) ∨
    (a.lt b = .ok false ∧ a = b ∧ b.lt a = .ok false) ∨
    (a.lt b = .ok false ∧ a ≠ b ∧ b.lt a = .ok true) := by
  rw [lt_of_keyType_eq h, lt_of_keyType_eq h.symm, ne_eq, eq_iff_of_keyType_eq h]
  simp only [Except.ok.injEq, decide_eq_true_iff, decide_eq_false_iff_not]
  rcases Std.lt_trichotomy a.rawBytes b.rawBytes with hlt | hsame | hgt
  · exact .inl ⟨hlt, fun hsame => List.lt_irrefl _ (hsame ▸ hlt), List.lt_asymm hlt⟩
  · rw [hsame]
    exact .inr (.inl ⟨List.lt_irrefl _, rfl, List.lt_irrefl _⟩)
  · exact .inr (.inr ⟨List.lt_asymm hgt, fun hsame => List.lt_irrefl _ (hsame ▸ hgt), hgt⟩)

/-! ## The other comparisons -/

/-- A key comes before another one or is the same, as the order and equality have it. -/
theorem le_eq_map_lt (a b : PublicKey) :
    a.le b = (a.lt b).map fun before => before || decide (a = b) := by
  refine compareBy_eq_map fun h => ?_
  simp only [eq_iff_of_keyType_eq h, ← Bool.decide_or, decide_eq_decide]
  exact List.not_lt.trans List.le_iff_lt_or_eq

theorem ge_eq_map_lt (a b : PublicKey) : a.ge b = (a.lt b).map fun before => !before :=
  compareBy_eq_map fun _ => decide_not

theorem gt_eq_map_lt (a b : PublicKey) :
    a.gt b = (a.lt b).map fun before => !before && decide (a ≠ b) := by
  refine compareBy_eq_map fun h => ?_
  simp only [ne_eq, eq_iff_of_keyType_eq h, ← decide_not, ← Bool.decide_and, decide_eq_decide]
  rw [← not_or, ← List.le_iff_lt_or_eq, List.not_le]

/-- Between keys of one algorithm, the comparisons are those with the operands exchanged. -/
theorem exchange (h : a.keyType = b.keyType) : a.gt b = b.lt a ∧ a.ge b = b.le a := by
  simp only [gt, lt, ge, le, compareBy_of_keyType_eq h, compareBy_of_keyType_eq h.symm, and_self]

/-- Each comparison of keys of different algorithms fails, and names the left one first. -/
theorem compare_of_keyType_ne (h : a.keyType ≠ b.keyType) {compare : PublicKey → PublicKey →
    Except OrderFault Bool} (hmem : compare ∈ [lt, le, gt, ge]) :
    compare a b = .error ⟨a.keyType, b.keyType⟩ := by
  simp only [List.mem_cons, List.not_mem_nil, or_false] at hmem
  rcases hmem with rfl | rfl | rfl | rfl <;> exact compareBy_of_keyType_ne h

/-! ## Sorted lists -/

/-- The encodings of a list of keys ascend. -/
def IsAscending (ks : List PublicKey) : Prop :=
  ks.Pairwise fun a b => a.rawBytes ≤ b.rawBytes

/-- Keys of one algorithm are sorted by their encodings. -/
theorem sort_of_keyType {t : KeyType} {ks : List PublicKey} (h : ∀ k ∈ ks, k.keyType = t) :
    sort ks = .ok (ks.mergeSort fun a b => ¬ b.rawBytes < a.rawBytes) := by
  rw [sort]
  split
  -- Neighbours are of one algorithm, so none are found that differ.
  next a b hfound =>
    obtain ⟨ha, hb⟩ := List.of_mem_zip (List.mem_of_find?_eq_some hfound)
    have hne := List.find?_some hfound
    simp [h a ha, h b (List.mem_of_mem_tail hb)] at hne
  next => rfl

/-- The encodings of sorted keys ascend. -/
theorem isAscending_mergeSort (ks : List PublicKey) :
    IsAscending (ks.mergeSort fun a b => ¬ b.rawBytes < a.rawBytes) := by
  have hsorted := @List.pairwise_mergeSort _ (fun a b : PublicKey => ¬ b.rawBytes < a.rawBytes)
    (fun a b c hab hbc => by
      simp only [decide_eq_true_iff, List.not_lt] at *
      exact List.le_trans hab hbc)
    (fun a b => by simpa using List.le_total a.rawBytes b.rawBytes) ks
  exact hsorted.imp fun h => by simpa using h

/-- The keys of one algorithm have one ascending order only. -/
theorem IsAscending.eq_of_perm {t : KeyType} {ks ls : List PublicKey} (hk : IsAscending ks)
    (hl : IsAscending ls) (hperm : ks.Perm ls) (h : ∀ k ∈ ks, k.keyType = t) : ks = ls := by
  refine hperm.eq_of_pairwise (fun a b ha hb hab hba => ?_) hk hl
  have htype : a.keyType = b.keyType := (h a ha).trans (h b (hperm.mem_iff.mpr hb)).symm
  exact rawBytes_injective htype (List.le_antisymm hab hba)

/-- A list of keys of one algorithm has a sorted form, and every list of the same keys is sorted to
it. -/
theorem exists_sort {t : KeyType} {ks : List PublicKey} (h : ∀ k ∈ ks, k.keyType = t) :
    ∃ sorted, sort ks = .ok sorted ∧ sorted.Perm ks ∧ IsAscending sorted ∧
      ∀ other : List PublicKey, other.Perm ks →
        sort other = .ok sorted ∧ (IsAscending other → other = sorted) := by
  have hperm := List.mergeSort_perm ks fun a b => ¬ b.rawBytes < a.rawBytes
  have hascending := isAscending_mergeSort ks
  refine ⟨_, sort_of_keyType h, hperm, hascending, fun other hother => ?_⟩
  have htype : ∀ k ∈ other, k.keyType = t := fun k hk => h k (hother.mem_iff.mp hk)
  refine ⟨?_, fun hasc => hasc.eq_of_perm hascending (hother.trans hperm.symm) htype⟩
  have hsorted := List.mergeSort_perm other fun a b => ¬ b.rawBytes < a.rawBytes
  rw [sort_of_keyType htype]
  exact congrArg Except.ok ((isAscending_mergeSort other).eq_of_perm hascending
    (hsorted.trans (hother.trans hperm.symm)) fun k hk => htype k (hsorted.mem_iff.mp hk))

/-! ## All of the order -/

/-- Keys are totally ordered within an algorithm and never across. Keys are equal if they have the
same algorithm and encoding, and then they have the same hash, however they were obtained. Within an
algorithm the order is the lexicographic one of the encodings, exactly one of `a < b`, `a = b` and
`b < a` holds, and the other comparisons agree with these. Across algorithms keys differ, and every
comparison fails with the type of the left key first. So the keys of one algorithm are sorted to a
list that ascends by their encodings and does not depend on the order in which they are given. -/
theorem totally_ordered :
    (∀ a b : PublicKey, a = b ↔ a.keyType = b.keyType ∧ a.rawBytes = b.rawBytes) ∧
    (∀ x y : HeldKey, x.IsReached → y.IsReached →
      (x.IsEqual y ↔ x.key = y.key) ∧
      (x.key = y.key → ∀ hash : Bytes → Int, hash x.bytes = hash y.bytes)) ∧
    (∀ a b : PublicKey, a.keyType = b.keyType →
      (a.lt b = .ok true ↔ a.rawBytes.Precedes b.rawBytes) ∧
      ((a.lt b = .ok true ∧ a ≠ b ∧ b.lt a = .ok false) ∨
        (a.lt b = .ok false ∧ a = b ∧ b.lt a = .ok false) ∨
        (a.lt b = .ok false ∧ a ≠ b ∧ b.lt a = .ok true)) ∧
      a.gt b = b.lt a ∧ a.ge b = b.le a) ∧
    (∀ a b c : PublicKey, a.lt b = .ok true → b.lt c = .ok true → a.lt c = .ok true) ∧
    (∀ a b : PublicKey,
      a.le b = (a.lt b).map (fun before => before || decide (a = b)) ∧
      a.gt b = (a.lt b).map (fun before => !before && decide (a ≠ b)) ∧
      a.ge b = (a.lt b).map (fun before => !before)) ∧
    (∀ a b : PublicKey, a.keyType ≠ b.keyType → a ≠ b ∧
      ∀ compare ∈ [lt, le, gt, ge], ∃ fault, compare a b = .error fault ∧
        fault.message = s!"Cannot order {a.keyType.name} key against {b.keyType.name} key") ∧
    ∀ (t : KeyType) (ks : List PublicKey), (∀ k ∈ ks, k.keyType = t) →
      ∃ sorted, sort ks = .ok sorted ∧ sorted.Perm ks ∧ IsAscending sorted ∧
        ∀ other : List PublicKey, other.Perm ks →
          sort other = .ok sorted ∧ (IsAscending other → other = sorted) := by
  refine ⟨fun a b => eq_iff, fun x y hx hy => ⟨HeldKey.isEqual_iff hx hy, fun hkey hash => ?_⟩,
    fun a b h => ⟨?_, lt_trichotomy h, exchange h⟩, fun a b c => lt_trans,
    fun a b => ⟨le_eq_map_lt a b, gt_eq_map_lt a b, ge_eq_map_lt a b⟩,
    fun a b h => ⟨fun hsame => h (congrArg keyType hsame), fun compare hmem => ?_⟩,
    fun t ks h => exists_sort h⟩
  · exact congrArg hash ((HeldKey.isEqual_iff hx hy).mpr hkey).2
  · rw [lt_eq_true_iff, and_iff_right h]
  · exact ⟨_, compare_of_keyType_ne h hmem, rfl⟩

/-- Two Ed25519 keys in their order and a Dilithium key that has no order to them. -/
theorem totally_ordered_at_ed25519 :
    let a := ed25519 ⟨List.replicate 32 7, rfl⟩
    let b := ed25519 ⟨List.replicate 32 8, rfl⟩
    let c := dilithium ⟨List.replicate 2592 7, List.length_replicate⟩
    a.lt b = .ok true ∧ b.gt a = .ok true ∧
      (∃ fault, c.le a = .error fault ∧
        fault.message = "Cannot order DILITHIUM key against ED25519 key") ∧
      sort [b, a] = .ok [a, b] := by
  intro a b c
  obtain ⟨-, -, hwithin, -, -, hacross, hsort⟩ := totally_ordered
  have hlt : a.lt b = .ok true := by
    refine (hwithin a b rfl).1.mpr (.inr ⟨[], List.replicate 31 7, List.replicate 31 8, 7, 8, ?_⟩)
    exact ⟨by decide, rfl, rfl⟩
  have hgt := (hwithin b a rfl).2.2.1
  have hfault := (hacross c a (by decide)).2 le (by simp)
  obtain ⟨sorted, hsorted, -, -, hunique⟩ := hsort .ed25519 [b, a] (by simp [a, b, keyType])
  have hascending : IsAscending [a, b] := by
    simp only [IsAscending, List.pairwise_cons]
    decide
  exact ⟨hlt, hgt.trans hlt, hfault,
    hsorted.trans (congrArg _ ((hunique _ (.swap b a [])).2 hascending).symm)⟩

end PublicKey

end PeerIdentity
