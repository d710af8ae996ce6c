import Mathlib.Data.List.DropRight
import Mathlib.Data.Nat.Digits.Defs
import PeerIdentity.Text.Decimal

/-!
# Texts that write integers

The reader of integers takes the blanks off both ends of a text, then a sign, and then reads digits
from left to right. What it accepts is described here without an order of steps: a text writes an
integer if it consists of blanks, a sign or none, digits of which there are not too many, and
blanks. A text writes at most one integer, since the reader finds each.

* `Digits`: the digits with single underscores between them, and their values;
* `Signed`: digits with a sign or without, and the integer that they write;
* `Writes`: the texts that write an integer;
* `readInteger?_eq_some_iff`: the reader finds exactly the integers that texts write.
-/

namespace PeerIdentity.Decimal

/-! ## Digits -/

/-- No digit of any script is a blank. -/
theorem not_isBlank_of_digitValue? {c : Char} {d : Nat} (h : digitValue? c = some d) :
    isBlank c = false := by
  -- The ten code points from each zero on lie between two neighbouring runs of blanks.
  have hruns : ∀ z ∈ zeros, (0x20 < z ∧ z + 9 < 0x85) ∨ (0xa0 < z ∧ z + 9 < 0x1680) ∨
      (0x1680 < z ∧ z + 9 < 0x2000) ∨ 0x3000 < z := by decide
  rw [digitValue?, Option.map_eq_some_iff] at h
  obtain ⟨z, hfind, -⟩ := h
  have hz := List.find?_some hfind
  have hrun := hruns z (List.mem_of_find?_eq_some hfind)
  simp only [Bool.and_eq_true, decide_eq_true_eq] at hz
  simp only [isBlank, Bool.or_eq_false_iff, Bool.and_eq_false_iff, decide_eq_false_iff_not]
  omega

/-- Underscores and signs are no digits. -/
theorem digitValue?_eq_none {c : Char} (h : c ∈ ['_', '+', '-']) : digitValue? c = none := by
  simp only [List.mem_cons, List.not_mem_nil, or_false] at h
  rcases h with rfl | rfl | rfl <;> decide

/-- Texts of one or more digits with single underscores between them, and the values of the
digits. -/
inductive Digits : List Char → List Nat → Prop where
  | single {c : Char} {d : Nat} : digitValue? c = some d → Digits [c] [d]
  | next {c : Char} {d : Nat} {s : List Char} {ds : List Nat} :
      digitValue? c = some d → Digits s ds → Digits (c :: s) (d :: ds)
  | separated {c : Char} {d : Nat} {s : List Char} {ds : List Nat} :
      digitValue? c = some d → Digits s ds → Digits (c :: '_' :: s) (d :: ds)

namespace Digits

/-- The first character is a digit. -/
theorem exists_cons {s : List Char} {ds : List Nat} (h : Digits s ds) :
    ∃ c rest d, s = c :: rest ∧ digitValue? c = some d := by
  cases h with
  | single h | next h | separated h => exact ⟨_, _, _, rfl, h⟩

/-- The last character is a digit. -/
theorem exists_append {s : List Char} {ds : List Nat} (h : Digits s ds) :
    ∃ front c d, s = front ++ [c] ∧ digitValue? c = some d := by
  induction h with
  | single h => exact ⟨[], _, _, rfl, h⟩
  | next _ _ ih =>
    obtain ⟨front, c, d, rfl, h⟩ := ih
    exact ⟨_ :: front, c, d, rfl, h⟩
  | separated _ _ ih =>
    obtain ⟨front, c, d, rfl, h⟩ := ih
    exact ⟨_ :: '_' :: front, c, d, rfl, h⟩

end Digits

/-- A first character, with the digits that follow it at once. -/
theorem digits?_cons {c : Char} {s : List Char} {ds : List Nat} (h : Digits s ds) :
    digits? (c :: s) = (digitValue? c).bind fun d => (digits? s).map (d :: ·) := by
  obtain ⟨c', rest, d, rfl, hd⟩ := h.exists_cons
  rw [digits?]
  · simp only [Option.map_eq_bind]
    rfl
  · exact nofun
  -- No digit is an underscore, so what follows is not taken for a separator.
  · rintro _ ⟨⟩
    cases (digitValue?_eq_none (by decide)).symm.trans hd

/-- The reader of digits finds the values of texts of digits, and of no others. -/
theorem digits?_eq_some_iff {s : List Char} {ds : List Nat} :
    digits? s = some ds ↔ Digits s ds := by
  constructor
  -- The reader looks two characters ahead, and its recursion is that of the three forms.
  · intro h
    induction s using digits?.induct generalizing ds with
    | case1 => cases h
    | case2 c =>
      obtain ⟨d, hd, rfl⟩ := Option.map_eq_some_iff.mp h
      exact .single hd
    | case3 c rest ih =>
      simp only [digits?, Option.bind_eq_bind, Option.bind_eq_some_iff] at h
      obtain ⟨d, hd, ds, hds, ⟨⟩⟩ := h
      exact .separated hd (ih hds)
    | case4 c rest hempty hseparated ih =>
      simp only [digits?, Option.bind_eq_bind, Option.bind_eq_some_iff] at h
      obtain ⟨d, hd, ds, hds, ⟨⟩⟩ := h
      exact .next hd (ih hds)
  · intro h
    induction h with
    | single h => simp [digits?, h]
    | next h hs ih => simp [digits?_cons hs, h, ih]
    | separated h hs ih => simp [digits?, h, ih]

/-- The digits of a number, of which there are not too many. -/
def Number (s : List Char) (n : Nat) : Prop :=
  ∃ ds, Digits s ds ∧ ds.length ≤ digitLimit ∧ Nat.ofDigits 10 ds.reverse = n

/-- A number starts with a digit. -/
theorem Number.exists_cons {s : List Char} {n : Nat} (h : Number s n) :
    ∃ c rest d, s = c :: rest ∧ digitValue? c = some d :=
  have ⟨_, hdigits, _⟩ := h
  hdigits.exists_cons

/-- A number ends with a digit. -/
theorem Number.exists_append {s : List Char} {n : Nat} (h : Number s n) :
    ∃ front c d, s = front ++ [c] ∧ digitValue? c = some d :=
  have ⟨_, hdigits, _⟩ := h
  hdigits.exists_append

/-- The reader of numbers finds the number of every text of digits that is not too long. -/
theorem magnitude?_eq_some_iff {s : List Char} {n : Nat} : magnitude? s = some n ↔ Number s n := by
  -- The reader multiplies by ten and adds a digit, from the first digit on.
  have hvalue (ds : List Nat) :
      ds.foldl (fun n d => 10 * n + d) 0 = Nat.ofDigits 10 ds.reverse := by
    rw [Nat.ofDigits_eq_foldr, List.foldr_reverse]
    simp only [Nat.cast_id, Nat.add_comm]
  simp only [magnitude?, Option.bind_eq_bind, Option.bind_eq_some_iff, digits?_eq_some_iff,
    Option.ite_none_right_eq_some, Option.some.injEq, hvalue, Number]

/-! ## Signs -/

/-- The digits of a number, with a sign or without, and the integer that they write. -/
inductive Signed : List Char → Int → Prop where
  | bare {s : List Char} {n : Nat} : Number s n → Signed s n
  | plus {s : List Char} {n : Nat} : Number s n → Signed ('+' :: s) n
  | minus {s : List Char} {n : Nat} : Number s n → Signed ('-' :: s) (-n)

/-- An integer is read from what is left without the blanks around it. -/
theorem readInteger?_eq_some_iff_signed {text : String} {v : Int} :
    readInteger? text = some v ↔ Signed (trim text.toList) v := by
  have hminus (rest : List Char) (v : Int) :
      ((magnitude? rest).bind fun n => some (n : Int)).map (- ·) = some v ↔
        ∃ n : Nat, Number rest n ∧ -(n : Int) = v := by
    simp [Option.bind_eq_some_iff, magnitude?_eq_some_iff]
  have hplain (rest : List Char) (v : Int) :
      (magnitude? rest).map Int.ofNat = some v ↔ ∃ n : Nat, Number rest n ∧ (n : Int) = v := by
    simp [magnitude?_eq_some_iff]
  unfold readInteger?
  generalize trim text.toList = s
  constructor
  · intro h
    split at h
    · obtain ⟨n, hn, rfl⟩ := (hminus _ _).mp h
      exact .minus hn
    · obtain ⟨n, hn, rfl⟩ := (hplain _ _).mp h
      exact .plus hn
    · obtain ⟨n, hn, rfl⟩ := (hplain _ _).mp h
      exact .bare hn
  · rintro (h | h | h)
    · obtain ⟨c, rest, d, rfl, hd⟩ := h.exists_cons
      -- A digit is no sign.
      split
      next heq =>
        cases heq
        cases (digitValue?_eq_none (by decide)).symm.trans hd
      next heq =>
        cases heq
        cases (digitValue?_eq_none (by decide)).symm.trans hd
      next => exact (hplain _ _).mpr ⟨_, h, rfl⟩
    · exact (hplain _ _).mpr ⟨_, h, rfl⟩
    · exact (hminus _ _).mpr ⟨_, h, rfl⟩

/-! ## Blanks -/

/-- The first character is no blank. -/
theorem Signed.exists_cons {s : List Char} {v : Int} (h : Signed s v) :
    ∃ c rest, s = c :: rest ∧ isBlank c = false := by
  cases h with
  | bare h =>
    obtain ⟨c, rest, d, rfl, hd⟩ := h.exists_cons
    exact ⟨c, rest, rfl, not_isBlank_of_digitValue? hd⟩
  | plus | minus => exact ⟨_, _, rfl, by decide⟩

/-- The last character is no blank. -/
theorem Signed.exists_append {s : List Char} {v : Int} (h : Signed s v) :
    ∃ front c, s = front ++ [c] ∧ isBlank c = false := by
  cases h with
  | bare h =>
    obtain ⟨front, c, d, rfl, hd⟩ := h.exists_append
    exact ⟨front, c, rfl, not_isBlank_of_digitValue? hd⟩
  | plus h | minus h =>
    obtain ⟨front, c, d, rfl, hd⟩ := h.exists_append
    exact ⟨_ :: front, c, rfl, not_isBlank_of_digitValue? hd⟩

/-- Blanks are taken off from both ends, and nothing else is. -/
theorem exists_eq_append_trim (s : List Char) :
    ∃ before after, s = before ++ trim s ++ after ∧ ∀ c ∈ before ++ after, isBlank c := by
  -- What is taken off at the end is taken off after the beginning.
  refine ⟨s.takeWhile isBlank, (s.dropWhile isBlank).rtakeWhile isBlank, ?_, fun c hc => ?_⟩
  · calc s = s.takeWhile isBlank ++ s.dropWhile isBlank := List.takeWhile_append_dropWhile.symm
      _ = s.takeWhile isBlank ++ (trim s ++ (s.dropWhile isBlank).rtakeWhile isBlank) :=
        congrArg _ List.rdropWhile_append_rtakeWhile.symm
      _ = _ := (List.append_assoc ..).symm
  · obtain hc | hc := List.mem_append.mp hc
    · exact List.mem_takeWhile_imp hc
    · exact List.mem_rtakeWhile_imp hc

/-- The blanks around an integer are all taken off. -/
theorem Signed.trim_append {before core after : List Char} {v : Int} (h : Signed core v)
    (hblank : ∀ c ∈ before ++ after, isBlank c) : trim (before ++ core ++ after) = core := by
  have hbefore : ∀ c ∈ before, isBlank c := fun c hc => hblank c (List.mem_append_left _ hc)
  have hafter : ∀ c ∈ after.reverse, isBlank c := fun c hc =>
    hblank c (List.mem_append_right _ (List.mem_reverse.mp hc))
  -- Dropping stops at the core from either side.
  have hfirst : (core ++ after).dropWhile isBlank = core ++ after := by
    obtain ⟨c, rest, rfl, hc⟩ := h.exists_cons
    exact List.dropWhile_cons_of_neg (by simp [hc])
  have hlast : core.reverse.dropWhile isBlank = core.reverse := by
    obtain ⟨front, c, rfl, hc⟩ := h.exists_append
    rw [List.reverse_append]
    exact List.dropWhile_cons_of_neg (by simp [hc])
  rw [trim, List.append_assoc, List.dropWhile_append_of_pos hbefore, hfirst, List.reverse_append,
    List.dropWhile_append_of_pos hafter, hlast, List.reverse_reverse]

/-- A text writes an integer if it consists of blanks, a sign or none, digits of which there are not
too many, and blanks. -/
def Writes (text : String) (v : Int) : Prop :=
  ∃ before core after, text.toList = before ++ core ++ after ∧
    (∀ c ∈ before ++ after, isBlank c) ∧ Signed core v

/-- The reader finds exactly the integers that texts write. -/
theorem readInteger?_eq_some_iff {text : String} {v : Int} :
    readInteger? text = some v ↔ Writes text v := by
  rw [readInteger?_eq_some_iff_signed]
  constructor
  · intro h
    obtain ⟨before, after, heq, hblank⟩ := exists_eq_append_trim text.toList
    exact ⟨before, _, after, heq, hblank, h⟩
  · rintro ⟨before, core, after, heq, hblank, h⟩
    rw [heq, h.trim_append hblank]
    exact h

/-- What the reader refuses writes no integer. -/
theorem readInteger?_eq_none_iff {text : String} :
    readInteger? text = none ↔ ∀ v, ¬ Writes text v := by
  simp only [Option.eq_none_iff_forall_ne_some, ne_eq, readInteger?_eq_some_iff]

/-- Blanks, a sign, digits of two scripts and an underscore. -/
example : readInteger? " +2_0४८\n" = some 2048 := by
  decide +kernel

end PeerIdentity.Decimal
