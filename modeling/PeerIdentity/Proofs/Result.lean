/-!
# Results of readers

A reader ends in a value or in an error. These lemmas say when the outcome of a reader whose value
or whose error is transformed is a given value.

* `mapError_eq_ok_iff`: transforming errors keeps values;
* `map_eq_ok_iff`: a transformed value comes from a value;
* `toOption_eq_some_iff`: forgetting errors keeps values.
-/

namespace PeerIdentity

variable {α β ε δ : Type} {x : Except ε α}

@[simp]
theorem mapError_ok {f : ε → δ} {a : α} : (Except.ok a).mapError f = .ok a :=
  rfl

@[simp]
theorem mapError_error {f : ε → δ} {e : ε} :
    (Except.error e : Except ε α).mapError f = .error (f e) :=
  rfl

/-- Renaming errors changes no result. -/
theorem mapError_eq_ok_iff {f : ε → δ} {a : α} : x.mapError f = .ok a ↔ x = .ok a := by
  cases x <;> simp

theorem map_eq_ok_iff {f : α → β} {b : β} : x.map f = .ok b ↔ ∃ a, x = .ok a ∧ f a = b := by
  cases x <;> simp [Except.map]

theorem toOption_eq_some_iff {a : α} : x.toOption = some a ↔ x = .ok a := by
  cases x <;> simp [Except.toOption]

end PeerIdentity
