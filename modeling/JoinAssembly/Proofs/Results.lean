import Mathlib.Tactic.Lemma

/-!
# Results of steps in turn

When a computation that may fail succeeds, and when it fails, told by its steps.
-/

namespace JoinAssembly

section Results

variable {ε α β : Type} {x : Except ε α}

lemma map_eq_ok_iff {f : α → β} {b : β} : f <$> x = .ok b ↔ ∃ a, x = .ok a ∧ f a = b := by
  cases x <;> simp [Functor.map, Except.map]

lemma map_eq_error_iff {f : α → β} {e : ε} : f <$> x = .error e ↔ x = .error e := by
  cases x <;> simp [Functor.map, Except.map]

lemma bind_eq_ok_iff {f : α → Except ε β} {b : β} :
    x >>= f = .ok b ↔ ∃ a, x = .ok a ∧ f a = .ok b := by
  cases x <;> simp [bind, Except.bind]

/-- If it does not depend on the result of the first step whether the second one fails, then one of
them has to fail. -/
lemma exists_bind_eq_error_iff {f : α → Except ε β} {P : Prop}
    (hf : ∀ a, x = .ok a → ((∃ e, f a = .error e) ↔ P)) :
    (∃ e, x >>= f = .error e) ↔ (∃ e, x = .error e) ∨ P := by
  cases x with
  | error e => simp [bind, Except.bind]
  | ok a => simpa [bind, Except.bind] using hf a rfl

lemma toOption_bind (x : Except ε α) (f : α → Except ε β) :
    (x >>= f).toOption = x.toOption.bind fun a => (f a).toOption := by
  cases x <;> rfl

lemma toOption_map (f : α → β) (x : Except ε α) : (f <$> x).toOption = x.toOption.map f := by
  cases x <;> rfl

lemma toOption_eq_some {a : α} : x.toOption = some a ↔ x = .ok a := by
  cases x <;> simp [Except.toOption]

lemma toOption_eq_none : x.toOption = none ↔ ∃ e, x = .error e := by
  cases x <;> simp [Except.toOption]

lemma map_mapError {f : α → β} {δ : Type} (g : ε → δ) :
    (x.mapError g).map f = (x.map f).mapError g := by
  cases x <;> rfl

end Results

end JoinAssembly
