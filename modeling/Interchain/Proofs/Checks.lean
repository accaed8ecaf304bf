/-!
# Checks in sequence

What comes after a check is reached exactly if the check succeeds, and how its failure is
reported does not matter for its success.
-/

namespace Interchain

variable {ε α β : Type}

/-- A sequence of two steps succeeds if the first one does and then the second one. -/
theorem bind_eq_ok_iff {x : Except ε α} {f : α → Except ε β} {b : β} :
  x >>= f = .ok b ↔ ∃ a, x = .ok a ∧ f a = .ok b
  := by
  cases x with
  | error e => simp [Bind.bind, Except.bind]
  | ok a => simp [Bind.bind, Except.bind]

/-- A result is put into another form if there is one. -/
theorem map_eq_ok_iff {x : Except ε α} {f : α → β} {b : β} :
  f <$> x = .ok b ↔ ∃ a, x = .ok a ∧ f a = b
  := by
  cases x with
  | error e => simp [Functor.map, Except.map]
  | ok a => simp [Functor.map, Except.map]

/-- An error is the same into whatever form a result would be put. -/
theorem map_eq_error_iff {x : Except ε α} {f : α → β} {e : ε} :
  f <$> x = .error e ↔ x = .error e
  := by
  cases x with
  | error e => simp [Functor.map, Except.map]
  | ok a => simp [Functor.map, Except.map]

/-- A result is the same however its errors are reported. -/
theorem mapError_eq_ok_iff {δ : Type} {x : Except ε α} {f : ε → δ} {a : α} :
  x.mapError f = .ok a ↔ x = .ok a
  := by
  cases x with
  | error e => exact ⟨nofun, nofun⟩
  | ok b =>
      -- the two sides are results of different types
      constructor
      · intro h
        cases h
        rfl
      · intro h
        cases h
        rfl

end Interchain
