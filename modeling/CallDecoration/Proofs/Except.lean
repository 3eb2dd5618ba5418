/-
  CallDecoration.Proofs.Except
  ──────────────────────────────────────
  **Results of several steps.**  When a result that may be an error is computed
  from another one, these lemmas tell what the other one was.
-/
namespace CallDecoration

variable {ε α β : Type} {x : Except ε α} {e : ε} {b : β}

theorem map_eq_ok_iff {f : α → β} : x.map f = .ok b ↔ ∃ a, x = .ok a ∧ f a = b := by
  cases x <;> simp [Except.map]

theorem map_eq_error_iff {f : α → β} : x.map f = .error e ↔ x = .error e := by
  cases x <;> simp [Except.map]

/-- Two steps succeed if the first does, and the second does with its result. -/
theorem bind_eq_ok_iff {f : α → Except ε β} :
    (x >>= f) = .ok b ↔ ∃ a, x = .ok a ∧ f a = .ok b := by
  cases x <;> simp [bind, Except.bind]

/-- Two steps fail with the error of the first, or with that of the second. -/
theorem bind_eq_error_iff {f : α → Except ε β} :
    (x >>= f) = .error e ↔ x = .error e ∨ ∃ a, x = .ok a ∧ f a = .error e := by
  cases x <;> simp [bind, Except.bind]

end CallDecoration
