/-
  CallDecoration.Proofs.Decoration.Resolution
  ──────────────────────────────────────
  **What a resolution leaves of an adapter.**  A resolution is a run that
  answers a wrapper or an error; if it answers a wrapper, the adapter keeps it
  (`Adapter.Resolution`).  There are four ways in which it can go
  (`Adapter.Outcome`, `Adapter.resolution_iff`): an error is always the factory's
  own, and it leaves the adapter as it was.  So of any number of resolutions, on
  whatever machines, all up to the first that succeeds ask the factory anew, and all
  after it have its wrapper (`Adapter.Resolutions.first_stays`).
-/
import CallDecoration.Proofs.Decoration.Requests
import CallDecoration.Proofs.Machine.Returning

namespace CallDecoration.Adapter

variable {σ : Type} {host : Host σ}

/-! ## §1. One resolution. -/

/-- **A resolution of the adapter `a`:** a run that begins in the machine `m` ends with
the answer `r` in the machine `m'`, and from then on the adapter is `a'`. -/
structure Resolution (host : Host σ) (m : Machine σ) (a : Adapter Value)
    (r : Except RunError Value) (a' : Adapter Value) (m' : Machine σ) : Prop where
  ends : ∃ fuel, RunState.run host fuel (.ofAction m a.resolve) = some (r, m')
  leaves : a' = a.afterResolve r

/-- **The ways in which a resolution goes:** what it answers, and which adapter and which
machine it leaves. -/
inductive Outcome (host : Host σ) (m : Machine σ) (a : Adapter Value) :
    Except RunError Value → Adapter Value → Machine σ → Prop where
  /-- The wrapper is known from before, and nothing happens. -/
  | kept {v : Value} (h : a.wrapper? = some v) : Outcome host m a (.ok v) a m
  /-- Without extra arguments the transformation is the wrapper. -/
  | itself (h : a.wrapper? = none) (hextras : a.hasExtras = false) :
      Outcome host m a (.ok a.transformation) { a with wrapper? := some a.transformation } m
  /-- The transformation, called as a factory, makes the wrapper. -/
  | made {v : Value} {m' : Machine σ} (h : a.wrapper? = none) (hextras : a.hasExtras = true)
      (hcall : RunState.Reaches host
        (.ofCall host m a.transformation ⟨a.extras, a.kwExtras⟩) ⟨.answer (.ok v), [], m'⟩) :
      Outcome host m a (.ok v) { a with wrapper? := some v } m'
  /-- The factory fails, and the adapter is what it was. -/
  | refused {e : RunError} {m' : Machine σ} (h : a.wrapper? = none) (hextras : a.hasExtras = true)
      (hcall : RunState.Reaches host
        (.ofCall host m a.transformation ⟨a.extras, a.kwExtras⟩) ⟨.answer (.error e), [], m'⟩) :
      Outcome host m a (.error e) a m'

variable {m m' : Machine σ} {a a' : Adapter Value} {r : Except RunError Value}

/-- An adapter that had no wrapper has the one that it keeps. -/
theorem keep_new (h : a.wrapper? = none) (v : Value) :
    a.keep v = { a with wrapper? := some v } := by
  unfold keep
  rw [h]
  rfl

/-- An adapter that has a wrapper keeps no other. -/
theorem keep_kept {v : Value} (h : a.wrapper? = some v) (v' : Value) : a.keep v' = a := by
  unfold keep
  rw [h]
  exact congrArg (Adapter.mk a.transformation a.extras a.kwExtras) h.symm

/-- A run that answers at once. -/
theorem run_done {r' : Except RunError Value}
    (h : RunState.Reaches host (.ofAction m (.done r')) ⟨.answer r, [], m'⟩) : r = r' ∧ m' = m :=
  RunState.Reaches.end_eq h (.one rfl)

/-- A resolution goes in one of the four ways. -/
theorem Resolution.outcome (h : Resolution host m a r a' m') : Outcome host m a r a' m' := by
  obtain ⟨hends, rfl⟩ := h
  have hend := RunState.exists_run_iff.mp hends
  cases hwrapper : a.wrapper? with
  | some v =>
      rw [resolve_kept hwrapper] at hend
      obtain ⟨rfl, rfl⟩ := run_done hend
      have hsame : a.afterResolve (.ok v) = a := keep_kept hwrapper v
      rw [hsame]
      exact .kept hwrapper
  | none =>
      cases hextras : a.hasExtras with
      | false =>
          rw [resolve_itself hwrapper hextras] at hend
          obtain ⟨rfl, rfl⟩ := run_done hend
          have hkept : a.afterResolve (.ok a.transformation) = _ := keep_new hwrapper _
          rw [hkept]
          exact .itself hwrapper hextras
      | true =>
          -- the run is the call of the factory, and ends as that does
          rw [resolve_asking hwrapper hextras] at hend
          have hcall := RunState.reaches_end_call_done_iff.mp hend
          cases r with
          | error e => exact .refused hwrapper hextras hcall
          | ok v =>
              have hkept : a.afterResolve (.ok v) = _ := keep_new hwrapper v
              rw [hkept]
              exact .made hwrapper hextras hcall

/-- Each of the four ways is a resolution. -/
theorem Outcome.resolution (h : Outcome host m a r a' m') : Resolution host m a r a' m' := by
  refine ⟨RunState.exists_run_iff.mpr ?_, ?_⟩
  · cases h with
    | kept h =>
        rw [resolve_kept h]
        exact .one rfl
    | itself h hextras =>
        rw [resolve_itself h hextras]
        exact .one rfl
    | made h hextras hcall | refused h hextras hcall =>
        rw [resolve_asking h hextras]
        exact RunState.reaches_end_call_done_iff.mpr hcall
  · cases h with
    | kept h => exact (keep_kept h _).symm
    | itself h _ | made h _ _ => exact (keep_new h _).symm
    | refused _ _ _ => rfl

/-- **What a run of a resolution leaves of the adapter.** -/
theorem resolution_iff : Resolution host m a r a' m' ↔ Outcome host m a r a' m' :=
  ⟨Resolution.outcome, Outcome.resolution⟩

/-- **A failed resolution is not kept:** the adapter is what it was, and its next
resolution calls the factory again. -/
theorem Resolution.again {e : RunError} (h : Resolution host m a (.error e) a' m') :
    a' = a ∧ (a'.resolve : Action σ Value)
      = .call a.transformation ⟨a.extras, a.kwExtras⟩ .done := by
  cases h.outcome with
  | refused hnone hextras hcall => exact ⟨rfl, resolve_asking hnone hextras⟩

/-! ## §2. Resolutions in a row. -/

/-- **Resolutions of an adapter, one after the other,** each in a machine of its own, with
their answers. -/
inductive Resolutions (host : Host σ) :
    Adapter Value → List (Except RunError Value) → Adapter Value → Prop where
  | nil (a : Adapter Value) : Resolutions host a [] a
  | cons {m m' : Machine σ} {a a' a'' : Adapter Value} {r : Except RunError Value}
      {answers : List (Except RunError Value)} (h : Resolution host m a r a' m')
      (later : Resolutions host a' answers a'') : Resolutions host a (r :: answers) a''

namespace Resolutions

variable {answers : List (Except RunError Value)}

/-- A wrapper that is known is what every resolution answers. -/
theorem of_kept {v : Value} (h : Resolutions host a answers a') (hkept : a.wrapper? = some v) :
    a' = a ∧ ∀ r ∈ answers, r = .ok v := by
  induction h with
  | nil a => exact ⟨rfl, by simp⟩
  | cons hfirst later ih =>
      -- of the four ways only one is open, and it changes nothing
      cases hfirst.outcome with
      | kept h =>
          cases h.symm.trans hkept
          obtain ⟨hsame, hlater⟩ := ih hkept
          exact ⟨hsame, List.forall_mem_cons.mpr ⟨rfl, hlater⟩⟩
      | itself h _ | made h _ _ | refused h _ _ => cases h.symm.trans hkept

/-- **The first wrapper stays.**  Resolutions fail and leave the adapter as it was, or
from the first success on all of them answer the wrapper that the adapter then has. -/
theorem first_stays (h : Resolutions host a answers a') (hnew : a.wrapper? = none) :
    (a' = a ∧ ∀ r ∈ answers, ∃ e, r = .error e)
      ∨ ∃ failures v later, answers = failures ++ .ok v :: later
        ∧ (∀ r ∈ failures, ∃ e, r = .error e) ∧ (∀ r ∈ later, r = .ok v)
        ∧ a' = { a with wrapper? := some v } := by
  induction h with
  | nil a => exact .inl ⟨rfl, by simp⟩
  | @cons m m' a a₁ a' r answers hfirst later ih =>
      -- a success makes the adapter one that has a wrapper, a failure changes nothing
      have hcases : (∃ v, r = .ok v ∧ a₁ = { a with wrapper? := some v })
          ∨ ∃ e, r = .error e ∧ a₁ = a := by
        cases hfirst.outcome with
        | kept h => cases h.symm.trans hnew
        | itself _ _ | made _ _ _ => exact .inl ⟨_, rfl, rfl⟩
        | refused _ _ _ => exact .inr ⟨_, rfl, rfl⟩
      rcases hcases with ⟨v, rfl, rfl⟩ | ⟨e, rfl, rfl⟩
      · obtain ⟨hsame, hlater⟩ := later.of_kept rfl
        exact .inr ⟨[], v, answers, rfl, by simp, hlater, hsame⟩
      · rcases ih hnew with ⟨hsame, hfailed⟩ | ⟨failures, v, rest, rfl, hfailed, hrest, hkept⟩
        · exact .inl ⟨hsame, List.forall_mem_cons.mpr ⟨⟨e, rfl⟩, hfailed⟩⟩
        · exact .inr ⟨.error e :: failures, v, rest, rfl,
            List.forall_mem_cons.mpr ⟨⟨e, rfl⟩, hfailed⟩, hrest, hkept⟩

end Resolutions

end CallDecoration.Adapter
