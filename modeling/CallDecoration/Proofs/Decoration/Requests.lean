/-
  CallDecoration.Proofs.Decoration.Requests
  ──────────────────────────────────────
  **The requests of a decoration.**  A host may decorate in the middle of what
  it does, so a decoration is looked at together with what follows it
  (`Action.handle`).  It asks for new identities, resolves the wrapper, calls
  it with the copy, and records the history that it has planned before
  (`decorateFunction_handle`, `applyTo`, `settle`).
-/
import CallDecoration.Decoration.Decorate

namespace CallDecoration

variable {σ : Type}

/-! ## §1. What follows an action. -/

namespace Action

variable {α β γ : Type}

/-- Goes on with `k` however an action ends. -/
def handle : Action σ α → (Except RunError α → Action σ β) → Action σ β
  | done r, k => k r
  | call callee args next, k => call callee args fun answer => (next answer).handle k
  | inspect next, k => inspect fun gauge => (next gauge).handle k
  | read next, k => read fun world => (next world).handle k
  | write world next, k => write world (next.handle k)

/-- Nothing follows. -/
theorem handle_done (a : Action σ α) : a.handle done = a := by
  induction a with
  | done r => rfl
  | call callee args next ih => exact congrArg (call callee args) (funext fun answer => ih answer)
  | inspect next ih => exact congrArg inspect (funext fun gauge => ih gauge)
  | read next ih => exact congrArg read (funext fun world => ih world)
  | write world next ih => exact congrArg (write world) ih

/-- What follows a sequence follows its second part, or the error of its first. -/
theorem bind_handle (a : Action σ α) (f : α → Action σ β) (k : Except RunError β → Action σ γ) :
    (a.bind f).handle k = a.handle fun r => ((done r).bind f).handle k := by
  induction a with
  | done r => rfl
  | call callee args next ih => exact congrArg (call callee args) (funext fun answer => ih answer)
  | inspect next ih => exact congrArg inspect (funext fun gauge => ih gauge)
  | read next ih => exact congrArg read (funext fun world => ih world)
  | write world next ih => exact congrArg (write world) ih

/-- What a sequence does with how its first part ends. -/
theorem bind_eq_handle (a : Action σ α) (f : α → Action σ β) :
    a.bind f = a.handle fun r => (done r).bind f := by
  rw [← handle_done (a.bind f), bind_handle]
  exact congrArg a.handle (funext fun r => handle_done _)

/-- Sequences associate. -/
theorem bind_assoc (a : Action σ α) (f : α → Action σ β) (g : β → Action σ γ) :
    (a.bind f).bind g = a.bind fun x => (f x).bind g := by
  rw [bind_eq_handle (a.bind f), bind_handle, bind_eq_handle a]
  refine congrArg a.handle (funext fun r => ?_)
  rw [← bind_eq_handle]
  cases r <;> rfl

end Action

/-! ## §2. The parts of a decoration. -/

/-- What a decoration does with what the wrapper answers: the history is
recorded for it, if it is a function. -/
def conclude (registry : RegistryId) (history : History) (result : Value) : Action σ Value :=
  match result with
  | .function wrapped => do
      let _ ← Action.change (World.recordHistory registry wrapped.id history)
      return result
  | _ => return result

section Parts

variable (registry : RegistryId) (f copy : Function Value) (a : Adapter Value) (history : History)
  (k : Except RunError Value → Action σ Value)

/-- The end of a decoration, from what the wrapper answers. -/
def settle : Except RunError Value → Action σ Value := fun r =>
  ((Action.done r).bind (conclude registry history)).handle k

/-- The application of the wrapper, from how its resolution ends. -/
def applyTo : Except RunError Value → Action σ Value
  | .ok wrapper => .call wrapper (.one (.function copy)) (settle registry history k)
  | .error e => k (.error e)

variable {f a}

/-- The requests of a decoration. -/
theorem decorate_handle (target : Value) :
    (decorate registry target a).handle k = .read fun w =>
      if (w.registry registry).isEligible target a.identifier then
        match target with
        | .function f => (decorateFunction registry f a).handle k
        | _ => k (.ok target)
      else k (.ok target) := by
  show Action.read _ = _
  congr 1
  funext w
  show Action.handle (if (w.registry registry).isEligible target a.identifier then
      match target with
      | .function f => decorateFunction registry f a
      | _ => .done (.ok target)
    else .done (.ok target)) k = _
  split
  · cases target <;> rfl
  · rfl

/-- The decoration of a function that cannot be instrumented. -/
theorem decorateFunction_handle_error {e : InstrumentError} (h : f.instrumentedBody = .error e) :
    (decorateFunction registry f a).handle k = k (.error (.instrument e)) := by
  unfold decorateFunction Function.instrument
  rw [h]
  rfl

/-- **The requests of the decoration of a function.** -/
theorem decorateFunction_handle {body : Chunk Value} (h : f.instrumentedBody = .ok body) :
    (decorateFunction registry f a).handle k
      = .read fun w₁ => .write (w₁.newEntryPoint registry).2
          (.read fun w₂ => .write w₂.freshFunction.2
            (.read fun w₃ => a.resolve.handle (applyTo registry
              (f.copyWith w₂.freshFunction.1 body (w₁.newEntryPoint registry).1 a)
              (((w₃.registry registry).historyOf f.id).extend a.identifier) k))) := by
  unfold decorateFunction Function.instrument
  rw [h]
  show Action.read _ = Action.read _
  congr 1
  funext w₁
  show Action.write _ (.read _) = Action.write _ (.read _)
  congr 2
  funext w₂
  show Action.write _ (.read _) = Action.write _ (.read _)
  congr 2
  funext w₃
  refine (Action.bind_handle (a.resolve : Action σ Value) _ k).trans ?_
  refine congrArg (a.resolve : Action σ Value).handle (funext fun r => ?_)
  cases r <;> rfl

/-- A wrapper that is known is the answer. -/
theorem resolve_kept {v : Value} (h : a.wrapper? = some v) :
    (a.resolve : Action σ Value) = .done (.ok v) := by
  unfold Adapter.resolve
  rw [h]
  rfl

/-- Without extra arguments the transformation is the wrapper. -/
theorem resolve_itself (h : a.wrapper? = none) (hextras : a.hasExtras = false) :
    (a.resolve : Action σ Value) = .done (.ok a.transformation) := by
  unfold Adapter.resolve
  rw [h, hextras]
  rfl

/-- With extra arguments the transformation is asked for it. -/
theorem resolve_asking (h : a.wrapper? = none) (hextras : a.hasExtras = true) :
    (a.resolve : Action σ Value) = .call a.transformation ⟨a.extras, a.kwExtras⟩ .done := by
  unfold Adapter.resolve
  rw [h, hextras]
  rfl

/-- A resolution has its wrapper at once, or calls the transformation. -/
theorem resolve_cases (a : Adapter Value) :
    (∃ wrapper, (a.resolve : Action σ Value) = .done (.ok wrapper))
      ∨ (a.resolve : Action σ Value) = .call a.transformation ⟨a.extras, a.kwExtras⟩ .done := by
  cases hwrapper : a.wrapper? with
  | some v => exact Or.inl ⟨v, resolve_kept hwrapper⟩
  | none =>
      cases hextras : a.hasExtras with
      | false => exact Or.inl ⟨_, resolve_itself hwrapper hextras⟩
      | true => exact Or.inr (resolve_asking hwrapper hextras)

end Parts

end CallDecoration
