/-
  CallDecoration.Proofs.Decoration.Decorating
  ──────────────────────────────────────
  **How a decoration runs.**  For a wrapper that answers its argument, a
  decoration comes to one of two ends: the value is kept, or it is a function
  and an instrumented copy of it is made, to which the wrapper is applied
  (`Decorates`).  `passes_decorate` runs the action to that end, whatever
  follows it; `passes_entry` and `passes_decorator` do the same for the two
  host functions that expanded calls use.
-/
import CallDecoration.Proofs.Decoration.Requests
import CallDecoration.Proofs.Machine.Watching

namespace CallDecoration

variable {σ : Type}

/-! ## §1. Wrappers that answer their argument. -/

/-- **A host function that answers its argument** and does nothing else. -/
structure Host.Echoes (host : Host σ) (n : Native Value) : Prop where
  role : n.role = .host
  answer : ∀ v, host n.id (CallArgs.one v) = .done (.ok v)

theorem Host.Echoes.respond {host : Host σ} {n : Native Value} (hn : host.Echoes n) (v : Value) :
    n.respond host (CallArgs.one v) = .done (.ok v) := by
  unfold Native.respond
  rw [hn.role]
  exact hn.answer v

/-- The adapter of a host function without extra arguments. -/
def plainAdapter (n : Native Value) : Adapter Value :=
  Adapter.new (.native n) [] []

/-! ## §2. What a decoration leaves. -/

/-- The copy that a decoration of a function makes. -/
def Function.copyIn (g : Function Value) (registry : RegistryId) (n : Native Value)
    (body : Chunk Value) (w : World σ) : Function Value :=
  g.copyWith ⟨w.nextFunction⟩ body (w.newEntryPoint registry).1 (plainAdapter n)

/-- The world after the decoration of a function. -/
def World.afterCopy (w : World σ) (registry : RegistryId) (n : Native Value)
    (g : Function Value) : World σ :=
  ((w.newEntryPoint registry).2.freshFunction.2.recordHistory registry ⟨w.nextFunction⟩
    (((w.registry registry).historyOf g.id).extend n.name)).2

/-- **What a decoration does to a value:** the answer, the world it leaves and
the events. -/
inductive Decorates (registry : RegistryId) (n : Native Value) :
    World σ → Value → Value → World σ → List Event → Prop where
  /-- The value is not eligible. -/
  | kept {w : World σ} {v : Value} (h : (w.registry registry).isEligible v n.name = false) :
      Decorates registry n w v v w []
  /-- A copy is made of a function. -/
  | copied {w : World σ} {g : Function Value} {body : Chunk Value}
      (h : (w.registry registry).isEligible (.function g) n.name = true)
      (hbody : g.instrumentedBody = .ok body) :
      Decorates registry n w (.function g) (.function (g.copyIn registry n body w))
        (w.afterCopy registry n g)
        [.applied n (.one (.function (g.copyIn registry n body w)))]

/-- The bindings of every scope are left alone. -/
theorem Decorates.scopes {registry : RegistryId} {n : Native Value} {w w' : World σ} {v v' : Value}
    {evs : List Event} (h : Decorates registry n w v v' w' evs) : w'.scopes = w.scopes := by
  cases h <;> rfl

/-! ## §3. Requests of host functions. -/

namespace Watched

section Requests

variable {host : Host σ} {carried : FunctionId → Bool} {pending : List (Pending σ)}
  {vs : List Value} {fs : List Frame} {st : Settings} {w : World σ} {flags : List Bool}

theorem passes_read {next : World σ → Action σ Value} :
    Passes host carried ⟨⟨.action (.read next), pending, .of vs fs st w⟩, flags⟩ []
      ⟨⟨.action (next w), pending, .of vs fs st w⟩, flags⟩ :=
  Passes.one (next_level rfl rfl) rfl

theorem passes_write {w' : World σ} {next : Action σ Value} :
    Passes host carried ⟨⟨.action (.write w' next), pending, .of vs fs st w⟩, flags⟩ []
      ⟨⟨.action next, pending, .of vs fs st w'⟩, flags⟩ :=
  Passes.one (next_level rfl rfl) rfl

theorem passes_done {r : Except RunError Value} :
    Passes host carried ⟨⟨.action (.done r), pending, .of vs fs st w⟩, flags⟩ []
      ⟨⟨.answer r, pending, .of vs fs st w⟩, flags⟩ :=
  Passes.one (next_level rfl rfl) rfl

theorem passes_apply {n : Native Value} {args : CallArgs}
    {next : Except RunError Value → Action σ Value} :
    Passes host carried ⟨⟨.action (.call (.native n) args next), pending, .of vs fs st w⟩, flags⟩
      (n.noted args)
      ⟨⟨.action (n.respond host args), .host next :: pending, .of vs fs st w⟩, flags⟩ :=
  Passes.one (next_level rfl rfl) rfl

theorem passes_answer {r : Except RunError Value} {next : Except RunError Value → Action σ Value} :
    Passes host carried ⟨⟨.answer r, .host next :: pending, .of vs fs st w⟩, flags⟩ []
      ⟨⟨.action (next r), pending, .of vs fs st w⟩, flags⟩ := by
  cases r <;> exact Passes.one (next_level rfl rfl) rfl

/-- A change of the world, with what it gives as the answer. -/
theorem passes_change {change : World σ → Value × World σ} :
    Passes host carried ⟨⟨.action (Action.change change), pending, .of vs fs st w⟩, flags⟩ []
      ⟨⟨.answer (.ok (change w).1), pending, .of vs fs st (change w).2⟩, flags⟩ :=
  passes_read.silent (passes_write.silent passes_done)

/-! ## §4. The action of a decoration. -/

variable {registry : RegistryId} {n : Native Value} {w' : World σ} {v v' : Value}
  {evs : List Event}

/-- A decoration of a value that is not eligible. -/
theorem passes_kept (h : (w.registry registry).isEligible v n.name = false)
    (k : Except RunError Value → Action σ Value) :
    Passes host carried
      ⟨⟨.action ((decorate registry v (plainAdapter n)).handle k), pending, .of vs fs st w⟩, flags⟩
      [] ⟨⟨.action (k (.ok v)), pending, .of vs fs st w⟩, flags⟩ := by
  rw [decorate_handle]
  refine passes_read.silent ?_
  have hname : (plainAdapter n).identifier = n.name := rfl
  rw [hname, h]
  exact Passes.refl _

/-- A decoration of a function that may be decorated. -/
theorem passes_eligible {g : Function Value}
    (h : (w.registry registry).isEligible (.function g) n.name = true)
    (k : Except RunError Value → Action σ Value) :
    Passes host carried
      ⟨⟨.action ((decorate registry (.function g) (plainAdapter n)).handle k), pending,
        .of vs fs st w⟩, flags⟩ []
      ⟨⟨.action ((decorateFunction registry g (plainAdapter n)).handle k), pending,
        .of vs fs st w⟩, flags⟩ := by
  have hname : (plainAdapter n).identifier = n.name := rfl
  rw [decorate_handle]
  refine passes_read.silent ?_
  rw [hname, h]
  exact Passes.refl _

/-- **A decoration up to the application of the wrapper** to the copy; the
history is planned by then. -/
theorem passes_application {g : Function Value} {body : Chunk Value}
    (h : (w.registry registry).isEligible (.function g) n.name = true)
    (hbody : g.instrumentedBody = .ok body) (k : Except RunError Value → Action σ Value) :
    Passes host carried
      ⟨⟨.action ((decorate registry (.function g) (plainAdapter n)).handle k), pending,
        .of vs fs st w⟩, flags⟩
      (n.noted (.one (.function (g.copyIn registry n body w))))
      ⟨⟨.action (n.respond host (.one (.function (g.copyIn registry n body w)))),
        .host (settle registry (((w.registry registry).historyOf g.id).extend n.name) k) :: pending,
        .of vs fs st (w.newEntryPoint registry).2.freshFunction.2⟩, flags⟩ := by
  refine (passes_eligible h k).silent ?_
  rw [decorateFunction_handle registry k hbody]
  exact passes_read.silent (passes_write.silent (passes_read.silent (passes_write.silent
    (passes_read.silent passes_apply))))

/-- The end of a decoration whose wrapper has answered a function: the planned
history is recorded for it. -/
theorem passes_settle (x : Function Value) (history : History)
    (k : Except RunError Value → Action σ Value) :
    Passes host carried
      ⟨⟨.answer (.ok (.function x)), .host (settle registry history k) :: pending,
        .of vs fs st w⟩, flags⟩ []
      ⟨⟨.action (k (.ok (.function x))), pending,
        .of vs fs st (w.recordHistory registry x.id history).2⟩, flags⟩ :=
  passes_answer.silent (passes_read.silent passes_write)

/-- **The run of a decoration,** up to what follows it. -/
theorem passes_decorate (hn : host.Echoes n) (h : Decorates registry n w v v' w' evs)
    (k : Except RunError Value → Action σ Value) :
    Passes host carried
      ⟨⟨.action ((decorate registry v (plainAdapter n)).handle k), pending, .of vs fs st w⟩, flags⟩
      evs ⟨⟨.action (k (.ok v')), pending, .of vs fs st w'⟩, flags⟩ := by
  cases h with
  | kept h => exact passes_kept h k
  | @copied g body h hbody =>
      rw [← Native.noted_host hn.role]
      refine (passes_application h hbody k).then_silent ?_
      -- the wrapper answers the copy, and the history is recorded for it
      rw [hn.respond]
      exact passes_done.silent (passes_settle _ _ k)

/-- A decoration of a function that cannot be instrumented fails. -/
theorem passes_decorate_error {g : Function Value} {e : InstrumentError}
    (h : (w.registry registry).isEligible (.function g) n.name = true)
    (hbody : g.instrumentedBody = .error e) (k : Except RunError Value → Action σ Value) :
    Passes host carried
      ⟨⟨.action ((decorate registry (.function g) (plainAdapter n)).handle k), pending,
        .of vs fs st w⟩, flags⟩ []
      ⟨⟨.action (k (.error (.instrument e))), pending, .of vs fs st w⟩, flags⟩ := by
  refine (passes_eligible h k).silent ?_
  rw [decorateFunction_handle_error registry k hbody]
  exact Passes.refl _

end Requests

end Watched

/-! ## §5. The host functions of expanded calls. -/

namespace Watched

section Expanded

variable {host : Host σ} {carried : FunctionId → Bool} {registry : RegistryId}
  {n entry decorator : Native Value} {pending : List (Pending σ)} {vs : List Value} {fs : List Frame} {st : Settings}
  {w w' : World σ} {flags : List Bool} {v v' : Value} {evs : List Event}

/-- **The entry point makes a decorator.** -/
theorem passes_entry (hentry : entry.role = .entryPoint registry) :
    Passes host carried
      ⟨⟨.action (entry.respond host ⟨[.native n], []⟩), pending, .of vs fs st w⟩, flags⟩ []
      ⟨⟨.answer (.ok (.native ⟨⟨w.nextObject⟩, n.name, .decorator registry (plainAdapter n)⟩)),
        pending, .of vs fs st w.freshObject.2⟩, flags⟩ := by
  unfold Native.respond
  rw [hentry]
  exact passes_change

/-- **A decorator decorates its argument.** -/
theorem passes_decorator (hn : host.Echoes n)
    (hdecorator : decorator.role = .decorator registry (plainAdapter n))
    (h : Decorates registry n w v v' w' evs) :
    Passes host carried
      ⟨⟨.action (decorator.respond host (.one v)), pending, .of vs fs st w⟩, flags⟩ evs
      ⟨⟨.answer (.ok v'), pending, .of vs fs st w'⟩, flags⟩ := by
  unfold Native.respond
  rw [hdecorator]
  show Passes host carried ⟨⟨.action (decorate registry v (plainAdapter n)), _, _⟩, _⟩ _ _
  rw [← Action.handle_done (decorate registry v (plainAdapter n))]
  exact (passes_decorate hn h .done).then_silent passes_done

/-- A decorator fails on a function that cannot be instrumented. -/
theorem passes_decorator_error {g : Function Value} {e : InstrumentError}
    (hdecorator : decorator.role = .decorator registry (plainAdapter n))
    (h : (w.registry registry).isEligible (.function g) n.name = true)
    (hbody : g.instrumentedBody = .error e) :
    Passes host carried
      ⟨⟨.action (decorator.respond host (.one (.function g))), pending, .of vs fs st w⟩, flags⟩ []
      ⟨⟨.answer (.error (.instrument e)), pending, .of vs fs st w⟩, flags⟩ := by
  unfold Native.respond
  rw [hdecorator]
  show Passes host carried
    ⟨⟨.action (decorate registry (.function g) (plainAdapter n)), _, _⟩, _⟩ _ _
  rw [← Action.handle_done (decorate registry (.function g) (plainAdapter n))]
  exact (passes_decorate_error h hbody .done).silent passes_done

end Expanded

end Watched

/-! ## §6. A small program. -/

/-- A function of the module `m` without parameters and captures. -/
def simpleFunction (number : Nat) (name : String) (names : Array String)
    (instructions : List Instruction) : Function Value :=
  ⟨⟨number⟩, name, ⟨name, encode instructions, #[], names, Signature.none, 0⟩, ⟨⟨0⟩, "m"⟩, [], [],
    #[]⟩

/-- Answers five. -/
def answersFive : Function Value :=
  simpleFunction 1 "g" #[] [.pushSmall 5, .return]

/-- Answers what the global `g` answers. -/
def callsGlobal : Function Value :=
  simpleFunction 2 "f" #["g"] [.loadGlobal 0, .call (CallShape.plain 0), .return]

/-- The host on which every host function answers its first argument. -/
def echoHost : Host Unit := fun _ args => .done (.ok (args.positional.headD .nil))

/-- The world in which `g` is bound, after both functions have been made. -/
def boundWorld : World Unit :=
  { World.new () with nextFunction := 3 }.bind ⟨0⟩ "g" (.function answersFive)

end CallDecoration
