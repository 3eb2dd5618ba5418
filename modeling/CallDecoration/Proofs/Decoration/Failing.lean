/-
  CallDecoration.Proofs.Decoration.Failing
  ──────────────────────────────────────
  **A decoration that fails leaves no trace.**  It can fail in three places:
  the body cannot be instrumented, the factory answers no wrapper, or the
  wrapper answers no function (`DecorationFails`).  The copy and the planned
  history exist by then, but the history is recorded last of all.  So with host
  functions that keep to themselves (`Native.IsApart`) nothing is left of a
  failure (`RunState.decoration_leaves_no_trace`).
-/
import CallDecoration.Proofs.Decoration.Inheritance
import CallDecoration.Proofs.Decoration.Histories
import CallDecoration.Proofs.Decoration.Resolution

namespace CallDecoration

variable {σ : Type}

/-! ## §1. Host functions that keep to themselves. -/

/-- How an action ends that asks nothing of the machine: the answer and the world
that it leaves.  There is no outcome if it makes a call or looks at the machine. -/
def Action.outcome {α : Type} : Action σ α → World σ → Option (Except RunError α × World σ)
  | done r, w => some (r, w)
  | read next, w => (next w).outcome w
  | write w next, _ => next.outcome w
  | call _ _ _, _ | inspect _, _ => none

/-- The registries and the bindings of all scopes are as they were. -/
structure World.Untouched (w w' : World σ) : Prop where
  registries : w'.registries = w.registries
  scopes : w'.scopes = w.scopes

theorem World.Untouched.trans {w w' w'' : World σ} (h : w.Untouched w') (h' : w'.Untouched w'') :
    w.Untouched w'' :=
  ⟨h'.registries.trans h.registries, h'.scopes.trans h.scopes⟩

/-- **A host function that touches neither the machine nor a registry.**  It may
read the world, make functions and host functions, and do what it likes with the
state of the host. -/
def Native.IsApart (host : Host σ) (n : Native Value) : Prop :=
  ∀ args w, ∃ r w', (n.respond host args).outcome w = some (r, w') ∧ w.Untouched w'

/-- **How an adapter resolves** if its transformation is such a host function. -/
inductive Adapter.Resolves (host : Host σ) (a : Adapter Value) :
    World σ → Except RunError Value → World σ → Prop where
  /-- The wrapper is known from before. -/
  | kept {w : World σ} {wrapper : Value} (h : a.wrapper? = some wrapper) :
      Resolves host a w (.ok wrapper) w
  /-- Without extra arguments the transformation is the wrapper. -/
  | itself {w : World σ} (h : a.wrapper? = none) (hextras : a.hasExtras = false) :
      Resolves host a w (.ok a.transformation) w
  /-- The transformation is called as a factory. -/
  | made {w w' : World σ} {n : Native Value} {r : Except RunError Value} (h : a.wrapper? = none)
      (hextras : a.hasExtras = true) (hfactory : a.transformation = .native n)
      (hcall : (n.respond host ⟨a.extras, a.kwExtras⟩).outcome w = some (r, w')) :
      Resolves host a w r w'

/-- **An adapter whose transformation and wrapper** are host functions that keep to
themselves. -/
structure Adapter.IsApart (host : Host σ) (a : Adapter Value) : Prop where
  transformation : ∃ n, a.transformation = .native n ∧ n.IsApart host
  wrapper : ∀ w v w', a.Resolves host w (.ok v) w' → ∃ u, v = .native u ∧ u.IsApart host

theorem Adapter.IsApart.resolves {host : Host σ} {a : Adapter Value} (h : a.IsApart host)
    (w : World σ) : ∃ r w', a.Resolves host w r w' ∧ w.Untouched w' := by
  obtain ⟨n, hn, hapart⟩ := h.transformation
  cases hwrapper : a.wrapper? with
  | some wrapper => exact ⟨_, _, .kept hwrapper, rfl, rfl⟩
  | none =>
      cases hextras : a.hasExtras with
      | false => exact ⟨_, _, .itself hwrapper hextras, rfl, rfl⟩
      | true =>
          obtain ⟨r, w', hcall, hsame⟩ := hapart ⟨a.extras, a.kwExtras⟩ w
          exact ⟨r, w', .made hwrapper hextras hn hcall, hsame⟩

/-! ## §2. Runs of such host functions. -/

namespace RunState

variable {host : Host σ} {pending : List (Pending σ)} {m : Machine σ}

theorem reaches_outcome {a : Action σ Value} {r : Except RunError Value} {w' : World σ}
    (h : a.outcome m.world = some (r, w')) :
    Reaches host ⟨.action a, pending, m⟩ ⟨.answer r, pending, { m with world := w' }⟩ := by
  induction a generalizing m with
  | done r' =>
      cases h
      exact .one rfl
  | read next ih => exact .head rfl (ih _ h)
  | write w next ih => exact .head rfl (ih (m := { m with world := w }) h)
  | call callee args next => cases h
  | inspect next => cases h

/-- A call of such a host function. -/
theorem reaches_native {n : Native Value} {args : CallArgs} {r : Except RunError Value}
    {w' : World σ} {next : Except RunError Value → Action σ Value}
    (h : (n.respond host args).outcome m.world = some (r, w')) :
    Reaches host ⟨.action (.call (.native n) args next), pending, m⟩
      ⟨.action (next r), pending, { m with world := w' }⟩ := by
  refine .head rfl ((reaches_outcome h).next ?_)
  cases r <;> rfl

theorem reaches_resolve {a : Adapter Value} {r : Except RunError Value} {w' : World σ}
    {k : Except RunError Value → Action σ Value} (h : a.Resolves host m.world r w') :
    Reaches host ⟨.action ((a.resolve : Action σ Value).handle k), pending, m⟩
      ⟨.action (k r), pending, { m with world := w' }⟩ := by
  cases h with
  | kept hsome =>
      rw [resolve_kept hsome]
      exact .refl _
  | itself hnone hextras =>
      rw [resolve_itself hnone hextras]
      exact .refl _
  | made hnone hextras hfactory hcall =>
      rw [resolve_asking hnone hextras, hfactory]
      exact reaches_native hcall

end RunState

/-! ## §3. How a decoration fails. -/

/-- The world once the copy has been made. -/
def World.afterCopying (registry : RegistryId) (w : World σ) : World σ :=
  (w.newEntryPoint registry).2.freshFunction.2

theorem World.untouched_afterCopying (registry : RegistryId) (w : World σ) :
    w.Untouched (w.afterCopying registry) :=
  ⟨rfl, rfl⟩

/-- The copy that a decoration makes of a function. -/
def Function.copyFor (f : Function Value) (registry : RegistryId) (a : Adapter Value)
    (body : Chunk Value) (w : World σ) : Function Value :=
  f.copyWith ⟨w.nextFunction⟩ body (w.newEntryPoint registry).1 a

/-- The history that a decoration plans. -/
def World.planned (w : World σ) (registry : RegistryId) (f : Function Value) (name : String) :
    History :=
  ((w.registry registry).historyOf f.id).extend name

/-- The world once a decoration has dealt with what the wrapper answers: the history
is recorded for a function. -/
def World.settled (registry : RegistryId) (history : History) (r : Except RunError Value)
    (w : World σ) : World σ :=
  match r with
  | .ok (.function g) => (World.recordHistory registry g.id history w).2
  | _ => w

/-- **How a decoration fails:** with which error, and which world it leaves. -/
inductive DecorationFails (host : Host σ) (registry : RegistryId) (f : Function Value)
    (a : Adapter Value) : World σ → RunError → World σ → Prop where
  /-- The body cannot be instrumented, or the captures have no room. -/
  | rewriting {w : World σ} {cause : InstrumentError} (h : f.instrumentedBody = .error cause) :
      DecorationFails host registry f a w (.instrument cause) w
  /-- The factory fails, with this error. -/
  | factory {w w' : World σ} {body : Chunk Value} {e : RunError}
      (hbody : f.instrumentedBody = .ok body)
      (h : a.Resolves host (w.afterCopying registry) (.error e) w') :
      DecorationFails host registry f a w e w'
  /-- The wrapper fails on the copy, with this error. -/
  | wrapper {w w' w'' : World σ} {body : Chunk Value} {u : Native Value} {e : RunError}
      (hbody : f.instrumentedBody = .ok body)
      (hresolve : a.Resolves host (w.afterCopying registry) (.ok (.native u)) w')
      (h : (u.respond host (.one (.function (f.copyFor registry a body w)))).outcome w'
        = some (.error e, w'')) :
      DecorationFails host registry f a w e w''

namespace RunState

variable {host : Host σ} {registry : RegistryId} {f : Function Value} {a : Adapter Value}
  {pending : List (Pending σ)} {m : Machine σ}

/-- A decoration of a function whose body cannot be instrumented asks nothing of
the machine and leaves the world. -/
theorem outcome_rewriting {w : World σ} {cause : InstrumentError}
    (heligible : (w.registry registry).isEligible (.function f) a.identifier = true)
    (h : f.instrumentedBody = .error cause) :
    (decorate registry (.function f) a : Action σ Value).outcome w
      = some (.error (.instrument cause), w) := by
  rw [← Action.handle_done (decorate registry (.function f) a), decorate_handle]
  show Action.outcome (if _ then _ else _) w = _
  rw [if_pos heligible]
  show ((decorateFunction registry f a).handle .done).outcome w = _
  rw [decorateFunction_handle_error registry .done h]
  rfl

/-- A decoration up to the resolution of the wrapper: the copy is there, and the
history is planned. -/
theorem reaches_resolution {body : Chunk Value}
    (heligible : (m.world.registry registry).isEligible (.function f) a.identifier = true)
    (hbody : f.instrumentedBody = .ok body) :
    Reaches host ⟨.action (decorate registry (.function f) a), pending, m⟩
      ⟨.action ((a.resolve : Action σ Value).handle
        (applyTo registry (f.copyFor registry a body m.world)
          (m.world.planned registry f a.identifier) .done)),
        pending, { m with world := m.world.afterCopying registry }⟩ := by
  rw [← Action.handle_done (decorate registry (.function f) a), decorate_handle]
  refine .head rfl ?_
  show Reaches host ⟨.action (if _ then _ else _), pending, m⟩ _
  rw [if_pos heligible]
  show Reaches host ⟨.action ((decorateFunction registry f a).handle .done), pending, m⟩ _
  rw [decorateFunction_handle registry .done hbody]
  exact .head rfl (.head rfl (.head rfl (.head rfl (.one rfl))))

/-- **The end of a decoration:** it answers what the wrapper has answered, and only
then a history is recorded. -/
theorem reaches_settled (history : History) (r : Except RunError Value) :
    Reaches host ⟨.action (settle registry history .done r), pending, m⟩
      ⟨.answer r, pending, { m with world := m.world.settled registry history r }⟩ := by
  cases r with
  | error e => exact .one rfl
  | ok v =>
      cases v with
      | function g => exact .head rfl (.head rfl (.one rfl))
      | _ => exact .one rfl

/-- **With host functions that keep to themselves a decoration comes to an end.**
If it fails, this is in one of the three places, and nothing has been touched. -/
theorem reaches_end (m : Machine σ) (pending : List (Pending σ))
    (heligible : (m.world.registry registry).isEligible (.function f) a.identifier = true)
    (hapart : a.IsApart host) :
    ∃ r w', Reaches host ⟨.action (decorate registry (.function f) a), pending, m⟩
        ⟨.answer r, pending, { m with world := w' }⟩
      ∧ ∀ e, r = .error e → m.world.Untouched w' ∧ DecorationFails host registry f a m.world e w' := by
  cases hbody : f.instrumentedBody with
  | error cause =>
      refine ⟨_, _, reaches_outcome (outcome_rewriting heligible hbody), ?_⟩
      rintro e ⟨⟩
      exact ⟨⟨rfl, rfl⟩, .rewriting hbody⟩
  | ok body =>
      -- the copy is made first; then the factory may fail, and after it the wrapper
      have hstart : Reaches host ⟨.action (decorate registry (.function f) a), pending, m⟩ _ :=
        reaches_resolution heligible hbody
      obtain ⟨r, w', hresolve, hsame⟩ := hapart.resolves (m.world.afterCopying registry)
      have huntouched := (m.world.untouched_afterCopying registry).trans hsame
      have hresolved := hstart.trans (reaches_resolve (m := { m with world := _ }) hresolve)
      cases r with
      | error e =>
          refine ⟨_, _, hresolved.next rfl, ?_⟩
          rintro e' ⟨⟩
          exact ⟨huntouched, .factory hbody hresolve⟩
      | ok v =>
          obtain ⟨u, rfl, hu⟩ := hapart.wrapper _ _ _ hresolve
          obtain ⟨answer, w'', hcall, hsame'⟩ :=
            hu (.one (.function (f.copyFor registry a body m.world))) w'
          have happlied := hresolved.trans (reaches_native (m := { m with world := _ }) hcall)
          refine ⟨answer, _, happlied.trans (reaches_settled _ answer), ?_⟩
          rintro e rfl
          exact ⟨huntouched.trans hsame', .wrapper hbody hresolve hcall⟩

end RunState

/-! ## §4. What a decoration records. -/

namespace RunState

variable {host : Host σ} {registry : RegistryId} {f : Function Value} {m m₂ : Machine σ}
  {r : Except RunError Value}

/-- From the application of the wrapper on, a decoration that answers a function
records the history that was planned. -/
theorem recorded_of_applied {copy g : Function Value} {history : History} {wrapper : Value}
    (h : Reaches host ⟨.action (applyTo registry copy history .done (.ok wrapper)), [], m⟩
      ⟨.answer (.ok (.function g)), [], m₂⟩) :
    ∃ w, m₂.world = (World.recordHistory registry g.id history w).2 := by
  obtain ⟨answer, n, -, hsettle⟩ := reaches_end_call_iff.mp h
  obtain ⟨rfl, hworld⟩ := (reaches_settled history answer).end_eq hsettle
  exact ⟨n.world, congrArg Machine.world hworld.symm⟩

/-- **The history is planned when the decoration begins and recorded when it
ends,** whatever the transformation and the wrapper do in between. -/
theorem recorded_of_decorate {a : Adapter Value} {g : Function Value} {fuel : Nat}
    (heligible : (m.world.registry registry).isEligible (.function f) a.identifier = true)
    (h : run host fuel (ofAction m (decorate registry (.function f) a))
      = some (.ok (.function g), m₂)) :
    ∃ w, m₂.world
      = (World.recordHistory registry g.id (m.world.planned registry f a.identifier) w).2 := by
  have hend := reaches_of_run h
  cases hbody : f.instrumentedBody with
  | error cause =>
      have hfails : Reaches host ⟨.action (decorate registry (.function f) a), [], m⟩ _ :=
        reaches_outcome (outcome_rewriting heligible hbody)
      cases (hfails.end_eq hend).1
  | ok body =>
      have hresolution := (reaches_resolution heligible hbody).goes_on hend
      rcases resolve_cases a with ⟨wrapper, hresolve⟩ | hresolve
      · rw [hresolve] at hresolution
        exact recorded_of_applied hresolution
      · -- the wrapper is what the transformation answers
        rw [hresolve] at hresolution
        obtain ⟨answer, n, -, hback⟩ := reaches_end_call_iff.mp hresolution
        cases answer with
        | error e => cases (Reaches.one rfl).end_eq hback |>.1
        | ok wrapper => exact recorded_of_applied hback

/-! ## §5. No trace. -/

/-- **Every decoration of `f` under this name records this history** for the
function that comes out, if it begins in this machine. -/
def Records (host : Host σ) (registry : RegistryId) (f : Function Value) (name : String)
    (history : History) (m : Machine σ) : Prop :=
  ∀ (a : Adapter Value) fuel g m₂, a.identifier = name →
    run host fuel (ofAction m (decorate registry (.function f) a)) = some (.ok (.function g), m₂) →
    m₂.world.isLive g.id = true → (m₂.world.registry registry).historyOf g.id = history

theorem records_planned {name : String}
    (heligible : (m.world.registry registry).isEligible (.function f) name = true) :
    Records host registry f name (m.world.planned registry f name) m := by
  rintro a fuel g m₂ rfl hrun hlive
  obtain ⟨w, hw⟩ := recorded_of_decorate heligible hrun
  rw [hw] at hlive ⊢
  rw [World.historyOf_recordHistory (w := w) hlive, if_pos ⟨rfl, rfl⟩]

/-- **What a decoration of `f` that fails in the machine `m` with the error `e`
leaves** in the machine `m'`. -/
structure LeavesNoTrace (host : Host σ) (registry : RegistryId) (f : Function Value)
    (a : Adapter Value) (m : Machine σ) (e : RunError) (m' : Machine σ) : Prop where
  /-- Every registry is as it was, with all its histories. -/
  registries : m'.world.registries = m.world.registries
  /-- Every scope has the bindings that it had. -/
  scopes : m'.world.scopes = m.world.scopes
  stack : m'.stack = m.stack
  frames : m'.frames = m.frames
  settings : m'.settings = m.settings
  /-- The error is one of rewriting, or the one that the factory or the wrapper
  has answered. -/
  origin : DecorationFails host registry f a m.world e m'.world
  /-- If the body cannot be instrumented, nothing is called and no identity is
  used up. -/
  rewriting : ∀ cause, f.instrumentedBody = .error cause →
    e = .instrument cause ∧ m' = m
      ∧ (decorate registry (.function f) a : Action σ Value).outcome m.world
        = some (.error (.instrument cause), m.world)
  /-- A failure of the factory is not kept: whenever a resolution fails, the adapter is
  what it was, and the next resolution calls the factory again. -/
  uncached : ∀ m₁ e' a' m₂, a.Resolution host m₁ (.error e') a' m₂ →
    a' = a ∧ (a'.resolve : Action σ Value)
      = .call a.transformation ⟨a.extras, a.kwExtras⟩ .done
  /-- A later decoration under the same name records what it would have recorded
  before. -/
  later : Records host registry f a.identifier (m.world.planned registry f a.identifier) m
    ∧ ∀ m₁ : Machine σ, m₁.world.registries = m'.world.registries →
      Records host registry f a.identifier (m.world.planned registry f a.identifier) m₁

/-- **A decoration that fails leaves no trace,** if the transformation and the
wrapper keep to themselves; and it comes to an end. -/
theorem decoration_leaves_no_trace {a : Adapter Value}
    (heligible : (m.world.registry registry).isEligible (.function f) a.identifier = true)
    (hapart : a.IsApart host) :
    (∃ fuel r m', run host fuel (ofAction m (decorate registry (.function f) a)) = some (r, m'))
      ∧ ∀ fuel e m', run host fuel (ofAction m (decorate registry (.function f) a))
          = some (.error e, m') → LeavesNoTrace host registry f a m e m' := by
  obtain ⟨r, w', hreach, hfails⟩ := reaches_end m [] heligible hapart
  refine ⟨?_, ?_⟩
  · obtain ⟨fuel, hrun⟩ := exists_run_iff.mpr hreach
    exact ⟨fuel, _, _, hrun⟩
  · intro fuel e m' hrun
    obtain ⟨rfl, rfl⟩ := hreach.end_eq (reaches_of_run hrun)
    obtain ⟨huntouched, horigin⟩ := hfails e rfl
    refine ⟨huntouched.registries, huntouched.scopes, rfl, rfl, rfl, horigin, ?_, ?_, ?_⟩
    · -- a body that cannot be instrumented excludes the other two failures
      intro cause hbody
      have hsilent := outcome_rewriting heligible hbody
      cases horigin with
      | rewriting h =>
          cases h.symm.trans hbody
          exact ⟨rfl, rfl, hsilent⟩
      | factory h _ | wrapper h _ _ => cases h.symm.trans hbody
    · exact fun m₁ e' a' m₂ hresolution => hresolution.again
    · refine ⟨records_planned heligible, fun m₁ hsame => ?_⟩
      -- what is planned depends on the registry alone, and that is as it was
      have hregistry : m₁.world.registry registry = m.world.registry registry := by
        unfold World.registry
        rw [hsame, huntouched.registries]
      have hplanned : m.world.planned registry f a.identifier
          = m₁.world.planned registry f a.identifier := by
        unfold World.planned
        rw [hregistry]
      rw [hplanned]
      exact records_planned (hregistry ▸ heligible)

end RunState

/-! ## §6. A factory that answers a wrapper that fails. -/

/-- The host whose first function answers the second, which fails. -/
def refusingHost : Host Unit := fun id _ =>
  match id.number with
  | 0 => .done (.ok (.native ⟨⟨1⟩, "refuse", .host⟩))
  | _ => .done (.error (.raised "refused"))

/-- The first of its functions, as a transformation with an extra argument. -/
def refusingAdapter : Adapter Value :=
  Adapter.new (.native ⟨⟨0⟩, "make", .host⟩) [.int 1] []

theorem isApart_refusing (n : Native Value) (hrole : n.role = .host) :
    n.IsApart refusingHost := by
  intro args w
  unfold Native.respond
  rw [hrole]
  show ∃ r w', (refusingHost n.id args).outcome w = some (r, w') ∧ _
  unfold refusingHost
  split
  · exact ⟨_, _, rfl, rfl, rfl⟩
  · exact ⟨_, _, rfl, rfl, rfl⟩

theorem isApart_refusingAdapter : refusingAdapter.IsApart refusingHost where
  transformation := ⟨_, rfl, isApart_refusing _ rfl⟩
  wrapper := by
    intro w v w' hresolve
    cases hresolve with
    | kept h => cases h
    | itself _ hextras => cases hextras
    | made _ _ hfactory hcall =>
        cases hfactory
        cases hcall
        exact ⟨_, rfl, isApart_refusing _ rfl⟩

/-- The factory answers a wrapper, the wrapper fails, and its error is all that is
left. -/
theorem leaves_no_trace_refusing :
    ((boundWorld.registry ⟨0⟩).isEligible (.function callsGlobal) refusingAdapter.identifier = true)
      ∧ refusingAdapter.IsApart refusingHost
      ∧ ∃ m', RunState.run refusingHost 20 (.ofAction (.new ⟨2, 2, false⟩ boundWorld)
            (decorate ⟨0⟩ (.function callsGlobal) refusingAdapter))
          = some (.error (.raised "refused"), m')
        ∧ RunState.LeavesNoTrace refusingHost ⟨0⟩ callsGlobal refusingAdapter
          (.new ⟨2, 2, false⟩ boundWorld) (.raised "refused") m' := by
  have heligible : (boundWorld.registry ⟨0⟩).isEligible (.function callsGlobal)
      refusingAdapter.identifier = true := by decide +kernel
  have hrun : ∃ m', RunState.run refusingHost 20 (.ofAction (.new ⟨2, 2, false⟩ boundWorld)
      (decorate ⟨0⟩ (.function callsGlobal) refusingAdapter))
        = some (.error (.raised "refused"), m') := ⟨_, by rfl⟩
  obtain ⟨m', hrun⟩ := hrun
  exact ⟨heligible, isApart_refusingAdapter, m', hrun,
    (RunState.decoration_leaves_no_trace heligible isApart_refusingAdapter).2 20 _ m' hrun⟩

end CallDecoration
