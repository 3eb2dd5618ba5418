/-
  CallDecoration.Proofs.Decoration.Growth
  ──────────────────────────────────────
  **When histories only grow.**  A decoration plans its history before the
  wrapper runs, and records it for whatever function the wrapper answers.  So
  the recorded history can lose names: the answered function may have had a
  history of its own.  On hosts that change histories by decorating only, the
  histories of the functions that stay alive grow along a run exactly if every
  decoration ends with a function whose history the planned one continues
  (`RunState.histories_grow_iff`).
-/
import CallDecoration.Proofs.Decoration.Histories

namespace CallDecoration.RunState

variable {σ : Type}

/-! ## §1. Decorations in a run. -/

/-- In this state the decoration of `f` begins, to be followed by `k`. -/
def Begins (t : RunState σ) (registry : RegistryId) (f : Function Value) (a : Adapter Value)
    (k : Except RunError Value → Action σ Value) : Prop :=
  t.focus = .action ((decorateFunction registry f a).handle k)

/-- The history that the decoration of `f` plans: that of `f`, extended by the
transformation. -/
def planned (t : RunState σ) (registry : RegistryId) (f : Function Value) (a : Adapter Value) :
    History :=
  ((t.machine.world.registry registry).historyOf f.id).extend a.identifier

/-- **In state `s` the wrapper has answered `x`** to the decoration that began
in state `t`, and the planned history is about to be recorded for `x`. -/
def Concludes (t s : RunState σ) (registry : RegistryId) (f : Function Value) (a : Adapter Value)
    (k : Except RunError Value → Action σ Value) (x : Function Value) : Prop :=
  s.focus = .answer (.ok (.function x))
    ∧ s.pending = .host (settle registry (t.planned registry f a) k) :: t.pending

/-- **Histories only grow** in a run: between any two of its states, what is
recorded for a function that stays alive is extended or left as it was. -/
def HistoriesGrow (host : Host σ) (registry : RegistryId) (s₀ : RunState σ) : Prop :=
  ∀ t s, Reaches host s₀ t → Reaches host t s →
    World.Grows registry t.machine.world s.machine.world

/-- **Transformations are applied once** in a run: a decoration of a function
by a transformation that has been recorded for it answers the function as it
is, and calls nothing. -/
def AppliesOnce (host : Host σ) (registry : RegistryId) (s₀ : RunState σ) : Prop :=
  ∀ t s x a k, Reaches host s₀ t → Reaches host t s → s.machine.world.isLive x.id = true →
    ((t.machine.world.registry registry).historyOf x.id).contains a.identifier = true →
      s.focus = .action ((decorate registry (.function x) a).handle k) →
        step host s = { s with focus := .action (k (.ok (.function x))) }

/-- **Decorations continue histories** in a run: whenever a wrapper answers a
function that is alive, the planned history continues the one which that
function has by then. -/
def DecorationsContinue (host : Host σ) (registry : RegistryId) (s₀ : RunState σ) : Prop :=
  ∀ t s f a k x, Reaches host s₀ t → Reaches host t s → t.Begins registry f a k →
    Concludes t s registry f a k x → s.machine.world.isLive x.id = true →
      ((s.machine.world.registry registry).historyOf x.id).names
        <+: (t.planned registry f a).names

/-! ## §2. What waits in a run. -/

section Waiting

variable (host : Host σ) (registry : RegistryId) (s₀ : RunState σ)

/-- **What follows a call** that a host function makes in state `s`, above the
calls `rest`: a lawful action, or the rest of a decoration that has begun
earlier in the run. -/
inductive Follows (s : RunState σ) (rest : List (Pending σ)) :
    (Except RunError Value → Action σ Value) → Prop where
  | lawful {next : Except RunError Value → Action σ Value} (h : ∀ r w, Lawful w (next r)) :
      Follows s rest next
  /-- The wrapper of a decoration runs. -/
  | settles {t : RunState σ} {other : RegistryId} {f : Function Value} {a : Adapter Value}
      {k : Except RunError Value → Action σ Value} (hstart : Reaches host s₀ t)
      (hreach : Reaches host t s) (hbegins : t.Begins other f a k) (hrest : t.pending = rest)
      (hk : ∀ r w, Lawful w (k r)) : Follows s rest (settle other (t.planned other f a) k)
  /-- The wrapper of a decoration is being resolved. -/
  | applies {t : RunState σ} {other : RegistryId} {f copy : Function Value} {a : Adapter Value}
      {k : Except RunError Value → Action σ Value} (hstart : Reaches host s₀ t)
      (hreach : Reaches host t s) (hbegins : t.Begins other f a k) (hrest : t.pending = rest)
      (hk : ∀ r w, Lawful w (k r)) :
      Follows s rest (applyTo other copy (t.planned other f a) k)

/-- What waits in state `s`. -/
inductive Waits (s : RunState σ) : List (Pending σ) → Prop where
  | nil : Waits s []
  | operand {rest : List (Pending σ)} (h : Waits s rest) : Waits s (.operand :: rest)
  | activation {rest : List (Pending σ)} (floor base : Nat) (h : Waits s rest) :
      Waits s (.activation floor base :: rest)
  | host {rest : List (Pending σ)} {next : Except RunError Value → Action σ Value}
      (hnext : Follows host s₀ s rest next) (h : Waits s rest) : Waits s (.host next :: rest)

/-- **What a host function does** in state `s`: it acts lawfully, or it is in
the middle of a decoration. -/
inductive Acts (s : RunState σ) (rest : List (Pending σ)) : World σ → Action σ Value → Prop where
  | lawful {w : World σ} {a : Action σ Value} (h : Lawful w a) : Acts s rest w a
  | call {w : World σ} {callee : Value} {args : CallArgs}
      {next : Except RunError Value → Action σ Value} (h : Follows host s₀ s rest next) :
      Acts s rest w (.call callee args next)
  | read {w : World σ} {next : World σ → Action σ Value} (h : Acts s rest w (next w)) :
      Acts s rest w (.read next)
  | write {w w' : World σ} {next : Action σ Value} (hgrows : World.Grows registry w w')
      (h : Acts s rest w' next) : Acts s rest w (.write w' next)

/-- **The invariant of a run.** -/
structure Proper (s : RunState σ) : Prop where
  reached : Reaches host s₀ s
  waits : Waits host s₀ s s.pending
  acts : ∀ a, s.focus = .action a → Acts host registry s₀ s s.pending s.machine.world a

variable {host registry s₀} {s s' : RunState σ} {rest : List (Pending σ)} {w : World σ}

/-! Each of these stays true while the run goes on. -/

theorem Follows.later (hreach : Reaches host s s')
    {next : Except RunError Value → Action σ Value} (h : Follows host s₀ s rest next) :
    Follows host s₀ s' rest next := by
  cases h with
  | lawful h => exact Follows.lawful h
  | settles hstart hbefore hbegins hrest hk =>
      exact Follows.settles hstart (hbefore.trans hreach) hbegins hrest hk
  | applies hstart hbefore hbegins hrest hk =>
      exact Follows.applies hstart (hbefore.trans hreach) hbegins hrest hk

theorem Waits.later (hreach : Reaches host s s') (h : Waits host s₀ s rest) :
    Waits host s₀ s' rest := by
  induction h with
  | nil => exact Waits.nil
  | operand _ ih => exact Waits.operand ih
  | activation floor base _ ih => exact Waits.activation floor base ih
  | host hnext _ ih => exact Waits.host (hnext.later hreach) ih

theorem Acts.later (hreach : Reaches host s s') {a : Action σ Value}
    (h : Acts host registry s₀ s rest w a) : Acts host registry s₀ s' rest w a := by
  induction h with
  | lawful h => exact Acts.lawful h
  | call h => exact Acts.call (h.later hreach)
  | read _ ih => exact Acts.read ih
  | write hgrows _ ih => exact Acts.write hgrows ih

end Waiting

/-! ## §3. Steps that leave the world alone. -/

section Calls

variable {host : Host σ} {registry : RegistryId} {s₀ u : RunState σ} {focus : Focus σ}
  {pending : List (Pending σ)} {m : Machine σ}

/-- A state in which nothing of the world has changed, and in which a host
function, if one acts, has only begun. -/
structure Clean (host : Host σ) (s₀ u : RunState σ) (w : World σ) (s : RunState σ) : Prop where
  waits : Waits host s₀ u s.pending
  world : s.machine.world = w
  lawful : ∀ a, s.focus = .action a → Lawful w a

theorem clean_answer (hwaits : Waits host s₀ u pending) (r : Except RunError Value) :
    Clean host s₀ u m.world ⟨.answer r, pending, m⟩ :=
  ⟨hwaits, rfl, fun _ h => nomatch h⟩

theorem clean_bytecode (hwaits : Waits host s₀ u pending) :
    Clean host s₀ u m.world ⟨.bytecode, pending, m⟩ :=
  ⟨hwaits, rfl, fun _ h => nomatch h⟩

theorem clean_resume (hwaits : Waits host s₀ u pending) (v : Value) :
    Clean host s₀ u m.world (resume v ⟨focus, pending, m⟩) := by
  obtain ⟨vs, fs, st, w, rfl⟩ := Machine.exists_of m
  by_cases hroom : vs.length < st.maxValueStack
  · rw [resume_of hroom]
    exact clean_bytecode (m := .of (v :: vs) fs st w) hwaits
  · rw [resume_full hroom]
    exact clean_answer hwaits _

theorem clean_activate (hwaits : Waits host s₀ u pending) (g : Function Value) (args : CallArgs) :
    Clean host s₀ u m.world (activate g args ⟨focus, pending, m⟩) := by
  obtain ⟨vs, fs, st, w, rfl⟩ := Machine.exists_of m
  cases hslots : Machine.admission g args fs.length st with
  | error e =>
      rw [activate_refused hslots]
      exact clean_answer hwaits _
  | ok locals =>
      rw [activate_of hslots]
      exact clean_bytecode (m := .of vs (⟨g, 0, vs.length, locals⟩ :: fs) st w)
        (Waits.activation _ _ hwaits)

theorem clean_enter (hhost : host.Lawful) (hwaits : Waits host s₀ u pending) (callee : Value)
    (args : CallArgs) : Clean host s₀ u m.world (enter host callee args ⟨focus, pending, m⟩) := by
  cases callee with
  | function g => exact clean_activate hwaits g args
  | method b => exact clean_activate hwaits b.function (args.withReceiver b.receiver)
  | native n =>
      refine ⟨hwaits, rfl, ?_⟩
      intro a ha
      cases ha
      exact hhost.respond n args m.world
  | _ => exact clean_answer hwaits _

theorem clean_return (hwaits : Waits host s₀ u pending) (v : Value) :
    Clean host s₀ u m.world (afterReturn v ⟨.bytecode, pending, m⟩) := by
  unfold afterReturn
  cases hwaits with
  | activation floor base h =>
      dsimp only
      split
      · exact clean_answer h _
      · exact clean_resume (Waits.activation floor base h) v
  | nil => exact clean_resume Waits.nil v
  | operand h => exact clean_resume (Waits.operand h) v
  | host hnext h => exact clean_resume (Waits.host hnext h) v

/-- **Bytecode changes no history.** -/
theorem clean_stepBytecode (hhost : host.Lawful) (hwaits : Waits host s₀ u pending) :
    ∃ w, m.world.Keeps w ∧ Clean host s₀ u w (step host ⟨.bytecode, pending, m⟩) := by
  have hkeeps := World.Keeps.of_same (Machine.stepFrame_world m)
  cases hstep : Machine.stepFrame m with
  | mk outcome n =>
      rw [hstep] at hkeeps
      refine ⟨n.world, hkeeps, ?_⟩
      cases outcome with
      | error e =>
          rw [step_failed hstep]
          exact clean_answer hwaits _
      | ok signal =>
          cases signal with
          | advance =>
              rw [step_advance hstep]
              exact clean_bytecode hwaits
          | returned v =>
              rw [step_returned hstep]
              exact clean_return hwaits v
          | external callee args =>
              rw [step_external hstep]
              exact clean_enter hhost (Waits.operand hwaits) callee args

end Calls

/-! ## §4. One step. -/

section Step

variable {host : Host σ} {registry : RegistryId} {s₀ : RunState σ}

/-- A decoration first looks whether the value is eligible. -/
theorem step_decorate (host : Host σ) (other : RegistryId) (target : Value) (a : Adapter Value)
    (k : Except RunError Value → Action σ Value) (pending : List (Pending σ)) (m : Machine σ) :
    (∃ f, step host ⟨.action ((decorate other target a).handle k), pending, m⟩
        = ⟨.action ((decorateFunction other f a).handle k), pending, m⟩)
      ∨ step host ⟨.action ((decorate other target a).handle k), pending, m⟩
        = ⟨.action (k (.ok target)), pending, m⟩ := by
  rw [decorate_handle]
  show (∃ f, (⟨.action (if (m.world.registry other).isEligible target a.identifier then _ else _),
      pending, m⟩ : RunState σ) = _) ∨ (⟨.action (if _ then _ else _), pending, m⟩ : RunState σ) = _
  split
  · cases target with
    | function f => exact Or.inl ⟨f, rfl⟩
    | _ => exact Or.inr rfl
  · exact Or.inr rfl

theorem step_decorate_recorded {host : Host σ} {registry : RegistryId} {x : Function Value}
    {a : Adapter Value} {k : Except RunError Value → Action σ Value} {s : RunState σ}
    (hrecorded : (s.machine.world.registry registry).isEligible (.function x) a.identifier = false)
    (hfocus : s.focus = .action ((decorate registry (.function x) a).handle k)) :
    step host s = { s with focus := .action (k (.ok (.function x))) } := by
  obtain ⟨focus, pending, m⟩ := s
  dsimp only at hfocus hrecorded
  subst hfocus
  rw [decorate_handle]
  show (⟨.action (if (m.world.registry registry).isEligible (.function x) a.identifier then _
      else _), pending, m⟩ : RunState σ) = _
  rw [hrecorded]
  rfl

/-- **The beginning of a decoration:** its history is planned from the world in
which it begins. -/
theorem acts_decorateFunction {s : RunState σ} {other : RegistryId} {f : Function Value}
    {a : Adapter Value} {k : Except RunError Value → Action σ Value} (hstart : Reaches host s₀ s)
    (hbegins : s.Begins other f a k) (hk : ∀ r w, Lawful w (k r)) :
    Acts host registry s₀ s s.pending s.machine.world ((decorateFunction other f a).handle k) := by
  cases hbody : f.instrumentedBody with
  | error e =>
      rw [decorateFunction_handle_error other k hbody]
      exact Acts.lawful (hk _ _)
  | ok body =>
      rw [decorateFunction_handle other k hbody]
      refine Acts.read (Acts.write (World.Keeps.of_eq rfl rfl).grows (Acts.read
        (Acts.write (World.Keeps.of_eq rfl rfl).grows (Acts.read ?_))))
      -- the identities that were taken leave the registries as they are
      show Acts host registry s₀ s s.pending _ (a.resolve.handle
        (applyTo other _ (s.planned other f a) k))
      rcases resolve_cases a with ⟨wrapper, hresolved⟩ | hresolved
      · rw [hresolved]
        exact Acts.call (Follows.settles hstart (Reaches.refl s) hbegins rfl hk)
      · rw [hresolved]
        exact Acts.call (Follows.applies hstart (Reaches.refl s) hbegins rfl hk)

theorem Clean.proper {s s' : RunState σ} {w : World σ} (hreached : Reaches host s₀ s')
    (hstep : Reaches host s s') (h : Clean host s₀ s w s') : Proper host registry s₀ s' where
  reached := hreached
  waits := h.waits.later hstep
  acts := by
    intro a ha
    rw [h.world]
    exact Acts.lawful (h.lawful a ha)

/-- One request of a host function. -/
theorem proper_action (hhost : host.Lawful) {pending : List (Pending σ)} {m : Machine σ}
    {a : Action σ Value} (h : Proper host registry s₀ ⟨.action a, pending, m⟩) :
    Proper host registry s₀ (step host ⟨.action a, pending, m⟩)
      ∧ World.Grows registry m.world (step host ⟨.action a, pending, m⟩).machine.world := by
  have hwaits : Waits host s₀ ⟨.action a, pending, m⟩ pending := h.waits
  have hacts : Acts host registry s₀ ⟨.action a, pending, m⟩ pending m.world a := h.acts a rfl
  have hstep : Reaches host ⟨.action a, pending, m⟩ (step host ⟨.action a, pending, m⟩) :=
    Reaches.one rfl
  have hreached := h.reached.trans hstep
  -- a call begins cleanly, whatever follows it
  have hcall : ∀ callee args next, a = .call callee args next →
      Follows host s₀ ⟨.action a, pending, m⟩ pending next →
      Proper host registry s₀ (step host ⟨.action a, pending, m⟩)
        ∧ World.Grows registry m.world (step host ⟨.action a, pending, m⟩).machine.world := by
    rintro callee args next rfl hnext
    have hclean : Clean host s₀ ⟨.action (.call callee args next), pending, m⟩ m.world
        (step host ⟨.action (.call callee args next), pending, m⟩) :=
      clean_enter hhost (Waits.host hnext hwaits) callee args
    refine ⟨hclean.proper hreached hstep, ?_⟩
    rw [hclean.world]
    exact World.Grows.refl registry _
  -- any other request leaves what waits as it is
  have hnext : ∀ a' w', step host ⟨.action a, pending, m⟩ = ⟨.action a', pending,
      { m with world := w' }⟩ → World.Grows registry m.world w' →
      (Reaches host s₀ ⟨.action a', pending, { m with world := w' }⟩ →
        Acts host registry s₀ ⟨.action a', pending, { m with world := w' }⟩ pending w' a') →
      Proper host registry s₀ (step host ⟨.action a, pending, m⟩)
        ∧ World.Grows registry m.world (step host ⟨.action a, pending, m⟩).machine.world := by
    intro a' w' heq hgrows hacts'
    rw [heq] at hstep hreached ⊢
    refine ⟨⟨hreached, hwaits.later hstep, ?_⟩, hgrows⟩
    intro b hb
    cases hb
    exact hacts' hreached
  cases hacts with
  | call hfollows => exact hcall _ _ _ rfl hfollows
  | read hrest =>
      exact hnext _ m.world rfl (World.Grows.refl registry _) fun _ => hrest.later hstep
  | write hgrows hrest => exact hnext _ _ rfl hgrows fun _ => hrest.later hstep
  | lawful hlawful =>
      cases hlawful with
      | done r =>
          refine ⟨⟨hreached, hwaits.later hstep, ?_⟩, World.Grows.refl registry _⟩
          intro b hb
          cases hb
      | call hrest => exact hcall _ _ _ rfl (Follows.lawful hrest)
      | inspect hrest =>
          exact hnext _ m.world rfl (World.Grows.refl registry _) fun _ => Acts.lawful (hrest _)
      | read hrest =>
          exact hnext _ m.world rfl (World.Grows.refl registry _) fun _ => Acts.lawful hrest
      | write hkeeps hrest => exact hnext _ _ rfl hkeeps.grows fun _ => Acts.lawful hrest
      | decorate other target ad hk =>
          rcases step_decorate host other target ad _ pending m with ⟨f, heq⟩ | heq
          · exact hnext _ m.world heq (World.Grows.refl registry _)
              fun hbegun => acts_decorateFunction hbegun rfl hk
          · exact hnext _ m.world heq (World.Grows.refl registry _) fun _ => Acts.lawful (hk _ _)

/-- **An answer goes on a decoration** as the planned history allows. -/
theorem acts_follows {s : RunState σ} {r : Except RunError Value} {rest : List (Pending σ)}
    {next : Except RunError Value → Action σ Value}
    (hcontinue : DecorationsContinue host registry s₀) (hfocus : s.focus = .answer r)
    (hpending : s.pending = .host next :: rest) (h : Follows host s₀ s rest next) :
    Acts host registry s₀ s rest s.machine.world (next r) := by
  cases h with
  | lawful hnext => exact Acts.lawful (hnext _ _)
  | @settles t other f a k hstart hreach hbegins hrest hk =>
      cases r with
      | error e => exact Acts.lawful (hk (.error e) _)
      | ok v =>
          cases v with
          | function x =>
              refine Acts.read (Acts.write ?_ (Acts.lawful (hk (.ok (.function x)) _)))
              refine World.grows_recordHistory ?_
              rintro rfl hlive
              refine hcontinue t s f a k x hstart hreach hbegins ⟨hfocus, ?_⟩ hlive
              rw [hpending, hrest]
          | _ => exact Acts.lawful (hk (.ok _) _)
  | applies hstart hreach hbegins hrest hk =>
      cases r with
      | error e => exact Acts.lawful (hk (.error e) _)
      | ok wrapper => exact Acts.call (Follows.settles hstart hreach hbegins hrest hk)

/-- One answer that is handed on. -/
theorem proper_answer (hcontinue : DecorationsContinue host registry s₀)
    {pending : List (Pending σ)} {m : Machine σ} {r : Except RunError Value}
    (h : Proper host registry s₀ ⟨.answer r, pending, m⟩) :
    Proper host registry s₀ (step host ⟨.answer r, pending, m⟩)
      ∧ World.Grows registry m.world (step host ⟨.answer r, pending, m⟩).machine.world := by
  have hstep : Reaches host ⟨.answer r, pending, m⟩ (step host ⟨.answer r, pending, m⟩) :=
    Reaches.one rfl
  have hreached := h.reached.trans hstep
  have hwaits : Waits host s₀ ⟨.answer r, pending, m⟩ pending := h.waits
  -- where no host function goes on, the world stays as it is
  have hclean : Clean host s₀ ⟨.answer r, pending, m⟩ m.world
      (step host ⟨.answer r, pending, m⟩) →
      Proper host registry s₀ (step host ⟨.answer r, pending, m⟩)
        ∧ World.Grows registry m.world (step host ⟨.answer r, pending, m⟩).machine.world := by
    intro hclean
    refine ⟨hclean.proper hreached hstep, ?_⟩
    rw [hclean.world]
    exact World.Grows.refl registry _
  cases hwaits with
  | nil =>
      refine hclean ?_
      rw [step_ended]
      exact clean_answer Waits.nil r
  | operand hrest =>
      cases r with
      | ok v => exact hclean (clean_resume hrest v)
      | error e => exact hclean (clean_answer hrest _)
  | activation floor base hrest =>
      cases r with
      | ok v => exact hclean (clean_answer hrest _)
      | error e => exact hclean (clean_answer (m := m.unwind floor base) hrest _)
  | @host rest next hnext hrest =>
      have heq : step host ⟨.answer r, .host next :: rest, m⟩ = ⟨.action (next r), rest, m⟩ := by
        cases r <;> rfl
      have hacts := acts_follows hcontinue rfl rfl hnext
      rw [heq] at hstep hreached ⊢
      refine ⟨⟨hreached, hrest.later hstep, ?_⟩, World.Grows.refl registry _⟩
      intro b hb
      cases hb
      exact hacts.later hstep

/-- **One step of a run** keeps the invariant and lets histories grow. -/
theorem proper_step (hhost : host.Lawful) (hcontinue : DecorationsContinue host registry s₀)
    {s : RunState σ} (h : Proper host registry s₀ s) :
    Proper host registry s₀ (step host s)
      ∧ World.Grows registry s.machine.world (step host s).machine.world := by
  obtain ⟨focus, pending, m⟩ := s
  cases focus with
  | action a => exact proper_action hhost h
  | answer r => exact proper_answer hcontinue h
  | bytecode =>
      obtain ⟨w, hkeeps, hclean⟩ := clean_stepBytecode (m := m) hhost h.waits
      refine ⟨hclean.proper (h.reached.next rfl) (Reaches.one rfl), ?_⟩
      rw [hclean.world]
      exact hkeeps.grows

end Step

/-! ## §5. The main result. -/

section Runs

variable {host : Host σ} {registry : RegistryId} {s₀ : RunState σ}

/-- Along a run that continues histories, they grow. -/
theorem grows_of_reaches (hhost : host.Lawful) (hcontinue : DecorationsContinue host registry s₀)
    {t s : RunState σ} (ht : Proper host registry s₀ t) (hreach : Reaches host t s) :
    Proper host registry s₀ s ∧ World.Grows registry t.machine.world s.machine.world := by
  have hpreserved : ∀ u, (Proper host registry s₀ u
      ∧ World.Grows registry t.machine.world u.machine.world) →
      Proper host registry s₀ (step host u)
        ∧ World.Grows registry t.machine.world (step host u).machine.world := by
    rintro u ⟨hu, hgrows⟩
    obtain ⟨hnext, hstep⟩ := proper_step hhost hcontinue hu
    exact ⟨hnext, hgrows.trans hstep⟩
  exact hreach.preserves hpreserved ⟨ht, World.Grows.refl registry _⟩

/-- Where histories grow, what is recorded for a function stays recorded. -/
theorem HistoriesGrow.appliesOnce {s₀ : RunState σ} (h : HistoriesGrow host registry s₀) :
    AppliesOnce host registry s₀ := by
  intro t s x a k hstart hreach hlive hname hfocus
  exact step_decorate_recorded ((h t s hstart hreach).not_eligible hlive hname) hfocus

/-- **The end of a decoration records the planned history.** -/
theorem exists_recorded (host : Host σ) {t s : RunState σ} {f x : Function Value} {a : Adapter Value}
    {k : Except RunError Value → Action σ Value} (h : Concludes t s registry f a k x) :
    ∃ u, Reaches host s u ∧ u.machine.world
      = (s.machine.world.recordHistory registry x.id (t.planned registry f a)).2 := by
  obtain ⟨focus, pending, m⟩ := s
  obtain ⟨hfocus, hpending⟩ := h
  simp only at hfocus hpending
  subst hfocus
  subst hpending
  refine ⟨_, ⟨3, rfl⟩, rfl⟩

/-- **Histories only grow exactly if decorations continue them.**  On a lawful
host, no function that stays alive loses a recorded name in the course of a
run, and so is not decorated again by a transformation that was recorded for
it, if and only if, whenever a wrapper answers a function that is alive, the
history planned for the decorated function continues the one that the answered
function has by then. -/
theorem histories_grow_iff (hhost : host.Lawful) (registry : RegistryId) {m : Machine σ}
    {a : Action σ Value} (ha : Lawful m.world a) :
    (HistoriesGrow host registry (ofAction m a) ∧ AppliesOnce host registry (ofAction m a))
      ↔ DecorationsContinue host registry (ofAction m a) := by
  constructor
  · rintro ⟨hgrow, -⟩ t s f ad k x hstart hreach hbegins hconcludes hlive
    obtain ⟨u, hrecorded, hworld⟩ := exists_recorded host hconcludes
    obtain ⟨_, hextends⟩ := hgrow s u (hstart.trans hreach) hrecorded x.id
      (by rw [hworld]; exact hlive)
    rw [hworld, World.historyOf_recordHistory hlive, if_pos ⟨rfl, rfl⟩] at hextends
    exact hextends
  · intro hcontinue
    have hbegin : Proper host registry (ofAction m a) (ofAction m a) := by
      refine ⟨Reaches.refl _, Waits.nil, ?_⟩
      intro b hb
      cases hb
      exact Acts.lawful ha
    have hgrow : HistoriesGrow host registry (ofAction m a) := by
      intro t s hstart hreach
      have ht := (grows_of_reaches hhost hcontinue hbegin hstart).1
      exact (grows_of_reaches hhost hcontinue ht hreach).2
    exact ⟨hgrow, hgrow.appliesOnce⟩

end Runs

/-! ## §6. A wrapper that answers another function. -/

/-- The host on which the host function 0 answers its argument, and any other
what `g` is bound to. -/
def lookupHost : Host Unit := fun id args =>
  if id = ⟨0⟩ then .done (.ok (args.positional.headD .nil))
  else .read fun w => .done (.ok ((w.lookup ⟨0⟩ "g").getD .nil))

/-- Decorates a function by the first of them, binds the result to `g`, and
decorates another function by the second. -/
def decoratesTwice : Action Unit Value :=
  (decorate ⟨0⟩ (.function answersFive) (plainAdapter ⟨⟨0⟩, "a", .host⟩)).bind fun g =>
    (Action.change fun w => ((), w.bind ⟨0⟩ "g" g)).bind fun _ =>
      decorate ⟨0⟩ (.function callsGlobal) (plainAdapter ⟨⟨1⟩, "w", .host⟩)

/-- The machine on which both functions have just been made. -/
def freshMachine : Machine Unit :=
  .new ⟨2, 2, false⟩ { World.new () with nextFunction := 3 }

theorem lawful_lookupHost : lookupHost.Lawful := by
  intro id args w
  unfold lookupHost
  split
  · exact Lawful.done _
  · exact Lawful.read (Lawful.done _)

theorem lawful_decoratesTwice (w : World Unit) : Lawful w decoratesTwice := by
  unfold decoratesTwice
  rw [Action.bind_eq_handle]
  refine Lawful.decorate _ _ _ fun r w' => ?_
  cases r with
  | error e => exact Lawful.done _
  | ok g => exact Lawful.change (World.Keeps.of_eq rfl rfl) fun _ _ => lawful_decorate _ _ _ _

/-- **A history can shrink.**  The second decoration records `w` for the
function that has been decorated by `a`, and `a` is forgotten: `a` could be
applied to the same function again. -/
theorem not_historiesGrow_decoratesTwice :
    lookupHost.Lawful ∧ Lawful freshMachine.world decoratesTwice
      ∧ ¬ HistoriesGrow lookupHost ⟨0⟩ (ofAction freshMachine decoratesTwice) := by
  refine ⟨lawful_lookupHost, lawful_decoratesTwice _, ?_⟩
  intro hgrow
  -- between the two decorations, and after the second
  obtain ⟨_, hextends⟩ := hgrow ((step lookupHost)^[15] (ofAction freshMachine decoratesTwice))
    ((step lookupHost)^[15] ((step lookupHost)^[15] (ofAction freshMachine decoratesTwice)))
    ⟨15, rfl⟩ ⟨15, rfl⟩ ⟨3⟩ rfl
  have hlost : ["a"] <+: ["w"] := hextends
  exact absurd hlost (by decide)

/-- In this run, then, some decoration does not continue a history. -/
theorem histories_grow_iff_decoratesTwice :
    lookupHost.Lawful ∧ Lawful freshMachine.world decoratesTwice
      ∧ ((HistoriesGrow lookupHost ⟨0⟩ (ofAction freshMachine decoratesTwice)
          ∧ AppliesOnce lookupHost ⟨0⟩ (ofAction freshMachine decoratesTwice))
        ↔ DecorationsContinue lookupHost ⟨0⟩ (ofAction freshMachine decoratesTwice)) :=
  ⟨lawful_lookupHost, lawful_decoratesTwice _,
    histories_grow_iff lawful_lookupHost ⟨0⟩ (lawful_decoratesTwice _)⟩

end CallDecoration.RunState
