/-
  CallDecoration.Proofs.Decoration.Histories
  ──────────────────────────────────────
  **Worlds whose histories grow, and hosts that do not tamper with them.**
  `World.Grows` compares what is recorded for the functions that are alive in
  the second of two worlds.  A host is lawful (`Host.Lawful`) if it changes
  histories by decorating only; the library's own host functions and the
  ready-made ones are.
-/
import CallDecoration.Proofs.Decoration.Decorating
import CallDecoration.Proofs.Dict
import CallDecoration.Host.Routine

namespace CallDecoration

variable {σ : Type}

/-! ## §1. Recording a history. -/

/-- What is recorded for a function that is alive stays when the registry
prunes itself. -/
theorem Registry.history?_record {live : FunctionId → Bool} {r : Registry} {f x : FunctionId}
    {h : History} (hx : live x = true) :
    (r.record live f h).2.history? x = if f = x then some h else r.history? x := by
  unfold Registry.record
  dsimp only
  split
  · exact Dict.get?_set r.entries f x h
  · unfold Registry.history? Registry.livingEntries
    rw [Dict.get?_filter _ live hx]
    exact Dict.get?_set r.entries f x h

theorem Registry.historyOf_record {live : FunctionId → Bool} {r : Registry} {f x : FunctionId}
    {h : History} (hx : live x = true) :
    (r.record live f h).2.historyOf x = if f = x then h else r.historyOf x := by
  unfold Registry.historyOf
  rw [Registry.history?_record hx]
  split <;> rfl

/-- The history of a function for which one has just been recorded is that
one, or empty if the function is gone and was pruned. -/
theorem Registry.historyOf_record_self (live : FunctionId → Bool) (r : Registry) (f : FunctionId)
    (h : History) :
    (r.record live f h).2.historyOf f = h ∨ (r.record live f h).2.historyOf f = .empty := by
  have hset : Dict.get? (Dict.set r.entries f h) f = some h := by
    rw [Dict.get?_set, if_pos rfl]
  unfold Registry.record
  dsimp only
  split
  · refine Or.inl ?_
    unfold Registry.historyOf Registry.history?
    rw [hset]
    rfl
  · unfold Registry.historyOf Registry.history? Registry.livingEntries
    cases hlive : live f with
    | true =>
        rw [Dict.get?_filter _ live hlive, hset]
        exact Or.inl rfl
    | false =>
        rw [Dict.get?_filter_none _ live hlive]
        exact Or.inr rfl

/-- Setting one registry leaves the others. -/
theorem World.registry_setRegistry (w : World σ) (registry other : RegistryId) (r : Registry) :
    (w.setRegistry registry r).registry other = if registry = other then r else w.registry other := by
  unfold World.registry World.setRegistry
  rw [Dict.get?_set]
  split <;> rfl

/-- **Recording a history changes the history of that function in that
registry,** and of no other function that is alive. -/
theorem World.historyOf_recordHistory {w : World σ} {registry other : RegistryId}
    {f x : FunctionId} {h : History} (hx : w.isLive x = true) :
    ((w.recordHistory registry f h).2.registry other).historyOf x
      = if registry = other ∧ f = x then h else (w.registry other).historyOf x := by
  show ((w.setRegistry registry ((w.registry registry).record w.isLive f h).2).registry
    other).historyOf x = _
  rw [World.registry_setRegistry]
  by_cases hreg : registry = other
  · subst hreg
    rw [if_pos rfl]
    refine (Registry.historyOf_record hx).trans ?_
    simp
  · rw [if_neg hreg, if_neg (fun h => hreg h.1)]

theorem World.registry_recordHistory (w : World σ) (registry : RegistryId) (f : FunctionId)
    (h : History) : (w.recordHistory registry f h).2.registry registry
      = ((w.registry registry).record w.isLive f h).2 :=
  (w.registry_setRegistry registry registry _).trans (if_pos rfl)

/-- The history of the function itself is the recorded one, or was pruned. -/
theorem World.historyOf_recordHistory_self (w : World σ) (registry : RegistryId) (f : FunctionId)
    (h : History) :
    ((w.recordHistory registry f h).2.registry registry).historyOf f = h
      ∨ ((w.recordHistory registry f h).2.registry registry).historyOf f = .empty := by
  rw [World.registry_recordHistory]
  exact Registry.historyOf_record_self w.isLive (w.registry registry) f h

theorem History.contains_extend {h : History} {name other : String} :
    (h.extend name).contains other = true ↔ h.contains other = true ∨ other = name := by
  unfold History.contains History.extend
  simp

/-! ## §2. Worlds whose histories grow. -/

namespace World

/-- The histories of the functions that are still alive are the same. -/
def Keeps (w w' : World σ) : Prop :=
  ∀ registry x, w'.isLive x = true →
    w.isLive x = true ∧ (w'.registry registry).historyOf x = (w.registry registry).historyOf x

/-- **The histories of the functions that are still alive are as they were or
extensions of that.** -/
def Grows (registry : RegistryId) (w w' : World σ) : Prop :=
  ∀ x, w'.isLive x = true → w.isLive x = true
    ∧ ((w.registry registry).historyOf x).names <+: ((w'.registry registry).historyOf x).names

variable {registry : RegistryId} {w w' w'' : World σ}

theorem Keeps.of_eq (hregistries : w'.registries = w.registries)
    (hdropped : w'.dropped = w.dropped) : w.Keeps w' := by
  intro registry x hx
  constructor
  · unfold isLive at hx ⊢
    rw [← hdropped]
    exact hx
  · unfold World.registry
    rw [hregistries]

theorem Keeps.of_same (h : w.SameButBindings w') : w.Keeps w' := by
  rw [h]
  exact Keeps.of_eq rfl rfl

theorem Keeps.grows (h : w.Keeps w') : Grows registry w w' := by
  intro x hx
  obtain ⟨hlive, hsame⟩ := h registry x hx
  rw [hsame]
  exact ⟨hlive, List.prefix_refl _⟩

theorem Grows.refl (registry : RegistryId) (w : World σ) : Grows registry w w :=
  fun _ hx => ⟨hx, List.prefix_refl _⟩

theorem Grows.trans (h₁ : Grows registry w w') (h₂ : Grows registry w' w'') :
    Grows registry w w'' := by
  intro x hx
  obtain ⟨hlive', hsecond⟩ := h₂ x hx
  obtain ⟨hlive, hfirst⟩ := h₁ x hlive'
  exact ⟨hlive, hfirst.trans hsecond⟩

/-- **A name that is recorded stays recorded,** so that the transformation is
not applied to the same function again. -/
theorem Grows.not_eligible (h : Grows registry w w') {f : Function Value} {name : String}
    (hlive : w'.isLive f.id = true)
    (hname : ((w.registry registry).historyOf f.id).contains name = true) :
    (w'.registry registry).isEligible (.function f) name = false := by
  have hkept : ((w'.registry registry).historyOf f.id).contains name = true := by
    unfold History.contains at hname ⊢
    rw [List.contains_iff_mem] at hname ⊢
    exact (h f.id hlive).2.subset hname
  show (!((w'.registry registry).historyOf f.id).contains name) = false
  rw [hkept]
  rfl

/-- Recording what continues the history of a function lets histories grow. -/
theorem grows_recordHistory {other : RegistryId} {f : FunctionId} {h : History}
    (hextends : other = registry → w.isLive f = true →
      ((w.registry registry).historyOf f).names <+: h.names) :
    Grows registry w (w.recordHistory other f h).2 := by
  intro x hx
  have hlive : w.isLive x = true := hx
  refine ⟨hlive, ?_⟩
  rw [historyOf_recordHistory hlive]
  split
  · rename_i hsame
    rw [← hsame.2]
    refine hextends hsame.1 ?_
    rw [hsame.2]
    exact hlive
  · exact List.prefix_refl _

end World

/-! ## §3. Hosts that change histories by decorating only. -/

/-- **An action, run in a world, that changes histories by decorating only.**
It may bind names, make functions, drop functions and call what it likes, in
any order; what it decorates, and with what, is its own affair. -/
inductive Lawful : World σ → Action σ Value → Prop where
  | done {w : World σ} (r : Except RunError Value) : Lawful w (.done r)
  | call {w : World σ} {callee : Value} {args : CallArgs}
      {next : Except RunError Value → Action σ Value} (h : ∀ r w', Lawful w' (next r)) :
      Lawful w (.call callee args next)
  | inspect {w : World σ} {next : Gauge → Action σ Value} (h : ∀ gauge, Lawful w (next gauge)) :
      Lawful w (.inspect next)
  | read {w : World σ} {next : World σ → Action σ Value} (h : Lawful w (next w)) :
      Lawful w (.read next)
  | write {w w' : World σ} {next : Action σ Value} (hkeeps : w.Keeps w') (h : Lawful w' next) :
      Lawful w (.write w' next)
  | decorate {w : World σ} (registry : RegistryId) (target : Value) (a : Adapter Value)
      {k : Except RunError Value → Action σ Value} (h : ∀ r w', Lawful w' (k r)) :
      Lawful w ((decorate registry target a).handle k)

/-- A host each of whose functions changes histories by decorating only. -/
def Host.Lawful (host : Host σ) : Prop :=
  ∀ id args w, CallDecoration.Lawful w (host id args)

/-- A change of the world that keeps the histories. -/
theorem Lawful.change {w : World σ} {α : Type} {change : World σ → α × World σ}
    {next : α → Action σ Value} (hkeeps : w.Keeps (change w).2)
    (h : ∀ x w', Lawful w' (next x)) : Lawful w ((Action.change change).bind next) :=
  Lawful.read (Lawful.write hkeeps (h _ _))

/-- A decoration that nothing follows. -/
theorem lawful_decorate (registry : RegistryId) (target : Value) (a : Adapter Value) (w : World σ) :
    Lawful w (decorate registry target a) := by
  rw [← Action.handle_done (decorate registry target a)]
  exact Lawful.decorate registry target a fun r _ => Lawful.done r

/-- **The library's own host functions are lawful** as well. -/
theorem Host.Lawful.respond {host : Host σ} (hhost : host.Lawful) (n : Native Value)
    (args : CallArgs) (w : World σ) : CallDecoration.Lawful w (n.respond host args) := by
  unfold Native.respond
  cases n.role with
  | host => exact hhost n.id args w
  | entryPoint registry =>
      show CallDecoration.Lawful w (enterDecoration registry args)
      unfold enterDecoration
      split
      · exact CallDecoration.Lawful.done _
      · exact CallDecoration.Lawful.read
          (CallDecoration.Lawful.write (World.Keeps.of_eq rfl rfl) (CallDecoration.Lawful.done _))
  | decorator registry a =>
      show CallDecoration.Lawful w (applyDecorator n.name registry a args)
      unfold applyDecorator
      split
      · exact lawful_decorate _ _ _ _
      · exact CallDecoration.Lawful.done _

/-- The ready-made host functions are lawful. -/
theorem lawful_routine (args : CallArgs) (routine : Routine) (w : World σ) :
    Lawful w (routine.run args) := by
  cases routine with
  | identity | constant v | arguments | raised text => exact Lawful.done _
  | forward callee => exact Lawful.call fun r _ => Lawful.done r
  | attempt kindOf =>
      simp only [Routine.run]
      split
      · exact Lawful.done _
      · exact Lawful.call fun r _ => Lawful.done (.ok (Routine.outcome kindOf r))
  | select cases =>
      simp only [Routine.run]
      split <;> exact Lawful.done _
  | gauges => exact Lawful.inspect fun _ => Lawful.done _
  | bind f => exact Lawful.read (Lawful.write (World.Keeps.of_eq rfl rfl) (Lawful.done _))
  | clone =>
      simp only [Routine.run]
      split
      · exact Lawful.read (Lawful.write (World.Keeps.of_eq rfl rfl) (Lawful.done _))
      · exact Lawful.done _

/-- **A host of ready-made functions is lawful.** -/
theorem lawful_ofStock (stock : Dict ObjectId Stocked) : (Host.ofStock stock).Lawful := by
  intro id args w
  unfold Host.ofStock
  split
  · rename_i s hs
    unfold Stocked.respond
    split
    · exact Lawful.change (World.Keeps.of_eq rfl rfl) fun _ w' => lawful_routine args s.routine w'
    · exact lawful_routine args s.routine w
  · exact Lawful.done _

end CallDecoration
