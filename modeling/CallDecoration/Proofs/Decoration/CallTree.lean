/-
  CallDecoration.Proofs.Decoration.CallTree
  ──────────────────────────────────────
  **Wrapping follows the executed call tree.**  A function of a program is
  decorated by several wrappers in turn and called.  If the run returns a
  result, then each wrapper was applied to that function and to the functions
  that flagged frames have called, in the order of the calls; every call has the
  applications of all wrappers right before it; and no function was instrumented
  but for these applications (`Program.wrapping_follows_calls`).
-/
import CallDecoration.Proofs.Decoration.Stretches

namespace CallDecoration

variable {σ : Type}

/-! ## §1. What the log of a run says. -/

/-- **The log of a run that follows the executed calls.** -/
structure FollowsTree (wrappers : List (Native Value)) (carried : FunctionId → Bool)
    (name : String) (log : List Event) : Prop where
  /-- The wrappers are applied to the decorated function, and then to each
  called function right before its call. -/
  order : ∃ first later, log = first ++ later ∧ AppliedTo wrappers name first
    ∧ FollowsCalls wrappers carried later
  /-- Each wrapper has been applied to these functions and to nothing else. -/
  arguments : ∀ n ∈ wrappers, ∃ gs : List (Function Value),
    log.filterMap (Event.argumentsOf? n) = gs.map (fun g => .one (.function g))
      ∧ gs.map Function.name = name :: (log.filterMap (Event.called? carried)).map Function.name

/-- Each wrapper has been applied once more than there were calls. -/
theorem FollowsTree.length {wrappers : List (Native Value)} {carried : FunctionId → Bool}
    {name : String} {log : List Event} (h : FollowsTree wrappers carried name log)
    {n : Native Value} (hn : n ∈ wrappers) :
    (log.filterMap (Event.argumentsOf? n)).length
      = (log.filterMap (Event.called? carried)).length + 1 := by
  obtain ⟨gs, harguments, hcalled⟩ := h.arguments n hn
  have hlength := congrArg List.length hcalled
  rw [List.length_map, List.length_cons, List.length_map] at hlength
  rw [harguments, List.length_map, hlength]

namespace Program

open Watched

variable {host : Host σ} {registry : RegistryId} {wrappers : List (Native Value)}
  {carried : FunctionId → Bool} {w₀ : World σ}

/-- Applications to the decorated function, and then what follows its calls. -/
theorem followsTree (P : Program host registry wrappers carried w₀) {name : String}
    {first later : List Event} (hfirst : AppliedTo wrappers name first)
    (hlater : FollowsCalls wrappers carried later) :
    FollowsTree wrappers carried name (first ++ later) where
  order := ⟨first, later, rfl, hfirst, hlater⟩
  arguments := by
    intro n hn
    obtain ⟨g, hg, harguments⟩ := hfirst.argumentsOf? P.distinct hn
    obtain ⟨gs, harguments', hcalled⟩ := hlater.argumentsOf? P.distinct hn
    refine ⟨g :: gs, ?_, ?_⟩
    · rw [List.filterMap_append, harguments, harguments']
      rfl
    · rw [List.filterMap_append, hfirst.called?, List.nil_append, List.map_cons, hg, hcalled]

/-! ## §2. The whole run. -/

section Runs

variable {P : Program host registry wrappers carried w₀} {st : Settings} {args : CallArgs}

/-- An error that the host function waits for ends the run. -/
theorem fails_of_outer {x : Watched σ} (h : Fails host carried outer x) :
    Fails host carried [] x := by
  obtain ⟨e, evs, m, flags, hpasses⟩ := h
  obtain ⟨vs, fs, st, w, hunwound⟩ := Machine.exists_of (m.unwind 0 0)
  let z : Watched σ := ⟨⟨.answer (.error e), outer, m⟩, flags⟩
  have hfirst : Passes host carried z []
      ⟨⟨.answer (.error e), [.host .done], .of vs fs st w⟩, (z.next host carried).flags⟩ := by
    refine Passes.one ?_ rfl
    rw [← hunwound]
    rfl
  have hlast : Passes host carried
      ⟨⟨.answer (.error e), [.host .done], .of vs fs st w⟩, (z.next host carried).flags⟩ []
      ⟨⟨.answer (.error e), [], .of vs fs st w⟩, (z.next host carried).flags⟩ :=
    passes_answer.silent passes_done
  exact ⟨e, _, _, _, hpasses.trans (hfirst.trans hlast)⟩

/-- **The host function decorates and calls:** it comes to a checkpoint, or the
run ends with an error. -/
theorem decorates_and_calls (P : Program host registry wrappers carried w₀) {f : Function Value}
    (hf : P.plain f) (hargs : args.All P.Holds) :
    (∃ y evs, Passes host carried
        ⟨.ofAction (.new st w₀) (decorateAndCall registry args wrappers (.function f)), []⟩ evs y
      ∧ AppliedTo wrappers f.name evs ∧ P.Checkpoint y
      ∧ made y = w₀.nextFunction + wrappers.length)
    ∨ Fails host carried []
        ⟨.ofAction (.new st w₀) (decorateAndCall registry args wrappers (.function f)), []⟩ := by
  rcases decoratesAll_or_stuck registry id wrappers w₀ (.function f) with
    ⟨v, w, evs, hall⟩ | hstuck
  · obtain ⟨x, ls, R, rfl, hx, _, happlied, hw, hmade⟩ :=
      P.tracks_start.decorated (fun w => rfl) hf hall
    have hdecorated : Passes host carried
        ⟨.ofAction (.new st w₀) (decorateAndCall registry args wrappers (.function f)), []⟩ evs
        ⟨⟨.action (Action.callValue (.function x) args), [], .of [] [] st w⟩, []⟩ :=
      passes_decorateAll P.echoes hall
    -- the decorated function may still refuse the arguments
    cases hlocals : Machine.admission x args ([] : List Frame).length st with
    | error e =>
        have hrefused : Passes host carried
            ⟨⟨.action (Action.callValue (.function x) args), [], .of [] [] st w⟩, []⟩ []
            ⟨⟨.answer (.error e), [.host .done], .of [] [] st w⟩, []⟩ :=
          Passes.one (next_level (RunState.activate_refused hlocals) rfl) rfl
        have hended : Passes host carried
            ⟨⟨.answer (.error e), [.host .done], .of [] [] st w⟩, []⟩ []
            ⟨⟨.answer (.error e), [], .of [] [] st w⟩, []⟩ :=
          passes_answer.silent passes_done
        exact Or.inr ⟨e, _, _, _, hdecorated.trans (hrefused.trans hended)⟩
    | ok locals =>
        have hcalled : Passes host carried
            ⟨⟨.action (Action.callValue (.function x) args), [], .of [] [] st w⟩, []⟩ []
            ⟨⟨.bytecode, outer, .of [] [⟨x, 0, 0, locals⟩] st w⟩, [true]⟩ :=
          Passes.one (next_entered (RunState.activate_of hlocals) rfl) rfl
        exact Or.inl ⟨_, _, hdecorated.then_silent hcalled, happlied,
          Checkpoint.stands (FrameOf.enter hf hx hargs hlocals) List.Forall₂.nil (by simp) hw, hmade⟩
  · exact Or.inr (fails_decorateAll P.echoes hstuck)

/-- What a log tells of a run from a state to its end, if that is a result. -/
def Tells (wrappers : List (Native Value)) (carried : FunctionId → Bool) (x : Watched σ)
    (log : List Event) (z : Watched σ) : Prop :=
  ∀ v m, z.state = ⟨.answer (.ok v), [], m⟩ → FollowsCalls wrappers carried log
    ∧ made z = made x + wrappers.length * (log.filterMap (Event.called? carried)).length

/-- **From a checkpoint on, the log is made of what is noted of one call after
the other.** -/
theorem tells_of_checkpoint {x : Watched σ} (hx : P.Checkpoint x) {n : Nat}
    (hend : ((next host carried)^[n] x).IsEnded) :
    Tells wrappers carried x (log host carried n x) ((next host carried)^[n] x) := by
  have hrunning : ∀ x, P.Checkpoint x → ¬ x.IsEnded := by
    rintro _ ⟨⟩ ⟨r, m, hended⟩
    cases hended
  refine log_induction hrunning ?_ hx hend
  intro x hx
  rcases P.stretch hx with hfails | ⟨y, evs, hadvances, hnoted, hy, hmade⟩
  · -- a stretch that fails leads to the end
    obtain ⟨e, evs, m, flags, hpasses⟩ := fails_of_outer hfails
    refine ⟨_, evs, hpasses.advances_of_ne ?_, Or.inl ⟨⟨_, _, rfl⟩, ?_⟩⟩
    · rintro rfl
      exact hrunning _ hx ⟨_, _, rfl⟩
    · intro v m hended
      cases hended
  · refine ⟨y, evs, hadvances, ?_⟩
    rcases hy with hy | hended
    · refine Or.inr ⟨hy, ?_⟩
      intro later z hlater v m hz
      obtain ⟨hfollows, hmore⟩ := hlater v m hz
      refine ⟨FollowsCalls.call hnoted hfollows, ?_⟩
      rw [hmore, hmade, List.filterMap_append, List.length_append, Nat.mul_add, Nat.add_assoc]
    · refine Or.inl ⟨hended, ?_⟩
      intro v m hz
      have hfollows := FollowsCalls.call hnoted FollowsCalls.nil
      rw [List.append_nil] at hfollows
      exact ⟨hfollows, hmade⟩

/-! ## §3. The main result. -/

/-- **Wrapping follows the executed call tree.**  Let a function of a program be
decorated by the wrappers in turn, and let what comes out be called.  If that
run returns a result, its log follows the executed calls, and a function was
made for each application of a wrapper and for nothing else. -/
theorem wrapping_follows_calls (P : Program host registry wrappers carried w₀)
    {f : Function Value} (hf : P.plain f) (hargs : args.All P.Holds) {fuel : Nat} {v : Value}
    {m : Machine σ}
    (hrun : RunState.run host fuel
      (.ofAction (.new st w₀) (decorateAndCall registry args wrappers (.function f)))
        = some (.ok v, m)) :
    FollowsTree wrappers carried f.name (log host carried fuel
        ⟨.ofAction (.new st w₀) (decorateAndCall registry args wrappers (.function f)), []⟩)
      ∧ m.world.nextFunction = w₀.nextFunction + wrappers.length
        * (1 + ((log host carried fuel
          ⟨.ofAction (.new st w₀) (decorateAndCall registry args wrappers (.function f)),
            []⟩).filterMap (Event.called? carried)).length) := by
  have hstate : ((next host carried)^[fuel] ⟨.ofAction (.new st w₀)
      (decorateAndCall registry args wrappers (.function f)), []⟩).state
        = ⟨.answer (.ok v), [], m⟩ := state_of_run hrun []
  have hend : ((next host carried)^[fuel] ⟨.ofAction (.new st w₀)
      (decorateAndCall registry args wrappers (.function f)), []⟩).IsEnded := ⟨_, _, hstate⟩
  -- the decorations come first, and they and the call of their result lead to a checkpoint
  rcases P.decorates_and_calls hf hargs with
    ⟨y, first, hpasses, happlied, hy, hmade⟩ | ⟨e, evs, m', flags, hpasses⟩
  · have hrunning : ¬ y.IsEnded := by
      obtain ⟨⟩ := hy
      rintro ⟨r, m, hended⟩
      cases hended
    obtain ⟨k, hlog, hsame⟩ := hpasses.exists_rest hrunning hend
    rw [hsame] at hstate hend
    obtain ⟨hfollows, hmore⟩ := tells_of_checkpoint hy hend v m hstate
    rw [hlog]
    refine ⟨P.followsTree happlied hfollows, ?_⟩
    have hworld : made ((next host carried)^[k] y) = m.world.nextFunction := by
      unfold made
      rw [hstate]
    rw [List.filterMap_append, happlied.called?, List.nil_append, Nat.mul_add, Nat.mul_one,
      ← Nat.add_assoc, ← hmade, ← hmore, hworld]
  · -- the run has ended with a result, and not with an error
    have hsame := hpasses.eq_ended ⟨_, _, rfl⟩ hend
    rw [hsame] at hstate
    cases hstate

end Runs

end Program

/-! ## §4. A function that calls a global. -/

/-- The functions of the following programs: one answers five, the other calls
the global `g`. -/
def SmallFunction (g : Function Value) : Prop :=
  g = answersFive ∨ g = callsGlobal

namespace SmallFunction

variable {g : Function Value}

theorem rows (h : SmallFunction g) : ∃ rows, decode g.body.code = .ok rows
    ∧ ∀ row ∈ rows, row.2 ≠ .synthetic ∧ ∀ index, row.2 ≠ .loadCapture index := by
  rcases h with rfl | rfl
  · exact ⟨[(0, .pushSmall 5), (2, .return)], rfl, by simp⟩
  · exact ⟨[(0, .loadGlobal 0), (3, .call (CallShape.plain 0)), (6, .return)], rfl, by simp⟩

theorem unmarked (h : SmallFunction g) : Unmarked g.body.code := by
  obtain ⟨rows, hrows, hkinds⟩ := h.rows
  intro rows' hrows' offset hmem
  rw [hrows] at hrows'
  cases hrows'
  exact (hkinds _ hmem).1 rfl

theorem inRange (h : SmallFunction g) : g.CapturesInRange := by
  obtain ⟨rows, hrows, hkinds⟩ := h.rows
  intro rows' hrows' offset index hmem
  change decode g.body.code = .ok rows' at hrows'
  rw [hrows] at hrows'
  cases hrows'
  exact absurd rfl ((hkinds _ hmem).2 index)

theorem tables {P : Value → Prop} (h : SmallFunction g) : g.All P := by
  rcases h with rfl | rfl <;> exact ⟨by simp [answersFive, callsGlobal, simpleFunction],
    by simp [answersFive, callsGlobal, simpleFunction],
    by simp [answersFive, callsGlobal, simpleFunction],
    by simp [answersFive, callsGlobal, simpleFunction]⟩

end SmallFunction

/-- A wrapper, and two with different names. -/
def soleWrapper : Native Value :=
  ⟨⟨0⟩, "w", .host⟩

def twoWrappers : List (Native Value) :=
  [soleWrapper, ⟨⟨1⟩, "v", .host⟩]

theorem echoes_of_role {n : Native Value} (h : n.role = .host) : echoHost.Echoes n :=
  ⟨h, fun _ => rfl⟩

/-- The program of both functions. -/
def smallProgram : Program echoHost ⟨0⟩ twoWrappers (fun _ => false) boundWorld where
  plain := SmallFunction
  decorated _ := False
  natives _ := False
  nonempty := by decide
  distinct := by decide
  echoes := by
    intro n hn
    refine echoes_of_role ?_
    rcases List.mem_cons.mp hn with rfl | hn
    · rfl
    · rw [List.mem_singleton.mp hn]
  unmarked _ := SmallFunction.unmarked
  inRange _ := SmallFunction.inRange
  tables _ := SmallFunction.tables
  known := by
    rintro g ((rfl | rfl) | h)
    · exact ⟨by decide, rfl⟩
    · exact ⟨by decide, rfl⟩
    · exact h.elim
  untouched _ _ := ⟨rfl, fun _ _ => rfl⟩
  earlier _ h := by cases h
  copies _ h := h.elim
  answers _ h := h.elim
  bound := by
    refine World.All.bind ?_ ⟨0⟩ "g" (Vocabulary.Holds.plain (Or.inl rfl))
    intro scope name v h
    cases h

/-- The world in which the small functions have been made. -/
def smallWorld : World Unit :=
  { World.new () with nextFunction := 3 }

/-- What the decoration of `answersFive` in this world makes. -/
def decoratedFive : Function Value :=
  answersFive.copyIn ⟨0⟩ soleWrapper answersFive.body smallWorld

/-- The world in which `g` was rebound to it. -/
def reboundWorld : World Unit :=
  (smallWorld.afterCopy ⟨0⟩ soleWrapper answersFive).bind ⟨0⟩ "g" (.function decoratedFive)

/-- The program after this. -/
def reboundProgram :
    Program echoHost ⟨0⟩ [soleWrapper] (fun id => id == decoratedFive.id) reboundWorld where
  plain := SmallFunction
  decorated x := x = decoratedFive
  natives _ := False
  nonempty := by decide
  distinct := by decide
  echoes n hn := by
    rw [List.mem_singleton.mp hn]
    exact echoes_of_role rfl
  unmarked _ := SmallFunction.unmarked
  inRange _ := SmallFunction.inRange
  tables _ := SmallFunction.tables
  known := by
    rintro g ((rfl | rfl) | rfl) <;> exact ⟨by decide, rfl⟩
  untouched := by
    rintro g (rfl | rfl)
    · refine ⟨rfl, fun n hn => ?_⟩
      rw [List.mem_singleton.mp hn]
      rfl
    · refine ⟨rfl, fun n hn => ?_⟩
      rw [List.mem_singleton.mp hn]
      rfl
  earlier id h := by
    rw [eq_of_beq h]
    decide
  copies := by
    rintro x rfl
    obtain ⟨slots, hcopied⟩ := Function.copied_copyIn (g := answersFive) rfl smallWorld
    exact ⟨rfl, soleWrapper, answersFive, slots, rfl, Or.inl rfl, hcopied, rfl⟩
  answers _ h := h.elim
  bound := by
    refine World.All.bind ?_ ⟨0⟩ "g" (Vocabulary.Holds.decorated rfl)
    intro scope name v h
    cases h

/-- Whether a run ends with five. -/
def endsWithFive (s : RunState Unit) : Bool :=
  match RunState.run echoHost 90 s with
  | some (.ok (.int n), _) => n == 5
  | _ => false

theorem exists_of_endsWithFive {s : RunState Unit} (h : endsWithFive s = true) :
    ∃ m, RunState.run echoHost 90 s = some (.ok (.int 5), m) := by
  unfold endsWithFive at h
  split at h
  · rename_i n m hrun
    rw [eq_of_beq h] at hrun
    exact ⟨m, hrun⟩
  · cases h

/-- A function is decorated and called. -/
def smallRun (wrappers : List (Native Value)) (w : World Unit) (f : Function Value) :
    RunState Unit :=
  .ofAction (.new ⟨20, 5, false⟩ w) (decorateAndCall ⟨0⟩ .none wrappers (.function f))

/-- Two wrappers are applied to the function and to the global that it calls;
one wrapper is applied to the function alone, if the global was rebound. -/
theorem wrapping_follows_calls_callsGlobal :
    (∃ m, RunState.run echoHost 90 (smallRun twoWrappers boundWorld callsGlobal)
          = some (.ok (.int 5), m)
        ∧ FollowsTree twoWrappers (fun _ => false) "f" (Watched.log echoHost (fun _ => false) 90
          ⟨smallRun twoWrappers boundWorld callsGlobal, []⟩))
      ∧ ∃ m, RunState.run echoHost 90 (smallRun [soleWrapper] reboundWorld callsGlobal)
          = some (.ok (.int 5), m)
        ∧ FollowsTree [soleWrapper] (fun id => id == decoratedFive.id) "f"
          (Watched.log echoHost (fun id => id == decoratedFive.id) 90
            ⟨smallRun [soleWrapper] reboundWorld callsGlobal, []⟩) := by
  have hargs : ∀ P : Value → Prop, CallArgs.none.All P :=
    fun P => ⟨by simp [CallArgs.none], by simp [CallArgs.none]⟩
  have htwo : endsWithFive (smallRun twoWrappers boundWorld callsGlobal) = true := by
    decide +kernel
  have hsole : endsWithFive (smallRun [soleWrapper] reboundWorld callsGlobal) = true := by
    decide +kernel
  obtain ⟨m, hrun⟩ := exists_of_endsWithFive htwo
  obtain ⟨m', hrun'⟩ := exists_of_endsWithFive hsole
  exact ⟨⟨m, hrun, (smallProgram.wrapping_follows_calls (Or.inr rfl) (hargs _) hrun).1⟩,
    ⟨m', hrun', (reboundProgram.wrapping_follows_calls (Or.inr rfl) (hargs _) hrun').1⟩⟩

/-! ## §5. Programs outside the theorem. -/

/-- The run answers five, and its log does not follow the calls. -/
def AppliesMore (w : World Unit) (f : Function Value) : Prop :=
  (∃ m, RunState.run echoHost 90 (smallRun [soleWrapper] w f) = some (.ok (.int 5), m))
    ∧ ¬ FollowsTree [soleWrapper] (fun _ => false) f.name
      (Watched.log echoHost (fun _ => false) 90 ⟨smallRun [soleWrapper] w f, []⟩)

/-- It is enough to count the applications and the calls. -/
theorem appliesMore_of_length {w : World Unit} {f : Function Value}
    (hends : endsWithFive (smallRun [soleWrapper] w f) = true)
    (hlength : ((Watched.log echoHost (fun _ => false) 90
        ⟨smallRun [soleWrapper] w f, []⟩).filterMap (Event.argumentsOf? soleWrapper)).length
      ≠ ((Watched.log echoHost (fun _ => false) 90
        ⟨smallRun [soleWrapper] w f, []⟩).filterMap (Event.called? fun _ => false)).length + 1) :
    AppliesMore w f :=
  ⟨exists_of_endsWithFive hends, fun h => hlength (h.length List.mem_cons_self)⟩

/-- Calls the wrapper, which is bound to a global. -/
def callsWrapper : Function Value :=
  simpleFunction 1 "f" #["w"] [.loadGlobal 0, .pushSmall 5, .call (CallShape.plain 1), .return]

/-- Calls what is at the start of a second capture that it does not have; in a
copy that is the adapter. -/
def callsAdapted : Function Value :=
  simpleFunction 1 "f" #[] [.loadCapture 1, .unpackSequence 3, .pop, .pop, .pushSmall 5,
    .call (CallShape.plain 1), .return]

/-- A method whose function calls the global `g`. -/
def callingMethod : BoundMethod Value :=
  let h := simpleFunction 3 "h" #["g"] [.loadGlobal 0, .call (CallShape.plain 0), .return]
  ⟨⟨0⟩, .nil,
    { h with body := { h.body with signature := ⟨["self"], [], none, none⟩, localCount := 1 } }⟩

/-- Calls the global `k`. -/
def callsMethod : Function Value :=
  simpleFunction 4 "f" #["k"] [.loadGlobal 0, .call (CallShape.plain 0), .return]

/-- A world in which `k` is that method, and `g` was rebound to a result of
decorating a function that calls `q`. -/
def methodWorld : World Unit :=
  let calls := simpleFunction 2 "g" #["q"] [.loadGlobal 0, .call (CallShape.plain 0), .return]
  let start := { World.new () with nextFunction := 5 }
  match RunState.run echoHost 30 (.ofAction (.new ⟨20, 5, false⟩ start)
      (decorate ⟨0⟩ (.function calls) (plainAdapter soleWrapper))) with
  | some (.ok result, m) =>
      ((m.world.bind ⟨0⟩ "q" (.function answersFive)).bind ⟨0⟩ "g" result).bind ⟨0⟩ "k"
        (.method callingMethod)
  | _ => start

/-- **A wrapper is applied to more than the called functions** if the program
calls it itself, through a global or through a capture that a function does not
have, or if a method calls a result of an earlier decoration. -/
theorem not_followsTree :
    AppliesMore (smallWorld.bind ⟨0⟩ "w" (.native soleWrapper)) callsWrapper
      ∧ AppliesMore smallWorld callsAdapted ∧ AppliesMore methodWorld callsMethod :=
  ⟨appliesMore_of_length (by decide +kernel) (by decide +kernel),
    appliesMore_of_length (by decide +kernel) (by decide +kernel),
    appliesMore_of_length (by decide +kernel) (by decide +kernel)⟩

end CallDecoration
