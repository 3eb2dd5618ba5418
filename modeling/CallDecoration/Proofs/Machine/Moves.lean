/-
  CallDecoration.Proofs.Machine.Moves
  ──────────────────────────────────────
  **Every step of a run is one of these.**  `Move` lists what a step can do to
  what is being done, to what waits and to the machine, with the bounds that
  it respects: which frame has executed what, how high the stack can get, and
  which errors can come from where.  `move_step` says that there is nothing
  else.  So an invariant of runs is a case analysis of moves, and does not open
  the step again.
-/
import CallDecoration.Proofs.Machine.Runs

namespace CallDecoration

variable {σ : Type}

/-! ## §1. Errors of constructors. -/

theorem TypeObject.isFault_construct {t : TypeObject} {args : CallArgs} {e : RunError}
    (h : t.construct args = .error e) : e.isFault = false := by
  have hofValue : ∀ v, t.ofValue v = .error e → e.isFault = false := by
    intro v hv
    unfold ofValue at hv
    split at hv
    case h_4 =>
      unfold intOfText at hv
      split at hv <;> cases hv
      rfl
    all_goals cases hv <;> rfl
  unfold construct at h
  split at h
  · cases h
    rfl
  · split at h
    · cases h
    · rename_i v hargs
      exact hofValue v (map_eq_error_iff.mp h)
    · cases h
      rfl

/-! ## §2. Moves. -/

/-- **A frame after it has executed an instruction:** it goes on behind the
instruction, or at the target of its jump. -/
structure Frame.Executed (f f' : Frame) (i : Instruction) (next : Nat) : Prop where
  fetched : Machine.fetch f = .ok (i, next)
  function : f'.function = f.function
  base : f'.base = f.base
  ip : f'.ip = next ∨ i.target? = some f'.ip

/-- A frame that has moved past the instruction that it executes. -/
theorem Frame.Executed.past {f : Frame} {i : Instruction} {next : Nat}
    (h : Machine.fetch f = .ok (i, next)) : f.Executed { f with ip := next } i next :=
  ⟨h, rfl, rfl, Or.inl rfl⟩

namespace RunState

/-- **What the call of a value begins with,** made from outside the bytecode
or of a value that bytecode does not run. -/
inductive Opens (host : Host σ) (pending : List (Pending σ)) (vs : List Value)
    (fs : List Frame) (st : Settings) (w : World σ) : Value → CallArgs → RunState σ → Prop where
  /-- A function is entered, in an activation of its own. -/
  | activates {callee : Value} {args given : CallArgs} {g : Function Value} {locals : Array Value}
      (hcallee : callee.entered? args = some (g, given))
      (hslots : Machine.admission g given fs.length st = .ok locals) :
      Opens host pending vs fs st w callee args
        ⟨.bytecode, .activation fs.length vs.length :: pending,
          .of vs (⟨g, 0, vs.length, locals⟩ :: fs) st w⟩
  /-- A host function acts. -/
  | acts {n : Native Value} {args : CallArgs} :
      Opens host pending vs fs st w (.native n) args
        ⟨.action (n.respond host args), pending, .of vs fs st w⟩
  /-- The call is answered at once. -/
  | answers {callee : Value} {args : CallArgs} {r : Except RunError Value}
      (hr : ∀ e, r = .error e → e.isFault = false) :
      Opens host pending vs fs st w callee args ⟨.answer r, pending, .of vs fs st w⟩

/-- **What becomes of a result** that the running frame waits for. -/
inductive Resumes (pending : List (Pending σ)) (vs : List Value) (fs : List Frame)
    (st : Settings) (w : World σ) (v : Value) : RunState σ → Prop where
  | room (h : vs.length < st.maxValueStack) :
      Resumes pending vs fs st w v ⟨.bytecode, pending, .of (v :: vs) fs st w⟩
  | full (h : ¬ vs.length < st.maxValueStack) :
      Resumes pending vs fs st w v
        ⟨.answer (.error .valueStackOverflow), pending, .of vs fs st w⟩

/-- **The steps of a run.** -/
inductive Move (host : Host σ) : RunState σ → RunState σ → Prop where
  /-- There is no frame to run. -/
  | stops {pending : List (Pending σ)} {vs : List Value} {st : Settings} {w : World σ} :
      Move host ⟨.bytecode, pending, .of vs [] st w⟩
        ⟨.answer (.error .noActiveFrame), pending, .of vs [] st w⟩
  /-- There is no instruction to execute. -/
  | unfetched {pending : List (Pending σ)} {vs : List Value} {f : Frame} {fs : List Frame}
      {st : Settings} {w : World σ} {e : RunError} (hfetch : Machine.fetch f = .error e) :
      Move host ⟨.bytecode, pending, .of vs (f :: fs) st w⟩
        ⟨.answer (.error e), pending, .of vs (f :: fs) st w⟩
  /-- An instruction fails. -/
  | fails {pending : List (Pending σ)} {vs vs' : List Value} {f f' : Frame} {fs : List Frame}
      {st : Settings} {w : World σ} {i : Instruction} {next : Nat} {e : RunError}
      (hf : f.Executed f' i next) (he : e = .stackUnderflow ∨ e.isFault = false)
      (hheight : vs'.length ≤ max vs.length st.maxValueStack) :
      Move host ⟨.bytecode, pending, .of vs (f :: fs) st w⟩
        ⟨.answer (.error e), pending, .of vs' (f' :: fs) st w⟩
  /-- An instruction has its effect on the running frame. -/
  | advances {pending : List (Pending σ)} {vs vs' : List Value} {f f' : Frame} {fs : List Frame}
      {st : Settings} {w w' : World σ} {i : Instruction} {next : Nat} (hf : f.Executed f' i next)
      (hheight : vs'.length ≤ max vs.length st.maxValueStack) :
      Move host ⟨.bytecode, pending, .of vs (f :: fs) st w⟩
        ⟨.bytecode, pending, .of vs' (f' :: fs) st w'⟩
  /-- A call enters a function. -/
  | enters {pending : List (Pending σ)} {vs vs' : List Value} {f f' : Frame} {fs : List Frame}
      {st : Settings} {w : World σ} {i : Instruction} {next : Nat} {g : Function Value}
      {given : CallArgs} {locals : Array Value} (hf : f.Executed f' i next)
      (hslots : Machine.admission g given (fs.length + 1) st = .ok locals)
      (hheight : vs'.length ≤ vs.length) :
      Move host ⟨.bytecode, pending, .of vs (f :: fs) st w⟩
        ⟨.bytecode, pending, .of vs' (⟨g, 0, vs'.length, locals⟩ :: f' :: fs) st w⟩
  /-- A call of a value that bytecode does not run. -/
  | calls {pending : List (Pending σ)} {vs vs' : List Value} {f f' : Frame} {fs : List Frame}
      {st : Settings} {w : World σ} {i : Instruction} {next : Nat} {callee : Value}
      {args : CallArgs} {t : RunState σ} (hf : f.Executed f' i next)
      (hcallee : callee.entered? args = none) (hheight : vs'.length ≤ vs.length)
      (hcall : Opens host (.operand :: pending) vs' (f' :: fs) st w callee args t) :
      Move host ⟨.bytecode, pending, .of vs (f :: fs) st w⟩ t
  /-- The frame with which an activation began ends, and the activation with it. -/
  | leaves {pending : List (Pending σ)} {vs vs' : List Value} {f : Frame} {fs : List Frame}
      {st : Settings} {w : World σ} {v : Value} {base : Nat} (hheight : vs'.length < vs.length)
      (hbase : vs'.length ≤ f.base) :
      Move host ⟨.bytecode, .activation fs.length base :: pending, .of vs (f :: fs) st w⟩
        ⟨.answer (.ok v), pending, .of vs' fs st w⟩
  /-- A frame ends, and the one below it goes on. -/
  | returns {pending : List (Pending σ)} {vs vs' : List Value} {f : Frame} {fs : List Frame}
      {st : Settings} {w : World σ} {v : Value} {t : RunState σ}
      (hpending : ∀ base rest, pending ≠ .activation fs.length base :: rest)
      (hheight : vs'.length < vs.length) (hresume : Resumes pending vs' fs st w v t) :
      Move host ⟨.bytecode, pending, .of vs (f :: fs) st w⟩ t
  /-- A host function answers. -/
  | done {pending : List (Pending σ)} {r : Except RunError Value} {m : Machine σ} :
      Move host ⟨.action (.done r), pending, m⟩ ⟨.answer r, pending, m⟩
  /-- A host function calls a value. -/
  | requests {pending : List (Pending σ)} {vs : List Value} {fs : List Frame} {st : Settings}
      {w : World σ} {callee : Value} {args : CallArgs} {t : RunState σ}
      {next : Except RunError Value → Action σ Value}
      (hcall : Opens host (.host next :: pending) vs fs st w callee args t) :
      Move host ⟨.action (.call callee args next), pending, .of vs fs st w⟩ t
  /-- A host function looks at the machine. -/
  | inspects {pending : List (Pending σ)} {next : Gauge → Action σ Value} {m : Machine σ} :
      Move host ⟨.action (.inspect next), pending, m⟩ ⟨.action (next (gauge m)), pending, m⟩
  /-- A host function reads the world. -/
  | reads {pending : List (Pending σ)} {next : World σ → Action σ Value} {m : Machine σ} :
      Move host ⟨.action (.read next), pending, m⟩ ⟨.action (next m.world), pending, m⟩
  /-- A host function replaces the world. -/
  | writes {pending : List (Pending σ)} {w : World σ} {next : Action σ Value} {m : Machine σ} :
      Move host ⟨.action (.write w next), pending, m⟩
        ⟨.action next, pending, { m with world := w }⟩
  /-- The run has ended. -/
  | stays {r : Except RunError Value} {m : Machine σ} :
      Move host ⟨.answer r, [], m⟩ ⟨.answer r, [], m⟩
  /-- The running frame gets the result of its call. -/
  | resumes {pending : List (Pending σ)} {vs : List Value} {fs : List Frame} {st : Settings}
      {w : World σ} {v : Value} {t : RunState σ} (hresume : Resumes pending vs fs st w v t) :
      Move host ⟨.answer (.ok v), .operand :: pending, .of vs fs st w⟩ t
  /-- The call of the running frame fails, and the frame with it. -/
  | passes {pending : List (Pending σ)} {e : RunError} {m : Machine σ} :
      Move host ⟨.answer (.error e), .operand :: pending, m⟩ ⟨.answer (.error e), pending, m⟩
  /-- A result goes through an activation. -/
  | hands {pending : List (Pending σ)} {v : Value} {floor base : Nat} {m : Machine σ} :
      Move host ⟨.answer (.ok v), .activation floor base :: pending, m⟩
        ⟨.answer (.ok v), pending, m⟩
  /-- An error ends an activation. -/
  | unwinds {pending : List (Pending σ)} {e : RunError} {floor base : Nat} {m : Machine σ} :
      Move host ⟨.answer (.error e), .activation floor base :: pending, m⟩
        ⟨.answer (.error e), pending, m.unwind floor base⟩
  /-- A host function goes on with the answer of its call. -/
  | continues {pending : List (Pending σ)} {r : Except RunError Value}
      {next : Except RunError Value → Action σ Value} {m : Machine σ} :
      Move host ⟨.answer r, .host next :: pending, m⟩ ⟨.action (next r), pending, m⟩

/-! ## §3. There are no other steps. -/

section Steps

variable {host : Host σ} {focus : Focus σ} {pending : List (Pending σ)} {vs : List Value}
  {f : Frame} {fs : List Frame} {st : Settings} {w : World σ}

theorem opens_activate {callee : Value} {args given : CallArgs} {g : Function Value}
    (hcallee : callee.entered? args = some (g, given)) :
    Opens host pending vs fs st w callee args
      (activate g given ⟨focus, pending, .of vs fs st w⟩) := by
  cases hslots : Machine.admission g given fs.length st with
  | error e =>
      rw [activate_refused hslots]
      refine Opens.answers fun e' he => ?_
      cases he
      exact Machine.isFault_admission hslots
  | ok locals =>
      rw [activate_of hslots]
      exact Opens.activates hcallee hslots

theorem opens_enter (callee : Value) (args : CallArgs) :
    Opens host pending vs fs st w callee args
      (enter host callee args ⟨focus, pending, .of vs fs st w⟩) := by
  cases callee with
  | function g => exact opens_activate rfl
  | method m => exact opens_activate rfl
  | native n => exact Opens.acts
  | type t => exact Opens.answers fun e he => TypeObject.isFault_construct he
  | _ =>
      refine Opens.answers fun e he => ?_
      cases he
      rfl

theorem resumes_resume (v : Value) :
    Resumes pending vs fs st w v (resume v ⟨focus, pending, .of vs fs st w⟩) := by
  by_cases hroom : vs.length < st.maxValueStack
  · rw [resume_of hroom]
    exact Resumes.room hroom
  · rw [resume_full hroom]
    exact Resumes.full hroom

/-- The end of the running frame. -/
theorem move_return {v : Value} {rest : List Value} {next : Nat}
    (hfetch : Machine.fetch f = .ok (.return, next)) :
    Move host ⟨.bytecode, pending, .of (v :: rest) (f :: fs) st w⟩
      (step host ⟨.bytecode, pending, .of (v :: rest) (f :: fs) st w⟩) := by
  have hlower : (rest.drop (rest.length - f.base)).length < (v :: rest).length := by
    rw [List.length_drop, List.length_cons]
    omega
  have hbelow : (rest.drop (rest.length - f.base)).length ≤ f.base := by
    rw [List.length_drop]
    omega
  rw [step_returned ((Machine.stepFrame_of hfetch).trans Machine.execute_return)]
  by_cases hlast : ∃ base below, pending = .activation fs.length base :: below
  · obtain ⟨base, below, rfl⟩ := hlast
    rw [afterReturn_last]
    exact Move.leaves hlower hbelow
  · have hinner : ∀ base below, pending ≠ .activation fs.length base :: below :=
      fun base below hpending => hlast ⟨base, below, hpending⟩
    rw [afterReturn_resume hinner]
    exact Move.returns hinner hlower (resumes_resume v)

/-- An instruction that neither calls nor returns. -/
theorem move_plain {i : Instruction} {next : Nat} {ops rest : List Value}
    (hfetch : Machine.fetch f = .ok (i, next)) (hi : i.isPlain = true)
    (hops : ops.length = i.operands) :
    Move host ⟨.bytecode, pending, .of (ops ++ rest) (f :: fs) st w⟩
      (step host ⟨.bytecode, pending, .of (ops ++ rest) (f :: fs) st w⟩) := by
  have hpast := Frame.Executed.past hfetch
  have hstep : Machine.stepFrame (.of (ops ++ rest) (f :: fs) st w)
      = Machine.execute i (.of (ops ++ rest) ({ f with ip := next } :: fs) st w) :=
    Machine.stepFrame_of hfetch
  cases hr : i.results { f with ip := next } w ops with
  | error e =>
      rw [step_failed (hstep.trans (Machine.execute_error hi hops hr))]
      refine Move.fails hpast (Or.inr (Instruction.isFault_results hops hr)) ?_
      rw [List.length_append]
      omega
  | ok out =>
      by_cases hroom : i.Fits st rest out
      · rw [step_advance (hstep.trans (Machine.execute_ok hi hops hr hroom))]
        exact Move.advances ⟨hfetch, by simp, by simp, i.frameAfter_ip _ ops⟩
          (Instruction.height_le_of_fits hops hr hroom)
      · obtain ⟨junk, hheight, hjunk⟩ := Machine.execute_full fs hi hops hr hroom
        rw [step_failed (hstep.trans (hjunk rest rfl))]
        refine Move.fails hpast (Or.inr rfl) ?_
        rw [List.length_append, List.length_append]
        exact hheight

/-- A call with its operands. -/
theorem move_call {shape : CallShape} {next : Nat} {callee : Value} {ops rest : List Value}
    (hfetch : Machine.fetch f = .ok (.call shape, next)) (hops : ops.length = shape.slots) :
    Move host ⟨.bytecode, pending, .of (ops ++ callee :: rest) (f :: fs) st w⟩
      (step host ⟨.bytecode, pending, .of (ops ++ callee :: rest) (f :: fs) st w⟩) := by
  have hpast := Frame.Executed.past hfetch
  have hstep : Machine.stepFrame (.of (ops ++ callee :: rest) (f :: fs) st w)
      = Machine.execute (.call shape)
        (.of (ops ++ callee :: rest) ({ f with ip := next } :: fs) st w) :=
    Machine.stepFrame_of hfetch
  have hlower : rest.length ≤ (ops ++ callee :: rest).length := by
    rw [List.length_append, List.length_cons]
    omega
  cases hargs : collectArgs callee shape ops.reverse with
  | error e =>
      have hops' : ops.reverse.length = shape.slots := by rw [List.length_reverse, hops]
      rw [step_failed (hstep.trans (Machine.execute_call_refused hops hargs))]
      exact Move.fails hpast (Or.inr (isFault_collectArgs hops' hargs)) (by omega)
  | ok args =>
      cases hcallee : callee.entered? args with
      | none =>
          rw [step_external (hstep.trans (Machine.execute_call_external hops hargs hcallee))]
          exact Move.calls hpast hcallee hlower (opens_enter callee args)
      | some entered =>
          obtain ⟨g, given⟩ := entered
          have hentered : Machine.stepFrame (.of (ops ++ callee :: rest) (f :: fs) st w)
              = Machine.andAdvance (Machine.enterFrame g given)
                (.of rest ({ f with ip := next } :: fs) st w) :=
            hstep.trans (Machine.execute_call_entered hops hargs hcallee)
          cases hslots : Machine.admission g given (fs.length + 1) st with
          | error e =>
              rw [step_failed (hentered.trans
                (Machine.andAdvance_error (Machine.enterFrame_refused hslots)))]
              exact Move.fails hpast (Or.inr (Machine.isFault_admission hslots)) (by omega)
          | ok locals =>
              rw [step_advance (hentered.trans
                (Machine.andAdvance_ok (Machine.enterFrame_of hslots)))]
              exact Move.enters hpast hslots hlower

/-- One instruction. -/
theorem move_bytecode :
    Move host ⟨.bytecode, pending, .of vs fs st w⟩
      (step host ⟨.bytecode, pending, .of vs fs st w⟩) := by
  cases fs with
  | nil =>
      rw [step_failed (m := .of vs [] st w) (e := .noActiveFrame) rfl]
      exact Move.stops
  | cons f fs =>
      cases hfetch : Machine.fetch f with
      | error e =>
          rw [step_failed (Machine.stepFrame_unfetched hfetch)]
          exact Move.unfetched hfetch
      | ok fetched =>
          obtain ⟨i, next⟩ := fetched
          by_cases hlow : vs.length < i.operands
          · rw [step_failed (Machine.stepFrame_short hfetch hlow)]
            refine Move.fails (Frame.Executed.past hfetch) (Or.inl rfl) ?_
            split
            · exact Nat.zero_le _
            · exact Nat.le_max_left _ _
          · rcases i.isPlain_or with hi | rfl | ⟨shape, rfl⟩
            · obtain ⟨ops, rest, rfl, hops⟩ := Machine.exists_taken hlow
              exact move_plain hfetch hi hops
            · cases vs with
              | nil => exact absurd Nat.one_pos hlow
              | cons v rest => exact move_return hfetch
            · obtain ⟨ops, callee, rest, rfl, hops⟩ := Machine.exists_operands hlow
              exact move_call hfetch hops

/-- **Every step is a move.** -/
theorem move_step (host : Host σ) (s : RunState σ) : Move host s (step host s) := by
  obtain ⟨focus, pending, m⟩ := s
  obtain ⟨vs, fs, st, w, rfl⟩ := Machine.exists_of m
  -- an answer goes to what waits first
  cases focus with
  | bytecode => exact move_bytecode
  | action a =>
      cases a with
      | done r => exact Move.done
      | call callee args next => exact Move.requests (opens_enter callee args)
      | inspect next => exact Move.inspects
      | read next => exact Move.reads
      | write w' next => exact Move.writes
  | answer r =>
      cases pending with
      | nil =>
          rw [step_ended]
          exact Move.stays
      | cons first rest =>
          cases first with
          | operand =>
              cases r with
              | ok v => exact Move.resumes (resumes_resume v)
              | error e => exact Move.passes
          | activation floor base =>
              cases r with
              | ok v => exact Move.hands
              | error e => exact Move.unwinds
          | host next =>
              cases r <;> exact Move.continues

end Steps

end RunState

end CallDecoration
