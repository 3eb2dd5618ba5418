/-
  CallDecoration.Proofs.Machine.TwoWays
  ──────────────────────────────────────
  **The two ways of calling bytecode agree.**  A call instruction enters the
  frame of its callee in the loop that is running: an error ends the whole
  loop, and a result is pushed for the frame below.  A call from outside begins
  an activation of its own, with its own floor: an error cuts back to that
  floor only, and a result is handed to whoever called.  Up to the moment at
  which the callee's frame is gone the two take the same steps on the same
  machine (`WaysAgree.lockstep`), so they come to the same result, or fail with
  the same error.

  Both are compared with one run in which nothing waits for the frame at all
  (`tandem`): an activation is looked at only when the frames come back to
  its floor.
-/
import CallDecoration.Proofs.Machine.Limits

namespace CallDecoration

variable {σ : Type}

namespace RunState

/-! ## §1. Calling in the loop. -/

/-- A state in which bytecode runs: in the loop of an activation, above its
floor, and with no more values than the limit allows. -/
structure InLoop (s : RunState σ) : Prop where
  running : s.focus = .bytecode
  above : ∃ floor base rest, s.pending = .activation floor base :: rest
    ∧ floor < s.machine.frames.height
  room : s.machine.stack.height ≤ s.machine.settings.maxValueStack

/-- **What a call instruction does** with the value that it calls, once it has
taken the operands: a function or a bound method gets a frame in the running
loop. -/
def callInLoop (host : Host σ) (callee : Value) (args : CallArgs) (s : RunState σ) : RunState σ :=
  match callee.entered? args with
  | some (g, given) =>
      match Machine.enterFrame g given s.machine with
      | (.ok (), m) => ⟨.bytecode, s.pending, m⟩
      | (.error e, m) => ⟨.answer (.error e), s.pending, m⟩
  | none => enter host callee args ⟨s.focus, .operand :: s.pending, s.machine⟩

/-- A run gets from one state to another while there are more than `depth`
frames; in the last state there may be fewer. -/
inductive ReachesAbove (host : Host σ) (depth : Nat) : RunState σ → RunState σ → Prop where
  | here (s : RunState σ) : ReachesAbove host depth s s
  | step {s t : RunState σ} (hs : depth < s.machine.frames.height)
      (h : ReachesAbove host depth (s.step host) t) : ReachesAbove host depth s t

/-- **Called in the loop, the value returns `v`:** its frame is gone, `v` has
been pushed, and the loop goes on with the machine `n`. -/
def ReturnsInLoop (host : Host σ) (s : RunState σ) (callee : Value) (args : CallArgs) (v : Value)
    (n : Machine σ) : Prop :=
  ReachesAbove host s.machine.frames.height (callInLoop host callee args s)
      ⟨.bytecode, s.pending, n⟩
    ∧ n.frames.height = s.machine.frames.height ∧ n.stack.top? = some v

/-- **Called in the loop, the value fails with `e`,** and the loop with it. -/
def FailsInLoop (host : Host σ) (s : RunState σ) (callee : Value) (args : CallArgs)
    (e : RunError) : Prop :=
  ∃ n, ReachesAbove host s.machine.frames.height (callInLoop host callee args s)
    ⟨.answer (.error e), s.pending, n⟩

/-- **The two ways of calling a value agree,** in the state `s`. -/
structure WaysAgree (host : Host σ) (s : RunState σ) (callee : Value) (args : CallArgs) :
    Prop where
  /-- The call in the loop returns `v` exactly if the call from outside does, whatever
  waits for it, and pushing `v` then makes the machines the same. -/
  returns : ∀ below v n, ReturnsInLoop host s callee args v n ↔
    ∃ n', Returns host (enter host callee args ⟨s.focus, below, s.machine⟩) below (.ok v) n'
      ∧ Machine.push v n' = (.ok (), n)
  /-- And the two fail with the same errors. -/
  fails : ∀ below e, FailsInLoop host s callee args e ↔
    ∃ n', Returns host (enter host callee args ⟨s.focus, below, s.machine⟩) below (.error e) n'
  /-- As long as the frame of the callee is there, the two are at the same
  machine after as many steps; so the frames nest alike, up to the depth limit. -/
  lockstep : ∀ below k,
    (∀ j, j ≤ k → s.machine.frames.height
      < ((step host)^[j] (callInLoop host callee args s)).machine.frames.height) →
    ((step host)^[k] (callInLoop host callee args s)).focus
        = ((step host)^[k] (enter host callee args ⟨s.focus, below, s.machine⟩)).focus
      ∧ ((step host)^[k] (callInLoop host callee args s)).machine
        = ((step host)^[k] (enter host callee args ⟨s.focus, below, s.machine⟩)).machine
  /-- Both are refused for their depth exactly at the limit. -/
  limit : ∀ below,
    ((callInLoop host callee args s).focus
        = .answer (.error (.callDepthExceeded s.machine.settings.maxCallDepth))
      ↔ s.machine.settings.maxCallDepth ≤ s.machine.frames.height)
    ∧ ((enter host callee args ⟨s.focus, below, s.machine⟩).focus
        = .answer (.error (.callDepthExceeded s.machine.settings.maxCallDepth))
      ↔ s.machine.settings.maxCallDepth ≤ s.machine.frames.height)
  /-- A bound method is its function, with the receiver put first, in both ways. -/
  method : ∀ b, callee = .method b → ∀ t,
    callInLoop host callee args t
        = callInLoop host (.function b.function) (args.withReceiver b.receiver) t
      ∧ enter host callee args t
        = enter host (.function b.function) (args.withReceiver b.receiver) t

variable {host : Host σ} {floor : List Frame} {st : Settings} {base : Nat}
  {below : List (Pending σ)} {t : RunState σ}

/-- While bytecode runs, on a machine that began without frames, it is in the loop
of an activation. -/
theorem inLoop_of_reachable {s : RunState σ} (h : Reachable host st s)
    (hrunning : s.focus = .bytecode) : s.InLoop := by
  have hwithin := within_of_reachable h
  refine ⟨hrunning, ?_, (inLimits_of_reachable h).2.values⟩
  obtain ⟨focus, pending, m⟩ := s
  cases hrunning
  have hcode := hwithin.code
  obtain ⟨limit, base, rest, rfl, _⟩ := hcode.unwind
  have hlt := hcode.limit_lt
  rw [← Stack.height_eq_length] at hlt
  exact ⟨limit, base, rest, rfl, hlt⟩

/-- **A call instruction with its operands calls in the loop.** -/
theorem step_eq_callInLoop {shape : CallShape} {next : Nat} {callee : Value} {args : CallArgs}
    {ops vs : List Value} {f : Frame} {fs : List Frame} {w : World σ}
    (hfetch : Machine.fetch f = .ok (.call shape, next)) (hops : ops.length = shape.slots)
    (hargs : collectArgs callee shape ops.reverse = .ok args) :
    step host ⟨.bytecode, below, .of (ops ++ callee :: vs) (f :: fs) st w⟩
      = callInLoop host callee args
        ⟨.bytecode, below, .of vs ({ f with ip := next } :: fs) st w⟩ := by
  have hstep : Machine.stepFrame (.of (ops ++ callee :: vs) (f :: fs) st w)
      = Machine.execute (.call shape)
        (.of (ops ++ callee :: vs) ({ f with ip := next } :: fs) st w) :=
    Machine.stepFrame_of hfetch
  unfold callInLoop
  cases hcallee : callee.entered? args with
  | none => exact step_external (hstep.trans (Machine.execute_call_external hops hargs hcallee))
  | some entered =>
      obtain ⟨g, given⟩ := entered
      have hexecute := hstep.trans (Machine.execute_call_entered hops hargs hcallee)
      dsimp only
      rcases henter : Machine.enterFrame g given
          (.of vs ({ f with ip := next } :: fs) st w) with ⟨e | _, m⟩
      · exact step_failed (hexecute.trans (Machine.andAdvance_error henter))
      · exact step_advance (hexecute.trans (Machine.andAdvance_ok henter))

/-! ## §2. The frame alone. -/

/-- Pushing leaves the frames alone. -/
theorem resume_frames (v : Value) (s : RunState σ) :
    (resume v s).machine.frames = s.machine.frames := by
  obtain ⟨focus, pending, m⟩ := s
  obtain ⟨vs, fs, st, w, rfl⟩ := Machine.exists_of m
  by_cases hroom : vs.length < st.maxValueStack
  · rw [resume_of hroom]
    rfl
  · rw [resume_full hroom]

/-- **A step does not look below what waits,** unless it ends a frame for which
nothing waits. -/
theorem step_deepened_or_returned (host : Host σ) (hres : t.result? = none) :
    (∀ below, step host (t.deepened below) = (step host t).deepened below)
      ∨ ∃ m v n, t = ⟨.bytecode, [], m⟩ ∧ Machine.stepFrame m = (.ok (.returned v), n) := by
  obtain ⟨focus, pending, m⟩ := t
  cases pending with
  | cons first rest => exact Or.inl fun below => step_deepened (Or.inr (List.cons_ne_nil _ _))
  | nil =>
      cases focus with
      | action a => exact Or.inl fun below => step_deepened (Or.inl ⟨a, rfl⟩)
      | answer r => cases hres
      | bytecode =>
          rcases hstep : Machine.stepFrame m with ⟨e | signal, n⟩
          · refine Or.inl fun below => (step_failed hstep).trans ?_
            rw [step_failed hstep]
            rfl
          · cases signal with
            | advance =>
                refine Or.inl fun below => (step_advance hstep).trans ?_
                rw [step_advance hstep]
                rfl
            | returned v => exact Or.inr ⟨m, v, n, rfl, hstep⟩
            | external callee args =>
                refine Or.inl fun below => (step_external hstep).trans ?_
                rw [step_external hstep]
                exact enter_deepened callee args ⟨.bytecode, [.operand], n⟩

/-- The end of a frame for which nothing waits: its result is pushed. -/
theorem step_returned_alone {m n : Machine σ} {v : Value}
    (h : Machine.stepFrame m = (.ok (.returned v), n)) :
    step host ⟨.bytecode, [], m⟩ = resume v ⟨.bytecode, [], n⟩ :=
  step_returned h

/-! ## §3. The frame in the two loops. -/

/-- The result of a frame within the limits can be pushed. -/
theorem exists_push_of_returned {m n : Machine σ} {v : Value} (hm : InLimits m)
    (h : Machine.stepFrame m = (.ok (.returned v), n)) :
    ∃ n', Machine.push v n = (.ok (), n') := by
  -- let the frame end an activation, to see how high the stack is then
  have hlast : step (fun _ _ => .done (.ok .nil)) ⟨.bytecode, [.activation n.frames.height 0], m⟩
      = (⟨.answer (.ok v), [], n⟩ : RunState σ) := (step_returned h).trans (if_pos rfl)
  have hmove := move_step (fun _ _ => .done (.ok .nil))
    (⟨.bytecode, [.activation n.frames.height 0], m⟩ : RunState σ)
  rw [hlast] at hmove
  generalize n.frames.height = depth at hmove
  cases hmove with
  | leaves hheight hbase =>
      have hvalues := (inLimits_of.mp hm).2
      exact ⟨_, Machine.push_of (by omega)⟩
  | calls hf hcallee hheight hcall => cases hcall
  | returns hpending hheight hresume => cases hresume

theorem push_ok {m n : Machine σ} {v : Value} (h : Machine.push v m = (.ok (), n)) :
    n.frames = m.frames ∧ n.stack.top? = some v := by
  obtain ⟨vs, fs, st, w, rfl⟩ := Machine.exists_of m
  by_cases hroom : vs.length < st.maxValueStack
  · rw [Machine.push_of hroom] at h
    cases h
    exact ⟨rfl, rfl⟩
  · rw [Machine.push_full hroom] at h
    cases h

theorem resume_of_push {m n : Machine σ} {v : Value} (h : Machine.push v m = (.ok (), n)) :
    resume v ⟨.bytecode, below, m⟩ = ⟨.bytecode, below, n⟩ := by
  unfold resume
  rw [h]

section Tandem

variable {limit b : Nat} {rest : List (Pending σ)} {n : Machine σ} {r : Except RunError Value}

/-- **What the frame of a call does next,** in an activation of its own and in a
loop with a lower floor. -/
inductive Tandem (host : Host σ) (depth base : Nat) (loop : List (Pending σ)) (t : RunState σ) :
    Prop where
  /-- It has failed. -/
  | fails (e : RunError) (m : Machine σ) (h : t = ⟨.answer (.error e), [], m⟩)
  /-- It returns: the activation ends with the result, and the loop pushes it. -/
  | returns (v : Value) (n n' : Machine σ) (hpush : Machine.push v n = (.ok (), n'))
      (hback : n'.frames.height = depth)
      (hcall : ∀ below, step host (t.deepened (.activation depth base :: below))
        = ⟨.answer (.ok v), below, n⟩)
      (hloop : step host (t.deepened loop) = ⟨.bytecode, loop, n'⟩)
  /-- It goes on, and so do the two. -/
  | goes (hcall : ∀ below, step host (t.deepened (.activation depth base :: below))
        = (step host t).deepened (.activation depth base :: below))
      (hloop : step host (t.deepened loop) = (step host t).deepened loop)

/-- **The two take their steps in tandem.** -/
theorem tandem (host : Host σ) (rest : List (Pending σ)) (b : Nat) (hlimit : limit < floor.length)
    (hw : Within floor st (t.deepened [.activation floor.length base]))
    (hlimits : InLimits t.machine) :
    Tandem host floor.length base (.activation limit b :: rest) t := by
  cases hres : t.result? with
  | some r =>
      obtain ⟨focus, pending, m⟩ := t
      obtain ⟨hfocus, hpending⟩ := result?_eq_some.mp hres
      dsimp only at hfocus hpending
      subst hfocus
      subst hpending
      obtain ⟨⟨e, rfl⟩, _⟩ := hw.failing
      exact .fails e m rfl
  | none =>
      rcases step_deepened_or_returned host hres with hover | ⟨m, v, n, rfl, hstep⟩
      · exact .goes (fun below => hover _) (hover _)
      · by_cases hback : n.frames.height = floor.length
        · obtain ⟨n', hpush⟩ := exists_push_of_returned hlimits hstep
          have hne : n.frames.height ≠ limit := by omega
          refine .returns v n n' hpush ?_ (fun below => ?_) ?_
          · rw [(push_ok hpush).1]
            exact hback
          · exact (step_returned hstep).trans (if_pos hback)
          · rw [← resume_of_push hpush]
            exact (step_returned hstep).trans (if_neg hne)
        · -- it was a frame above that of the call
          have hcall : step host (deepened [.activation floor.length base] ⟨.bytecode, [], m⟩)
              = (resume v ⟨.bytecode, [], n⟩).deepened [.activation floor.length base] := by
            rw [← resume_deepened]
            exact (step_returned hstep).trans (if_neg hback)
          have habove : Within floor st
              (step host (deepened [.activation floor.length base] ⟨.bytecode, [], m⟩)) := hw.step
          rw [hcall] at habove
          have hlt := habove.lt_of_activation (List.mem_append_right _ List.mem_cons_self)
          change floor.length < (resume v ⟨.bytecode, [], n⟩).machine.frames.height at hlt
          rw [resume_frames] at hlt
          change floor.length < n.frames.height at hlt
          refine .goes (fun below => ?_) ?_
          · rw [step_returned_alone hstep, ← resume_deepened]
            exact (step_returned hstep).trans (if_neg hback)
          · rw [step_returned_alone hstep, ← resume_deepened]
            have hne : n.frames.height ≠ limit := by omega
            exact (step_returned hstep).trans (if_neg hne)

/-- Going on, the frame stays within the call. -/
theorem within_of_goes (hw : Within floor st (t.deepened [.activation floor.length base]))
    (hcall : ∀ below, step host (t.deepened (.activation floor.length base :: below))
      = (step host t).deepened (.activation floor.length base :: below)) :
    Within floor st ((step host t).deepened [.activation floor.length base]) := by
  rw [← hcall]
  exact hw.step

theorem height_lt_of_within (hw : Within floor st (t.deepened [.activation floor.length base])) :
    floor.length < t.machine.frames.height :=
  hw.lt_of_activation (List.mem_append_right _ List.mem_cons_self)

/-- A loop with a lower floor that has failed takes the frame of the call away. -/
theorem not_above_of_unwind (m : Machine σ) (hlimit : limit < floor.length) :
    ¬ floor.length < (m.unwind limit b).frames.height := by
  change ¬ floor.length < m.frames.height - (m.frames.height - limit)
  omega

/-- **When the loop has returned from the frame, or failed in it, the call has
ended too.** -/
theorem call_ends_of_loop {focus : Focus σ} (hlimit : limit < floor.length)
    (hw : Within floor st (t.deepened [.activation floor.length base]))
    (hlimits : InLimits t.machine)
    (h : ReachesAbove host floor.length (t.deepened (.activation limit b :: rest))
      ⟨focus, .activation limit b :: rest, n⟩)
    (hend : (focus = .bytecode ∧ n.frames.height = floor.length)
      ∨ ∃ e, focus = .answer (.error e)) :
    (∃ v n', focus = .bytecode ∧ Machine.push v n' = (.ok (), n)
        ∧ Reaches host (t.deepened [.activation floor.length base]) ⟨.answer (.ok v), [], n'⟩)
      ∨ ∃ e n', focus = .answer (.error e)
        ∧ Reaches host (t.deepened [.activation floor.length base])
          ⟨.answer (.error e), [], n'⟩ := by
  generalize hs : t.deepened (.activation limit b :: rest) = s at h
  generalize hu : (⟨focus, .activation limit b :: rest, n⟩ : RunState σ) = u at h
  induction h generalizing t with
  | here s =>
      subst hs
      rcases hend with ⟨rfl, hn⟩ | ⟨e, rfl⟩
      · -- as long as the frame is there, the loop is above its depth
        have hlt := height_lt_of_within hw
        have hmachine : n = t.machine := congrArg RunState.machine hu
        rw [hmachine] at hn
        exact absurd hn (Nat.ne_of_gt hlt)
      · refine Or.inr ⟨e, n.unwind floor.length base, rfl, ?_⟩
        rw [deepened_eq_answer.mp hu.symm]
        exact Reaches.one rfl
  | @step s u habove h ih =>
      subst hs
      subst hu
      rcases tandem host rest b hlimit hw hlimits with
        ⟨e, m, rfl⟩ | ⟨v, n₁, n₂, hpush, hback, hcall, hloop⟩ | ⟨hcall, hloop⟩
      · -- the loop has failed, and its next step takes the frame away
        exfalso
        change ReachesAbove host floor.length ⟨.answer (.error e), rest, m.unwind limit b⟩ _ at h
        cases h with
        | step hnext h => exact not_above_of_unwind m hlimit hnext
      · rw [hloop] at h
        cases h with
        | here => exact Or.inl ⟨v, n₁, rfl, hpush, Reaches.one (hcall [])⟩
        | step hnext h => exact absurd hback (Nat.ne_of_gt hnext)
      · rcases ih (within_of_goes hw hcall) (InLimits.move (move_step host t) hlimits)
          hloop.symm rfl with ⟨v, n', hfocus, hpush, hreach⟩ | ⟨e, n', hfocus, hreach⟩
        · exact Or.inl ⟨v, n', hfocus, hpush, Reaches.head (hcall []) hreach⟩
        · exact Or.inr ⟨e, n', hfocus, Reaches.head (hcall []) hreach⟩

/-- **When the call has ended, the loop has returned from the frame, or failed
in it.** -/
theorem loop_ends_of_call (rest : List (Pending σ)) (b : Nat) (hlimit : limit < floor.length)
    (hw : Within floor st (t.deepened [.activation floor.length base]))
    (hlimits : InLimits t.machine)
    (h : Reaches host (t.deepened [.activation floor.length base]) ⟨.answer r, [], n⟩) :
    (∃ v n', r = .ok v ∧ Machine.push v n = (.ok (), n') ∧ n'.frames.height = floor.length
        ∧ ReachesAbove host floor.length (t.deepened (.activation limit b :: rest))
          ⟨.bytecode, .activation limit b :: rest, n'⟩)
      ∨ ∃ e n', r = .error e
        ∧ ReachesAbove host floor.length (t.deepened (.activation limit b :: rest))
          ⟨.answer (.error e), .activation limit b :: rest, n'⟩ := by
  obtain ⟨k, hk⟩ := h
  induction k generalizing t with
  | zero =>
      -- the activation still waits
      have hpending : t.pending ++ [.activation floor.length base] = [] :=
        congrArg RunState.pending hk
      simp at hpending
  | succ k ih =>
      have habove := height_lt_of_within hw
      rw [Function.iterate_succ_apply] at hk
      rcases tandem host rest b hlimit hw hlimits with
        ⟨e, m, rfl⟩ | ⟨v, n₁, n₂, hpush, hback, hcall, hloop⟩ | ⟨hcall, hloop⟩
      · have hended :
            step host (deepened [.activation floor.length base] ⟨.answer (.error e), [], m⟩)
            = ⟨.answer (.error e), [], m.unwind floor.length base⟩ := rfl
        rw [hended, iterate_ended] at hk
        cases hk
        exact Or.inr ⟨e, m, rfl, .here _⟩
      · rw [hcall, iterate_ended] at hk
        cases hk
        refine Or.inl ⟨v, n₂, rfl, hpush, hback, .step habove ?_⟩
        rw [hloop]
        exact .here _
      · rw [hcall] at hk
        rcases ih (within_of_goes hw hcall) (InLimits.move (move_step host t) hlimits) hk with
          ⟨v, n', hr, hpush, hn', hreach⟩ | ⟨e, n', hr, hreach⟩
        · exact Or.inl ⟨v, n', hr, hpush, hn', .step habove (hloop ▸ hreach)⟩
        · exact Or.inr ⟨e, n', hr, .step habove (hloop ▸ hreach)⟩

/-- **As long as the frame is there, the loop and the call go on alike.** -/
theorem lockstep_iterate (hlimit : limit < floor.length)
    (hw : Within floor st (t.deepened [.activation floor.length base]))
    (hlimits : InLimits t.machine)
    {k : Nat} (hk : ∀ j, j ≤ k → floor.length
      < ((step host)^[j] (t.deepened (.activation limit b :: rest))).machine.frames.height) :
    ((step host)^[k] (t.deepened (.activation limit b :: rest))).focus
        = ((step host)^[k] (t.deepened (.activation floor.length base :: below))).focus
      ∧ ((step host)^[k] (t.deepened (.activation limit b :: rest))).machine
        = ((step host)^[k] (t.deepened (.activation floor.length base :: below))).machine := by
  induction k generalizing t with
  | zero => exact ⟨rfl, rfl⟩
  | succ k ih =>
      have hnext := hk 1 (by omega)
      rw [Function.iterate_one] at hnext
      rw [Function.iterate_succ_apply, Function.iterate_succ_apply]
      rcases tandem host rest b hlimit hw hlimits with
        ⟨e, m, rfl⟩ | ⟨v, n₁, n₂, hpush, hback, hcall, hloop⟩ | ⟨hcall, hloop⟩
      · exact absurd hnext (not_above_of_unwind m hlimit)
      · rw [hloop] at hnext
        exact absurd hback (Nat.ne_of_gt hnext)
      · rw [hloop, hcall]
        refine ih (within_of_goes hw hcall) (InLimits.move (move_step host t) hlimits)
          fun j hj => ?_
        have hlater := hk (j + 1) (by omega)
        rw [Function.iterate_succ_apply, hloop] at hlater
        exact hlater

end Tandem

/-! ## §5. The two ways agree. -/

section Agreement

variable {callee : Value} {args given : CallArgs} {g : Function Value} {focus : Focus σ}
  {pending : List (Pending σ)} {vs : List Value} {fs : List Frame} {w : World σ}

theorem enter_of_entered (hcallee : callee.entered? args = some (g, given)) (s : RunState σ) :
    enter host callee args s = activate g given s := by
  cases callee with
  | function _ | method _ =>
      cases hcallee
      rfl
  | _ => cases hcallee

theorem callInLoop_of (hcallee : callee.entered? args = some (g, given)) {locals : Array Value}
    (hslots : Machine.admission g given fs.length st = .ok locals) :
    callInLoop host callee args ⟨focus, pending, .of vs fs st w⟩
      = ⟨.bytecode, pending, .of vs (⟨g, 0, vs.length, locals⟩ :: fs) st w⟩ := by
  unfold callInLoop
  rw [hcallee]
  dsimp only
  rw [Machine.enterFrame_of hslots]

theorem callInLoop_refused (hcallee : callee.entered? args = some (g, given)) {e : RunError}
    (hslots : Machine.admission g given fs.length st = .error e) :
    callInLoop host callee args ⟨focus, pending, .of vs fs st w⟩
      = ⟨.answer (.error e), pending, .of vs fs st w⟩ := by
  unfold callInLoop
  rw [hcallee]
  dsimp only
  rw [Machine.enterFrame_refused hslots]

theorem ofCall_of (hcallee : callee.entered? args = some (g, given)) {locals : Array Value}
    (hslots : Machine.admission g given fs.length st = .ok locals) :
    ofCall host (.of vs fs st w) callee args
      = ⟨.bytecode, [.activation fs.length vs.length],
          .of vs (⟨g, 0, vs.length, locals⟩ :: fs) st w⟩ :=
  (enter_of_entered hcallee _).trans (activate_of hslots)

theorem ofCall_refused (hcallee : callee.entered? args = some (g, given)) {e : RunError}
    (hslots : Machine.admission g given fs.length st = .error e) :
    ofCall host (.of vs fs st w) callee args = ⟨.answer (.error e), [], .of vs fs st w⟩ :=
  (enter_of_entered hcallee _).trans (activate_refused hslots)

variable {limit b : Nat} {rest : List (Pending σ)} {locals : Array Value}

/-- The frame that is entered, alone. -/
theorem within_entered (g : Function Value) (locals : Array Value) (vs : List Value)
    (fs : List Frame) (st : Settings) (w : World σ) :
    Within fs st (deepened [.activation fs.length vs.length]
      ⟨.bytecode, [], .of vs (⟨g, 0, vs.length, locals⟩ :: fs) st w⟩ : RunState σ) :=
  Within.bytecode vs w (.activation [⟨g, 0, vs.length, locals⟩] vs.length .start (by simp))

theorem inLimits_entered (hroom : vs.length ≤ st.maxValueStack)
    (hslots : Machine.admission g given fs.length st = .ok locals) :
    InLimits (.of vs (⟨g, 0, vs.length, locals⟩ :: fs) st w : Machine σ) :=
  inLimits_of.mpr ⟨Machine.depth_lt_of_admission hslots, hroom⟩

/-- Where there are no more frames, nothing is reached above them. -/
theorem ReachesAbove.eq_of_not_lt {depth : Nat} {s t : RunState σ}
    (h : ReachesAbove host depth s t) (hs : ¬ depth < s.machine.frames.height) : t = s := by
  cases h with
  | here => rfl
  | step hlt h => exact absurd hlt hs

theorem returnsInLoop_iff (hcallee : callee.entered? args = some (g, given))
    (hlimit : limit < fs.length) (hroom : vs.length ≤ st.maxValueStack) {v : Value}
    {n : Machine σ} :
    ReturnsInLoop host ⟨focus, .activation limit b :: rest, .of vs fs st w⟩ callee args v n
      ↔ ∃ n', Reaches host (ofCall host (.of vs fs st w) callee args) ⟨.answer (.ok v), [], n'⟩
        ∧ Machine.push v n' = (.ok (), n) := by
  unfold ReturnsInLoop
  cases hslots : Machine.admission g given fs.length st with
  | error e =>
      -- a function that is not admitted returns in neither way
      rw [callInLoop_refused hcallee hslots, ofCall_refused hcallee hslots]
      constructor
      · rintro ⟨h, _⟩
        cases h.eq_of_not_lt (Nat.lt_irrefl _)
      · rintro ⟨n', ⟨k, hk⟩, _⟩
        rw [iterate_ended] at hk
        cases hk
  | ok locals =>
      rw [callInLoop_of hcallee hslots, ofCall_of hcallee hslots]
      constructor
      · rintro ⟨h, hheight, htop⟩
        rcases call_ends_of_loop hlimit (within_entered g locals vs fs st w)
          (inLimits_entered hroom hslots) h (Or.inl ⟨rfl, hheight⟩) with
          ⟨v', n', _, hpush, hreach⟩ | ⟨e, n', hfocus, _⟩
        · rw [(push_ok hpush).2] at htop
          cases htop
          exact ⟨n', hreach, hpush⟩
        · cases hfocus
      · rintro ⟨n', hreach, hpush⟩
        rcases loop_ends_of_call rest b hlimit
          (within_entered g locals vs fs st w) (inLimits_entered hroom hslots) hreach
          with ⟨v', n₁, hr, hpush', hheight, h⟩ | ⟨e, n₁, hr, _⟩
        · cases hr
          rw [hpush] at hpush'
          cases hpush'
          exact ⟨h, hheight, (push_ok hpush).2⟩
        · cases hr

theorem failsInLoop_iff (hcallee : callee.entered? args = some (g, given))
    (hlimit : limit < fs.length) (hroom : vs.length ≤ st.maxValueStack) {e : RunError} :
    FailsInLoop host ⟨focus, .activation limit b :: rest, .of vs fs st w⟩ callee args e
      ↔ ∃ n', Reaches host (ofCall host (.of vs fs st w) callee args)
        ⟨.answer (.error e), [], n'⟩ := by
  unfold FailsInLoop
  cases hslots : Machine.admission g given fs.length st with
  | error e' =>
      -- a function that is not admitted fails in both ways, with the same error
      rw [callInLoop_refused hcallee hslots, ofCall_refused hcallee hslots]
      constructor
      · rintro ⟨n, h⟩
        cases h.eq_of_not_lt (Nat.lt_irrefl _)
        exact ⟨_, Reaches.refl _⟩
      · rintro ⟨n', k, hk⟩
        rw [iterate_ended] at hk
        cases hk
        exact ⟨_, .here _⟩
  | ok locals =>
      rw [callInLoop_of hcallee hslots, ofCall_of hcallee hslots]
      constructor
      · rintro ⟨n, h⟩
        rcases call_ends_of_loop hlimit (within_entered g locals vs fs st w)
          (inLimits_entered hroom hslots) h (Or.inr ⟨e, rfl⟩) with
          ⟨v, n', hfocus, _⟩ | ⟨e', n', hfocus, hreach⟩
        · cases hfocus
        · cases hfocus
          exact ⟨n', hreach⟩
      · rintro ⟨n', hreach⟩
        rcases loop_ends_of_call rest b hlimit
          (within_entered g locals vs fs st w) (inLimits_entered hroom hslots) hreach
          with ⟨v, n₁, hr, _⟩ | ⟨e', n₁, hr, h⟩
        · cases hr
        · cases hr
          exact ⟨n₁, h⟩

end Agreement

/-- **The two ways of calling a function or a bound method agree,** in every
state of a loop. -/
theorem waysAgree_of_inLoop (host : Host σ) {s : RunState σ} (hs : s.InLoop) {callee : Value}
    {args : CallArgs} (hcallee : (callee.entered? args).isSome = true) :
    WaysAgree host s callee args := by
  obtain ⟨⟨g, given⟩, hcallee⟩ := Option.isSome_iff_exists.mp hcallee
  obtain ⟨hrunning, ⟨limit, b, rest, hpending, hlimit⟩, hroom⟩ := hs
  obtain ⟨focus, pending, m⟩ := s
  obtain ⟨vs, fs, st, w, rfl⟩ := Machine.exists_of m
  dsimp only at hpending
  subst hpending
  change limit < fs.length at hlimit
  change vs.length ≤ st.maxValueStack at hroom
  refine ⟨fun below v n => ?_, fun below e => ?_, fun below k hk => ?_, fun below => ⟨?_, ?_⟩, ?_⟩
  · -- the call as it runs above other calls is the call on its own
    simp only [returns_enter_iff]
    exact returnsInLoop_iff hcallee hlimit hroom
  · simp only [returns_enter_iff]
    exact failsInLoop_iff hcallee hlimit hroom
  · dsimp only
    cases hslots : Machine.admission g given fs.length st with
    | error e =>
        have hfirst := hk 0 (Nat.zero_le k)
        rw [callInLoop_refused hcallee hslots] at hfirst
        exact absurd hfirst (Nat.lt_irrefl _)
    | ok locals =>
        rw [callInLoop_of hcallee hslots] at hk ⊢
        rw [enter_of_entered hcallee, activate_of hslots]
        exact lockstep_iterate hlimit (within_entered g locals vs fs st w)
          (inLimits_entered hroom hslots) hk
  · change _ = Focus.answer (.error (.callDepthExceeded st.maxCallDepth))
      ↔ st.maxCallDepth ≤ fs.length
    rw [← Machine.admission_eq_exceeded g given]
    cases hslots : Machine.admission g given fs.length st with
    | error e => simp [callInLoop_refused hcallee hslots]
    | ok locals => simp [callInLoop_of hcallee hslots]
  · change _ = Focus.answer (.error (.callDepthExceeded st.maxCallDepth))
      ↔ st.maxCallDepth ≤ fs.length
    rw [← Machine.admission_eq_exceeded g given, enter_of_entered hcallee]
    cases hslots : Machine.admission g given fs.length st with
    | error e => simp [activate_refused hslots]
    | ok locals => simp [activate_of hslots]
  · rintro ⟨id, receiver, function⟩ rfl t
    exact ⟨rfl, rfl⟩

/-- A function that answers nil. -/
def answersNil : Function Value :=
  ⟨⟨1⟩, "g", ⟨"g", encode [.pushNil, .return], #[], #[], Signature.none, 0⟩,
    ⟨⟨0⟩, "m"⟩, [], [], #[]⟩

/-- The loop of a first call, which has one value on the stack. -/
def firstLoop : RunState Unit :=
  ⟨.bytecode, [.activation 0 0],
    .of [.int 7] [⟨answersNil, 0, 0, #[]⟩] .standard (World.new ())⟩

theorem waysAgree_of_inLoop_answersNil :
    firstLoop.InLoop ∧ (Value.entered? (.function answersNil) .none).isSome = true
      ∧ WaysAgree (fun _ _ => .done (.ok .nil)) firstLoop (.function answersNil) .none
      ∧ ReturnsInLoop (fun _ _ => .done (.ok .nil)) firstLoop (.function answersNil) .none .nil
        (.of [.nil, .int 7] [⟨answersNil, 0, 0, #[]⟩] .standard (World.new ())) := by
  have hloop : firstLoop.InLoop :=
    ⟨rfl, ⟨0, 0, [], rfl, by decide⟩, by decide⟩
  refine ⟨hloop, rfl, waysAgree_of_inLoop _ hloop rfl, ?_, rfl, rfl⟩
  exact .step (by decide) (.step (by decide) (.here _))

end RunState

end CallDecoration
