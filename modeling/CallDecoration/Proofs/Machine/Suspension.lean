/-
  CallDecoration.Proofs.Machine.Suspension
  ──────────────────────────────────────
  **Host functions run over whatever waits for them.**  An action that comes to
  an answer alone takes the same steps over anything that waits
  (`step_deepened`), and when it answers, the frames are those with which it began
  (`answers_over`).  For the values on the stack nothing of the kind holds: a
  function that the action calls may have taken some of them.
-/
import CallDecoration.Proofs.Machine.Moves
import CallDecoration.Proofs.Machine.Nesting

namespace CallDecoration

variable {σ : Type}

/-! ## §1. Calls along a run. -/

namespace RunState

variable {host : Host σ}

theorem attempted_add (m n : Nat) (s : RunState σ) :
    attempted host (m + n) s = attempted host m s ++ attempted host n ((step host)^[m] s) := by
  induction m generalizing s with
  | zero => rw [Nat.zero_add, attempted, List.nil_append, Function.iterate_zero, id_eq]
  | succ m ih =>
      rw [Nat.succ_add, attempted, attempted, ih, List.append_assoc, Function.iterate_succ_apply]

/-- As many steps go from one state to another. -/
def Takes (host : Host σ) (n : Nat) (s t : RunState σ) : Prop :=
  (step host)^[n] s = t

namespace Takes

variable {m n : Nat} {s t u : RunState σ}

theorem refl (s : RunState σ) : Takes host 0 s s :=
  rfl

theorem one (h : step host s = t) : Takes host 1 s t :=
  h

theorem trans (h₁ : Takes host m s t) (h₂ : Takes host n t u) : Takes host (n + m) s u := by
  unfold Takes at h₁ h₂ ⊢
  rw [Function.iterate_add_apply, h₁, h₂]

/-- With more steps to spend than it takes, a run ends. -/
theorem run {r : Except RunError Value} {left : Machine σ} {fuel : Nat}
    (h : Takes host n s ⟨.answer r, [], left⟩) (hfuel : n < fuel) :
    RunState.run host fuel s = some (r, left) := by
  obtain ⟨k, rfl⟩ : ∃ k, fuel = k + n + 1 := ⟨fuel - n - 1, by omega⟩
  unfold Takes at h
  rw [run_succ, Function.iterate_add_apply, h, iterate_ended]
  rfl

end Takes

/-- **As many steps go from one state to another,** and their call instructions
attempt to call these values. -/
def AttemptsIn (host : Host σ) (n : Nat) (s : RunState σ) (callees : List Value)
    (t : RunState σ) : Prop :=
  Takes host n s t ∧ attempted host n s = callees

namespace AttemptsIn

variable {m n : Nat} {s t u : RunState σ} {xs ys : List Value}

theorem refl (s : RunState σ) : AttemptsIn host 0 s [] s :=
  ⟨rfl, rfl⟩

theorem one (h : step host s = t) : AttemptsIn host 1 s s.callee?.toList t :=
  ⟨h, List.append_nil _⟩

theorem trans (h₁ : AttemptsIn host m s xs t) (h₂ : AttemptsIn host n t ys u) :
    AttemptsIn host (n + m) s (xs ++ ys) u := by
  obtain ⟨hm, rfl⟩ := h₁
  obtain ⟨hn, rfl⟩ := h₂
  refine ⟨hm.trans hn, ?_⟩
  rw [Nat.add_comm, attempted_add, hm]

/-- A step before which no call is upcoming. -/
theorem silent (h : step host s = t) (hs : s.callee? = none) (h₂ : AttemptsIn host n t ys u) :
    AttemptsIn host (n + 1) s ys u := by
  have hone := one h
  rw [hs] at hone
  exact hone.trans h₂

end AttemptsIn

/-- **The run goes from one state to another,** and its call instructions
attempt to call these values on the way. -/
def Attempts (host : Host σ) (s : RunState σ) (callees : List Value) (t : RunState σ) : Prop :=
  ∃ n : Nat, (step host)^[n] s = t ∧ attempted host n s = callees

theorem AttemptsIn.attempts {n : Nat} {s t : RunState σ} {xs : List Value}
    (h : AttemptsIn host n s xs t) : Attempts host s xs t :=
  ⟨n, h⟩

namespace Attempts

variable {s t u : RunState σ} {xs ys : List Value}

theorem refl (s : RunState σ) : Attempts host s [] s :=
  (AttemptsIn.refl s).attempts

theorem one (h : step host s = t) : Attempts host s s.callee?.toList t :=
  (AttemptsIn.one h).attempts

theorem trans (h₁ : Attempts host s xs t) (h₂ : Attempts host t ys u) :
    Attempts host s (xs ++ ys) u := by
  obtain ⟨m, hm⟩ := h₁
  obtain ⟨n, hn⟩ := h₂
  exact (AttemptsIn.trans (m := m) (n := n) hm hn).attempts

/-- No calls are attempted after the first part. -/
theorem then_silent (h₁ : Attempts host s xs t) (h₂ : Attempts host t [] u) :
    Attempts host s xs u := by
  have h := h₁.trans h₂
  rw [List.append_nil] at h
  exact h

/-- A step before which no call is upcoming. -/
theorem silent (h : step host s = t) (hs : s.callee? = none) (h₂ : Attempts host t ys u) :
    Attempts host s ys u := by
  have hone := one h
  rw [hs] at hone
  exact hone.trans h₂

end Attempts

/-! ## §2. What waits below. -/

/-- The state with more that waits, below all that waits already. -/
def deepened (below : List (Pending σ)) (s : RunState σ) : RunState σ :=
  { s with pending := s.pending ++ below }

variable {below : List (Pending σ)}

theorem resume_deepened (v : Value) (s : RunState σ) :
    resume v (s.deepened below) = (resume v s).deepened below := by
  have hmachine : (s.deepened below).machine = s.machine := rfl
  unfold resume
  rw [hmachine]
  rcases Machine.push v s.machine with ⟨_ | _, m⟩ <;> rfl

theorem activate_deepened (g : Function Value) (args : CallArgs) (s : RunState σ) :
    activate g args (s.deepened below) = (activate g args s).deepened below := by
  have hmachine : (s.deepened below).machine = s.machine := rfl
  unfold activate
  rw [hmachine]
  rcases Machine.enterFrame g args s.machine with ⟨_ | _, m⟩ <;> rfl

theorem enter_deepened (callee : Value) (args : CallArgs) (s : RunState σ) :
    enter host callee args (s.deepened below) = (enter host callee args s).deepened below := by
  cases callee with
  | function g => exact activate_deepened g args s
  | method m => exact activate_deepened m.function _ s
  | _ => rfl

/-- An activation waits for the running frame, so what waits below it is not
looked at. -/
theorem afterReturn_deepened {v : Value} {s : RunState σ} (h : s.pending ≠ []) :
    afterReturn v (s.deepened below) = (afterReturn v s).deepened below := by
  obtain ⟨focus, pending, m⟩ := s
  cases pending with
  | nil => exact absurd rfl h
  | cons first rest =>
      cases first with
      | activation floor base =>
          show (if m.frames.height = floor then
              (⟨.answer (.ok v), rest ++ below, m⟩ : RunState σ)
            else resume v (deepened below ⟨focus, .activation floor base :: rest, m⟩))
            = deepened below (if m.frames.height = floor then ⟨.answer (.ok v), rest, m⟩
                else resume v ⟨focus, .activation floor base :: rest, m⟩)
          rw [resume_deepened]
          split <;> rfl
      | operand | host next => exact resume_deepened v _

/-- **One step over more that waits,** unless the run ends without it. -/
theorem step_deepened {s : RunState σ} (h : (∃ a, s.focus = .action a) ∨ s.pending ≠ []) :
    step host (s.deepened below) = (step host s).deepened below := by
  obtain ⟨focus, pending, m⟩ := s
  -- an answer with nothing waiting ends the one run, but not the other
  cases focus with
  | bytecode =>
      have hne : pending ≠ [] := h.resolve_left (by rintro ⟨_, hfocus⟩; cases hfocus)
      show stepBytecode host (deepened below ⟨.bytecode, pending, m⟩)
        = (stepBytecode host ⟨.bytecode, pending, m⟩).deepened below
      have hmachine : (deepened below ⟨.bytecode, pending, m⟩).machine = m := rfl
      unfold stepBytecode
      rw [hmachine]
      rcases Machine.stepFrame m with ⟨_ | signal, n⟩
      · rfl
      · cases signal with
        | advance => rfl
        | returned v => exact afterReturn_deepened (s := ⟨.bytecode, pending, n⟩) hne
        | external callee args => exact enter_deepened callee args ⟨.bytecode, .operand :: pending, n⟩
  | action a =>
      cases a with
      | call callee args next => exact enter_deepened callee args ⟨_, .host next :: pending, m⟩
      | _ => rfl
  | answer r =>
      cases pending with
      | nil => exact absurd rfl (h.resolve_left (by rintro ⟨_, hfocus⟩; cases hfocus))
      | cons first rest =>
          cases first with
          | operand =>
              cases r with
              | ok v => exact resume_deepened v ⟨_, rest, m⟩
              | error e => rfl
          | activation floor base => cases r <;> rfl
          | host next => rfl

end RunState

/-! ## §3. What an action's run looks like. -/

/-- **The shape of the run of an action** that began above the frames `floor`:
what waits for its calls, and the frames.  Every activation stands for the
frames entered since it began. -/
inductive Suspended (floor : List Frame) : Phase → List (Pending σ) → List Frame → Prop where
  /-- Nothing waits but what waited before. -/
  | start : Suspended floor .outside [] floor
  /-- A host function calls a function. -/
  | activation {pending : List (Pending σ)} {frames : List Frame} (entered : List Frame) (base : Nat)
      (houter : Suspended floor .outside pending frames) (hentered : entered ≠ []) :
      Suspended floor .code (.activation frames.length base :: pending) (entered ++ frames)
  /-- A host function waits for the answer of a call. -/
  | host {pending : List (Pending σ)} {frames : List Frame}
      (next : Except RunError Value → Action σ Value)
      (houter : Suspended floor .outside pending frames) :
      Suspended floor .outside (.host next :: pending) frames
  /-- A call instruction waits for its result. -/
  | operand {pending : List (Pending σ)} {frames : List Frame}
      (houter : Suspended floor .code pending frames) :
      Suspended floor .outside (.operand :: pending) frames

namespace Suspended

variable {floor : List Frame} {pending : List (Pending σ)} {f g : Frame} {frames : List Frame}

/-- While bytecode runs there is a frame. -/
theorem exists_frame (h : Suspended floor .code pending frames) : ∃ f rest, frames = f :: rest := by
  cases h with
  | @activation pending frames entered base houter hentered =>
      obtain ⟨f, rest, rfl⟩ := List.exists_cons_of_ne_nil hentered
      exact ⟨f, rest ++ frames, rfl⟩

theorem length_le {phase : Phase} (h : Suspended floor phase pending frames) :
    floor.length ≤ frames.length := by
  induction h with
  | start => exact Nat.le_refl _
  | activation entered base houter hentered ih =>
      rw [List.length_append]
      omega
  | host next houter ih => exact ih
  | operand houter ih => exact ih

/-- Bytecode runs in frames above those at the start. -/
theorem length_lt (h : Suspended floor .code pending frames) : floor.length < frames.length := by
  cases h with
  | activation entered base houter hentered =>
      have hle := houter.length_le
      have hpos := List.length_pos_iff.mpr hentered
      rw [List.length_append]
      omega

/-- An activation that waits has frames of its own. -/
theorem lt_of_activation {phase : Phase} {limit base : Nat}
    (h : Suspended floor phase pending frames) (hmem : .activation limit base ∈ pending) :
    floor.length < frames.length := by
  induction h with
  | start => cases hmem
  | activation entered base houter hentered ih =>
      exact (activation entered base houter hentered).length_lt
  | host next houter ih =>
      rcases List.mem_cons.mp hmem with heq | hmem
      · cases heq
      · exact ih hmem
  | operand houter ih => exact houter.length_lt

/-- The running frame may change. -/
theorem replace (h : Suspended floor .code pending (f :: frames)) (g : Frame) :
    Suspended floor .code pending (g :: frames) := by
  generalize hfs : f :: frames = all at h
  cases h with
  | @activation pending frames entered base houter hentered =>
      obtain ⟨u, rest, rfl⟩ := List.exists_cons_of_ne_nil hentered
      cases hfs
      exact activation (g :: rest) base houter (List.cons_ne_nil g rest)

/-- Bytecode enters a function. -/
theorem push (h : Suspended floor .code pending frames) (g : Frame) :
    Suspended floor .code pending (g :: frames) := by
  cases h with
  | @activation pending frames entered base houter hentered =>
      exact activation (g :: entered) base houter (List.cons_ne_nil g entered)

/-- The running frame ends: with its activation, or into the frame below. -/
theorem pop (h : Suspended floor .code pending (f :: frames)) :
    (∃ base below, pending = .activation frames.length base :: below
        ∧ Suspended floor .outside below frames)
      ∨ ∃ limit base below, pending = .activation limit base :: below ∧ frames.length ≠ limit
        ∧ Suspended floor .code pending frames := by
  generalize hfs : f :: frames = all at h
  cases h with
  | @activation outer frames' entered base houter hentered =>
      obtain ⟨u, rest, rfl⟩ := List.exists_cons_of_ne_nil hentered
      cases hfs
      by_cases hrest : rest = []
      · -- it was the frame with which the activation began
        subst hrest
        exact Or.inl ⟨base, outer, rfl, houter⟩
      · refine Or.inr ⟨frames'.length, base, outer, rfl, ?_, activation rest base houter hrest⟩
        have hpos := List.length_pos_iff.mpr hrest
        show (rest ++ frames').length ≠ _
        rw [List.length_append]
        omega

/-- An activation began below the frames that run in it. -/
theorem limit_lt {limit base : Nat}
    (h : Suspended floor .code (.activation limit base :: pending) frames) :
    limit < frames.length := by
  cases h with
  | activation entered base houter hentered =>
      have hpos := List.length_pos_iff.mpr hentered
      rw [List.length_append]
      omega

/-- What an error cuts back to. -/
theorem unwind (h : Suspended floor .code pending frames) :
    ∃ limit base below, pending = .activation limit base :: below
      ∧ Suspended floor .outside below (frames.drop (frames.length - limit)) := by
  cases h with
  | @activation outer frames entered base houter hentered =>
      refine ⟨frames.length, base, outer, rfl, ?_⟩
      rw [List.length_append, Nat.add_sub_cancel, List.drop_left]
      exact houter

end Suspended

/-- **The states of the run of an action:** what is being done fits what waits,
and the settings stay. -/
inductive Within (floor : List Frame) (st : Settings) : RunState σ → Prop where
  | bytecode {pending : List (Pending σ)} {frames : List Frame} (vs : List Value) (w : World σ)
      (h : Suspended floor .code pending frames) :
      Within floor st ⟨.bytecode, pending, .of vs frames st w⟩
  | action {pending : List (Pending σ)} {frames : List Frame} (a : Action σ Value)
      (vs : List Value) (w : World σ) (h : Suspended floor .outside pending frames) :
      Within floor st ⟨.action a, pending, .of vs frames st w⟩
  | answer {pending : List (Pending σ)} {frames : List Frame} (r : Except RunError Value)
      (vs : List Value) (w : World σ) (h : Suspended floor .outside pending frames) :
      Within floor st ⟨.answer r, pending, .of vs frames st w⟩
  /-- An error that is about to cut an activation back. -/
  | failed {pending : List (Pending σ)} {frames : List Frame} (e : RunError)
      (vs : List Value) (w : World σ) (h : Suspended floor .code pending frames) :
      Within floor st ⟨.answer (.error e), pending, .of vs frames st w⟩

namespace Within

open RunState

variable {host : Host σ} {floor : List Frame} {st : Settings} {pending : List (Pending σ)}
  {frames : List Frame} {vs : List Value} {w : World σ}

/-- While bytecode runs, it runs in an activation. -/
theorem code {m : Machine σ} (h : Within floor st ⟨.bytecode, pending, m⟩) :
    Suspended floor .code pending m.frames.items := by
  cases h
  assumption

/-- A host function acts outside the bytecode. -/
theorem outside {m : Machine σ} {a : Action σ Value} (h : Within floor st ⟨.action a, pending, m⟩) :
    Suspended floor .outside pending m.frames.items := by
  cases h
  assumption

/-- A call instruction waits for the running frame. -/
theorem below_operand {m : Machine σ} {r : Except RunError Value}
    (h : Within floor st ⟨.answer r, .operand :: pending, m⟩) :
    Suspended floor .code pending m.frames.items := by
  cases h with
  | answer r vs w h =>
      cases h
      assumption
  | failed e vs w h => cases h

/-- As long as an activation waits there are frames above those at the start. -/
theorem lt_of_activation {s : RunState σ} {limit base : Nat} (h : Within floor st s)
    (hmem : .activation limit base ∈ s.pending) : floor.length < s.machine.frames.height := by
  cases h with
  | bytecode vs w h => exact h.lt_of_activation hmem
  | action a vs w h => exact h.lt_of_activation hmem
  | answer r vs w h => exact h.lt_of_activation hmem
  | failed e vs w h => exact h.lt_of_activation hmem

/-- Only an error finds an activation with its frames. -/
theorem failing {m : Machine σ} {r : Except RunError Value} {limit base : Nat}
    (h : Within floor st ⟨.answer r, .activation limit base :: pending, m⟩) :
    (∃ e, r = .error e)
      ∧ Suspended floor .code (.activation limit base :: pending) m.frames.items := by
  cases h with
  | answer r vs w h => cases h
  | failed e vs w h => exact ⟨⟨e, rfl⟩, h⟩

variable {s t : RunState σ}

theorem opens {callee : Value} {args : CallArgs}
    (hcall : Opens host pending vs frames st w callee args t)
    (h : Suspended floor .outside pending frames) : Within floor st t := by
  cases hcall with
  | activates hcallee hslots => exact bytecode vs w (.activation [_] vs.length h (by simp))
  | acts => exact action _ vs w h
  | answers hr => exact answer _ vs w h

theorem resumes {v : Value} (hresume : Resumes pending vs frames st w v t)
    (h : Suspended floor .code pending frames) : Within floor st t := by
  cases hresume with
  | room hroom => exact bytecode (v :: vs) w h
  | full hroom => exact failed _ vs w h

/-- **Every step stays within the run of the action.** -/
theorem move (hmove : Move host s t) (h : Within floor st s) : Within floor st t := by
  cases hmove with
  | stops =>
      obtain ⟨f, rest, hnil⟩ := h.code.exists_frame
      cases hnil
  | unfetched hfetch =>
      cases h with
      | bytecode vs w h => exact failed _ _ _ h
  | fails hf he hheight =>
      cases h with
      | bytecode vs w h => exact failed _ _ _ (h.replace _)
  | advances hf hheight =>
      cases h with
      | bytecode vs w h => exact bytecode _ _ (h.replace _)
  | enters hf hslots hheight =>
      cases h with
      | bytecode vs w h => exact bytecode _ _ ((h.replace _).push _)
  | calls hf hcallee hheight hcall =>
      cases h with
      | bytecode vs w h => exact opens hcall (.operand (h.replace _))
  | leaves hheight hbase =>
      cases h with
      | bytecode vs w h =>
          rcases h.pop with ⟨base, outer, heq, houter⟩ | ⟨limit, base, outer, heq, hne, hcode⟩
          · cases heq
            exact answer _ _ _ houter
          · -- the frame with which the activation began is its last
            cases heq
            exact absurd rfl hne
  | returns hpending hheight hresume =>
      cases h with
      | bytecode vs w h =>
          rcases h.pop with ⟨base, outer, heq, houter⟩ | ⟨limit, base, outer, heq, hne, hcode⟩
          · exact absurd heq (hpending base outer)
          · exact resumes hresume hcode
  | done =>
      cases h with
      | action a vs w h => exact answer _ _ _ h
  | requests hcall =>
      cases h with
      | action a vs w h => exact opens hcall (.host _ h)
  | inspects =>
      cases h with
      | action a vs w h => exact action _ _ _ h
  | reads =>
      cases h with
      | action a vs w h => exact action _ _ _ h
  | writes =>
      cases h with
      | action a vs w h => exact action _ _ _ h
  | stays => exact h
  | resumes hresume =>
      have houter := h.below_operand
      cases h with
      | answer r vs w h => exact resumes hresume houter
  | passes =>
      have houter := h.below_operand
      cases h with
      | answer r vs w h => exact failed _ _ _ houter
      | failed e vs w h => cases h
  | hands =>
      -- a result has left its activation with the last frame of it
      obtain ⟨⟨e, he⟩, _⟩ := h.failing
      cases he
  | unwinds =>
      cases h with
      | answer r vs w h => cases h
      | failed e vs w h =>
          obtain ⟨limit, base, outer, heq, houter⟩ := h.unwind
          cases heq
          rw [Machine.unwind_of]
          exact answer _ _ _ houter
  | continues =>
      cases h with
      | answer r vs w h =>
          cases h with
          | host next houter => exact action _ _ _ houter
      | failed e vs w h => cases h

theorem step (h : Within floor st s) : Within floor st (s.step host) :=
  h.move (move_step host s)

/-- Within a run that has not ended, what waits below is not looked at. -/
theorem goes_on {s : RunState σ} (h : Within floor st s) (hs : s.result? = none) :
    (∃ a, s.focus = .action a) ∨ s.pending ≠ [] := by
  cases h with
  | bytecode vs w h =>
      obtain ⟨_, _, _, rfl, _⟩ := h.unwind
      exact Or.inr (List.cons_ne_nil _ _)
  | action a vs w h => exact Or.inl ⟨a, rfl⟩
  | @answer pending frames r vs w h =>
      cases pending with
      | nil => cases hs
      | cons first rest => exact Or.inr (List.cons_ne_nil _ _)
  | failed e vs w h =>
      obtain ⟨_, _, _, rfl, _⟩ := h.unwind
      exact Or.inr (List.cons_ne_nil _ _)

/-- When the run has ended the frames are those at its start. -/
theorem ended {r : Except RunError Value} {m : Machine σ}
    (h : Within floor st (⟨.answer r, [], m⟩ : RunState σ)) :
    ∃ vs w, m = .of vs floor st w := by
  cases h with
  | answer r vs w h =>
      cases h
      exact ⟨vs, w, rfl⟩
  | failed e vs w h => cases h

end Within

/-! ## §4. Actions that answer. -/

namespace RunState

variable {host : Host σ} {floor : List Frame} {st : Settings} {fuel : Nat}
  {r : Except RunError Value} {m' : Machine σ}

/-- **The run to an answer, over more that waits.** -/
theorem run_over {s : RunState σ} (h : Within floor st s) (hrun : run host fuel s = some (r, m'))
    (below : List (Pending σ)) :
    ∃ callees, Attempts host s callees ⟨.answer r, [], m'⟩
      ∧ Attempts host (s.deepened below) callees ⟨.answer r, below, m'⟩
      ∧ Within floor st ⟨.answer r, [], m'⟩ := by
  -- as long as there is no result, either something waits or an action is to be taken
  induction fuel generalizing s with
  | zero => cases hrun
  | succ fuel ih =>
      unfold run at hrun
      cases hs : s.result? with
      | some r' =>
          obtain ⟨focus, pending, m⟩ := s
          obtain ⟨hfocus, hpending⟩ := result?_eq_some.mp hs
          rw [hs] at hrun
          cases hrun
          dsimp only at hfocus hpending
          subst hfocus
          subst hpending
          exact ⟨[], Attempts.refl _, Attempts.refl _, h⟩
      | none =>
          rw [hs] at hrun
          obtain ⟨callees, halone, hover, hend⟩ := ih h.step hrun
          refine ⟨s.callee?.toList ++ callees, (Attempts.one rfl).trans halone, ?_, hend⟩
          exact (Attempts.one (s := s.deepened below) (step_deepened (h.goes_on hs))).trans hover

/-- **An action that answers alone answers the same over whatever waits,** with
the same calls on the way, and leaves the frames and the settings alone. -/
theorem answers_over {vs : List Value} {w : World σ} {a : Action σ Value}
    (hrun : run host fuel (ofAction (.of vs floor st w) a) = some (r, m'))
    (below : List (Pending σ)) :
    ∃ callees vs' w', m' = .of vs' floor st w'
      ∧ Attempts host (ofAction (.of vs floor st w) a) callees ⟨.answer r, [], m'⟩
      ∧ Attempts host ⟨.action a, below, .of vs floor st w⟩ callees ⟨.answer r, below, m'⟩ := by
  obtain ⟨callees, halone, hover, hend⟩ :=
    run_over (Within.action a vs w Suspended.start) hrun below
  obtain ⟨vs', w', hm⟩ := hend.ended
  exact ⟨callees, vs', w', hm, halone, hover⟩

end RunState

end CallDecoration
