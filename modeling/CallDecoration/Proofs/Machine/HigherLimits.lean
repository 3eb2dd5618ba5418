/-
  CallDecoration.Proofs.Machine.HigherLimits
  ──────────────────────────────────────
  **Higher limits change no outcome but that of running into them.**  The
  settings are looked at in two places: before a value is pushed and before a
  frame is entered.  So an operation of the machine under higher limits does
  the same, or has failed for the limits under the lower ones (`Lifted`), and a
  step of a run does the same, or has come upon such an error (`Raised`).  From
  there nothing but such an error can come out (`Doomed`), as long as host
  functions do not make something else of it (`Action.Unaware`).
-/
import CallDecoration.Proofs.Decoration.Decorating
import CallDecoration.Proofs.Machine.Moves

namespace CallDecoration

variable {σ α β : Type}

/-! ## §1. Host functions that know nothing of limits. -/

/-- Whether the error tells that a limit of the machine has been reached. -/
def RunError.isLimit : RunError → Bool
  | callDepthExceeded _ | valueStackOverflow => true
  | _ => false

namespace Action

/-- **An action that can end with errors of the limits only.** -/
inductive EndsAtLimit : Action σ α → Prop where
  | done {e : RunError} (h : e.isLimit = true) : EndsAtLimit (.done (.error e))
  | call {callee : Value} {args : CallArgs} {next : Except RunError Value → Action σ α}
      (h : ∀ r, EndsAtLimit (next r)) : EndsAtLimit (.call callee args next)
  | inspect {next : Gauge → Action σ α} (h : ∀ g, EndsAtLimit (next g)) :
      EndsAtLimit (.inspect next)
  | read {next : World σ → Action σ α} (h : ∀ w, EndsAtLimit (next w)) : EndsAtLimit (.read next)
  | write {w : World σ} {next : Action σ α} (h : EndsAtLimit next) : EndsAtLimit (.write w next)

/-- **An action that is unaware of the limits:** it does not look at the machine,
and when a call that it makes has run into a limit, it has too. -/
inductive Unaware : Action σ α → Prop where
  | done (r : Except RunError α) : Unaware (.done r)
  | call {callee : Value} {args : CallArgs} {next : Except RunError Value → Action σ α}
      (h : ∀ r, Unaware (next r))
      (hlimit : ∀ e, e.isLimit = true → (next (.error e)).EndsAtLimit) :
      Unaware (.call callee args next)
  | read {next : World σ → Action σ α} (h : ∀ w, Unaware (next w)) : Unaware (.read next)
  | write {w : World σ} {next : Action σ α} (h : Unaware next) : Unaware (.write w next)

theorem EndsAtLimit.bind {a : Action σ α} (f : α → Action σ β) (h : a.EndsAtLimit) :
    (a.bind f).EndsAtLimit := by
  induction h with
  | done h => exact done h
  | call _ ih => exact call ih
  | inspect _ ih => exact inspect ih
  | read _ ih => exact read ih
  | write _ ih => exact write ih

namespace Unaware

/-- **An action that hands on the errors of its calls** as they are. -/
theorem call_of_passes {callee : Value} {args : CallArgs}
    {next : Except RunError Value → Action σ α} (hok : ∀ v, (next (.ok v)).Unaware)
    (herror : ∀ e, next (.error e) = .done (.error e)) : (Action.call callee args next).Unaware := by
  refine call (fun r => ?_) fun e he => ?_
  · cases r with
    | ok v => exact hok v
    | error e =>
        rw [herror]
        exact done _
  · rw [herror]
    exact .done he

theorem bind {a : Action σ α} {f : α → Action σ β} (ha : a.Unaware) (hf : ∀ x, (f x).Unaware) :
    (a >>= f).Unaware := by
  show (a.bind f).Unaware
  induction ha with
  | done r =>
      cases r with
      | ok x => exact hf x
      | error e => exact done _
  | call _ hlimit ih => exact call ih fun e he => (hlimit e he).bind f
  | read _ ih => exact read ih
  | write _ ih => exact write ih

theorem world : (Action.world : Action σ (World σ)).Unaware :=
  read fun _ => done _

theorem change (f : World σ → α × World σ) : (Action.change f).Unaware :=
  read fun _ => write (done _)

theorem callValue (callee : Value) (args : CallArgs) :
    (Action.callValue callee args : Action σ Value).Unaware :=
  call_of_passes (fun _ => done _) fun _ => rfl

end Unaware

end Action

/-- Host functions none of which is aware of the limits. -/
def Host.Unaware (host : Host σ) : Prop :=
  ∀ id args, (host id args).Unaware

section Library

open CallDecoration.Action

theorem unaware_resolve (a : Adapter Value) : (a.resolve : Action σ Value).Unaware := by
  unfold Adapter.resolve
  split
  · exact .done _
  · split
    · exact .callValue _ _
    · exact .done _

theorem unaware_instrument (registry : RegistryId) (a : Adapter Value) (f : Function Value) :
    (f.instrument registry a : Action σ (Function Value)).Unaware := by
  unfold Function.instrument
  split
  · exact .done _
  · exact (Unaware.change _).bind fun _ => (Unaware.change _).bind fun _ => .done _

theorem unaware_decorate (registry : RegistryId) (target : Value) (a : Adapter Value) :
    (decorate registry target a : Action σ Value).Unaware := by
  refine Unaware.world.bind fun w => ?_
  split
  · split
    · refine (unaware_instrument registry a _).bind fun copy => Unaware.world.bind fun w => ?_
      refine (unaware_resolve a).bind fun wrapper => (Unaware.callValue _ _).bind fun r => ?_
      split
      · exact (Unaware.change _).bind fun _ => .done _
      · exact .done _
    · exact .done _
  · exact .done _

/-- **Decorating is unaware of the limits,** so that no host function knows of
them if the host's own do not. -/
theorem unaware_respond {host : Host σ} (hhost : host.Unaware) (n : Native Value)
    (args : CallArgs) : (n.respond host args).Unaware := by
  unfold Native.respond
  split
  · exact hhost _ _
  · unfold enterDecoration
    split
    · exact .done _
    · exact .change _
  · unfold applyDecorator
    split
    · exact unaware_decorate _ _ _
    · exact .done _

end Library

/-! ## §2. Operations under other settings. -/

/-- The limits of the second settings are at least as high. -/
structure Settings.Below (st st' : Settings) : Prop where
  values : st.maxValueStack ≤ st'.maxValueStack
  depth : st.maxCallDepth ≤ st'.maxCallDepth

namespace Machine

/-- The machine with other settings. -/
def under (st : Settings) (m : Machine σ) : Machine σ :=
  { m with settings := st }

/-- **How an operation ends under two settings:** in the same way, or under the
first ones for a limit that is higher under the second. -/
inductive Lifted (st st' : Settings) :
    Except RunError α × Machine σ → Except RunError α × Machine σ → Prop where
  | same {r : Except RunError α} {vs : List Value} {fs : List Frame} {w : World σ} :
      Lifted st st' (r, .of vs fs st w) (r, .of vs fs st' w)
  | limit {e : RunError} {vs : List Value} {fs : List Frame} {w : World σ}
      {y : Except RunError α × Machine σ} (hstrict : ¬ st'.Below st) (he : e.isLimit = true) :
      Lifted st st' (.error e, .of vs fs st w) y

/-- The operation ends so on every machine. -/
def Lifts (st st' : Settings) (x : Exec σ α) : Prop :=
  ∀ vs fs w, Lifted st st' (x (.of vs fs st w)) (x (.of vs fs st' w))

section Operations

variable {st st' : Settings} {x : Exec σ α}

theorem Lifts.bind {f : α → Exec σ β} (hx : Lifts st st' x) (hf : ∀ a, Lifts st st' (f a)) :
    Lifts st st' (x >>= f) := by
  intro vs fs w
  have h := hx vs fs w
  generalize hlow : x (.of vs fs st w) = y at h
  generalize hhigh : x (.of vs fs st' w) = y' at h
  cases h with
  | @same r vs' fs' w' =>
      cases r with
      | ok a =>
          rw [bind_ok hlow, bind_ok hhigh]
          exact hf a vs' fs' w'
      | error e =>
          rw [bind_error hlow, bind_error hhigh]
          exact .same
  | limit hstrict he =>
      rw [bind_error hlow]
      exact .limit hstrict he

theorem lifts_return (a : α) : Lifts st st' (return a : Exec σ α) :=
  fun _ _ _ => .same

theorem lifts_throw (e : RunError) : Lifts st st' (throw e : Exec σ α) :=
  fun _ _ _ => .same

theorem lifts_ofExcept (r : Except RunError α) : Lifts st st' (ofExcept r : Exec σ α) := by
  cases r with
  | ok a => exact lifts_return a
  | error e => exact lifts_throw e

theorem lifts_andAdvance {x : Exec σ Unit} (hx : Lifts st st' x) : Lifts st st' (andAdvance x) :=
  hx.bind fun _ => lifts_return _

/-- What looks at nothing but the world. -/
theorem lifts_world {k : World σ → Exec σ α} (hk : ∀ w, Lifts st st' (k w)) :
    Lifts st st' (get >>= fun m => k m.world) :=
  fun vs fs w => hk w vs fs w

theorem lifts_pop : Lifts st st' (pop : Exec σ Value) := by
  intro vs fs w
  cases vs with
  | nil => exact .same
  | cons v vs => exact .same

theorem lifts_popMany (n : Nat) : Lifts st st' (popMany n : Exec σ (List Value)) := by
  intro vs fs w
  by_cases hlow : vs.length < n
  · rw [popMany_short hlow, popMany_short hlow]
    exact .same
  · obtain ⟨ops, rest, rfl, hops⟩ := exists_taken hlow
    rw [popMany_of hops, popMany_of hops]
    exact .same

theorem lifts_top : Lifts st st' (top : Exec σ Value) := by
  intro vs fs w
  cases vs with
  | nil => exact .same
  | cons v vs => exact .same

theorem lifts_rearrange (f : Stack Value → Option (Stack Value)) :
    Lifts st st' (rearrange f : Exec σ Unit) := by
  intro vs fs w
  cases hf : f (.ofList vs) with
  | none =>
      rw [rearrange_short hf, rearrange_short hf]
      exact .same
  | some stack =>
      rw [stack.eq_ofList] at hf
      rw [rearrange_of hf, rearrange_of hf]
      exact .same

theorem lifts_frame : Lifts st st' (frame : Exec σ Frame) := by
  intro vs fs w
  cases fs with
  | nil => exact .same
  | cons f fs => exact .same

theorem lifts_updateFrame (f : Frame → Frame) : Lifts st st' (updateFrame f : Exec σ Unit) := by
  intro vs fs w
  cases fs with
  | nil => exact @Lifted.same _ _ _ _ _ vs [] w
  | cons g fs => exact @Lifted.same _ _ _ _ _ vs (f g :: fs) w

theorem lifts_leaveFrame : Lifts st st' (leaveFrame : Exec σ Value) := by
  intro vs fs w
  cases vs with
  | nil => exact .same
  | cons v vs =>
      cases fs with
      | nil => exact @Lifted.same _ _ _ _ _ vs [] w
      | cons f fs =>
          rw [leaveFrame_of, leaveFrame_of]
          exact .same

variable (hbelow : st.Below st')
include hbelow

/-- **A value is pushed if there is room;** under higher limits there is more. -/
theorem lifts_push (v : Value) : Lifts st st' (push v : Exec σ Unit) := by
  intro vs fs w
  by_cases hroom : vs.length < st.maxValueStack
  · rw [push_of hroom, push_of (Nat.lt_of_lt_of_le hroom hbelow.values)]
    exact .same
  · rw [push_full hroom]
    by_cases hroom' : vs.length < st'.maxValueStack
    · refine .limit (fun hback => hroom ?_) rfl
      exact Nat.lt_of_lt_of_le hroom' hback.values
    · rw [push_full hroom']
      exact .same

theorem lifts_pushAll (items : List Value) : Lifts st st' (pushAll items : Exec σ Unit) := by
  induction items with
  | nil => exact lifts_return ()
  | cons item rest ih => exact (lifts_push hbelow item).bind fun _ => ih

/-- **A function is entered if there is room for a frame,** and the error tells
how many there may be. -/
theorem lifts_enterFrame (g : Function Value) (args : CallArgs) :
    Lifts st st' (enterFrame g args : Exec σ Unit) := by
  intro vs fs w
  by_cases hdepth : fs.length < st.maxCallDepth
  · have hdepth' : fs.length < st'.maxCallDepth := Nat.lt_of_lt_of_le hdepth hbelow.depth
    rw [enterFrame_eq, enterFrame_eq, if_pos hdepth, if_pos hdepth']
    cases g.bindArguments args with
    | ok locals => exact @Lifted.same _ _ _ _ _ vs (⟨g, 0, vs.length, locals⟩ :: fs) w
    | error e => exact .same
  · have hlow : admission g args fs.length st = .error (.callDepthExceeded st.maxCallDepth) :=
      (admission_eq_exceeded g args).mpr (Nat.le_of_not_lt hdepth)
    rw [enterFrame_refused hlow]
    by_cases hsame : st'.maxCallDepth ≤ st.maxCallDepth
    · have heq : st.maxCallDepth = st'.maxCallDepth := Nat.le_antisymm hbelow.depth hsame
      have hhigh : admission g args fs.length st' = .error (.callDepthExceeded st.maxCallDepth) := by
        rw [heq]
        exact (admission_eq_exceeded g args).mpr (heq ▸ Nat.le_of_not_lt hdepth)
      rw [enterFrame_refused hhigh]
      exact .same
    · exact .limit (fun hback => hsame hback.depth) rfl

end Operations

/-! ## §3. Instructions under other settings. -/

section Instructions

variable {st st' : Settings}

theorem lifts_nameAt (index : UInt16) : Lifts st st' (nameAt index : Exec σ String) := by
  refine lifts_frame.bind fun f => ?_
  split
  · exact lifts_return _
  · exact lifts_throw _

theorem lifts_storeLocal (slot : UInt8) : Lifts st st' (storeLocal slot : Exec σ Unit) := by
  refine lifts_pop.bind fun value => lifts_frame.bind fun f => ?_
  split
  · exact lifts_updateFrame _
  · exact lifts_throw _

theorem lifts_storeGlobal (index : UInt16) : Lifts st st' (storeGlobal index : Exec σ Unit) := by
  refine lifts_pop.bind fun value => (lifts_nameAt index).bind fun name => lifts_frame.bind fun f => ?_
  intro vs fs w
  exact @Lifted.same _ _ _ _ _ vs fs (w.bind f.function.scope.id name value)

variable (hbelow : st.Below st')
include hbelow

/-- An entry of a table is pushed like any value. -/
theorem lifts_pushOr (entry : Option Value) (e : RunError) :
    Lifts st st' (pushOr entry e : Exec σ Unit) := by
  cases entry with
  | some value => exact lifts_push hbelow value
  | none => exact lifts_throw e

theorem lifts_pushConstant (index : UInt16) : Lifts st st' (pushConstant index : Exec σ Unit) :=
  lifts_frame.bind fun _ => lifts_pushOr hbelow _ _

theorem lifts_loadLocal (slot : UInt8) : Lifts st st' (loadLocal slot : Exec σ Unit) :=
  lifts_frame.bind fun _ => lifts_pushOr hbelow _ _

theorem lifts_loadCapture (index : UInt16) : Lifts st st' (loadCapture index : Exec σ Unit) := by
  refine lifts_frame.bind fun f => ?_
  split
  · exact lifts_push hbelow _
  · exact lifts_throw _

theorem lifts_loadGlobal (index : UInt16) : Lifts st st' (loadGlobal index : Exec σ Unit) := by
  refine (lifts_nameAt index).bind fun name => lifts_frame.bind fun f => ?_
  exact lifts_world (k := fun w => pushOr (w.lookup f.function.scope.id name) (.unboundGlobal name))
    fun _ => lifts_pushOr hbelow _ _

theorem lifts_buildTuple (count : UInt8) : Lifts st st' (buildTuple count : Exec σ Unit) :=
  (lifts_popMany _).bind fun _ => lifts_push hbelow _

theorem lifts_buildDict (count : UInt8) : Lifts st st' (buildDict count : Exec σ Unit) :=
  (lifts_popMany _).bind fun _ => (lifts_ofExcept _).bind fun _ => lifts_push hbelow _

theorem lifts_unpackSequence (count : UInt8) : Lifts st st' (unpackSequence count : Exec σ Unit) := by
  refine lifts_pop.bind fun value => ?_
  split
  · split
    · exact lifts_pushAll hbelow _
    · exact lifts_throw _
  · exact lifts_throw _

theorem lifts_operate (op : BinaryOp) : Lifts st st' (operate op : Exec σ Unit) :=
  lifts_pop.bind fun _ => lifts_pop.bind fun _ => (lifts_ofExcept _).bind fun _ => lifts_push hbelow _

theorem lifts_call (shape : CallShape) : Lifts st st' (call shape : Exec σ Signal) := by
  refine (lifts_popMany _).bind fun operands => ?_
  split
  · exact lifts_throw _
  · refine (lifts_ofExcept _).bind fun args => ?_
    split
    · exact (lifts_enterFrame hbelow _ _).bind fun _ => lifts_return _
    · exact (lifts_enterFrame hbelow _ _).bind fun _ => lifts_return _
    · exact lifts_return _

/-- **Every instruction** does the same under higher limits, or has failed for
the lower ones. -/
theorem lifts_execute (i : Instruction) : Lifts st st' (execute i : Exec σ Signal) := by
  cases i with
  | nop | synthetic => exact lifts_return _
  | pop => exact lifts_pop.bind fun _ => lifts_return _
  | dup => exact lifts_andAdvance (lifts_top.bind fun _ => lifts_push hbelow _)
  | swap | rot3 => exact lifts_andAdvance (lifts_rearrange _)
  | pushNil | pushTrue | pushFalse | pushSmall _ => exact lifts_andAdvance (lifts_push hbelow _)
  | pushConstant index => exact lifts_andAdvance (lifts_pushConstant hbelow index)
  | loadLocal slot => exact lifts_andAdvance (lifts_loadLocal hbelow slot)
  | storeLocal slot => exact lifts_andAdvance (lifts_storeLocal slot)
  | loadGlobal index => exact lifts_andAdvance (lifts_loadGlobal hbelow index)
  | storeGlobal index => exact lifts_andAdvance (lifts_storeGlobal index)
  | loadCapture index => exact lifts_andAdvance (lifts_loadCapture hbelow index)
  | buildTuple count => exact lifts_andAdvance (lifts_buildTuple hbelow count)
  | buildDict count => exact lifts_andAdvance (lifts_buildDict hbelow count)
  | unpackSequence count => exact lifts_andAdvance (lifts_unpackSequence hbelow count)
  | add | sub | mul | lt | eq => exact lifts_andAdvance (lifts_operate hbelow _)
  | not => exact lifts_andAdvance (lifts_pop.bind fun _ => lifts_push hbelow _)
  | jump target => exact lifts_andAdvance (lifts_updateFrame _)
  | jumpIfFalse target =>
      refine lifts_andAdvance (lifts_pop.bind fun value => ?_)
      split
      · exact lifts_updateFrame _
      · exact lifts_return _
  | «return» => exact lifts_leaveFrame.bind fun _ => lifts_return _
  | call shape => exact lifts_call hbelow shape

theorem lifts_stepFrame : Lifts st st' (stepFrame : Exec σ Signal) := by
  refine lifts_frame.bind fun f => (lifts_ofExcept _).bind fun fetched => ?_
  exact (lifts_updateFrame _).bind fun _ => lifts_execute hbelow fetched.1

end Instructions

end Machine

/-! ## §4. Runs that have run into a limit. -/

namespace RunState

variable {host : Host σ} {pending : List (Pending σ)} {s t : RunState σ}

/-- What waits hands an error of the limits on as such an error. -/
def HandsOn (pending : List (Pending σ)) : Prop :=
  ∀ next, .host next ∈ pending → ∀ e, e.isLimit = true → (next (.error e)).EndsAtLimit

theorem HandsOn.tail {first : Pending σ} (h : HandsOn (first :: pending)) : HandsOn pending :=
  fun next hnext => h next (List.mem_cons_of_mem first hnext)

/-- **A state from which nothing but an error of the limits can come out:** such
an error is handed on, or a host function can end with nothing else, or one
that waits can. -/
inductive Doomed : RunState σ → Prop where
  | answer {e : RunError} {pending : List (Pending σ)} {m : Machine σ} (he : e.isLimit = true)
      (hpending : HandsOn pending) : Doomed ⟨.answer (.error e), pending, m⟩
  | action {a : Action σ Value} {pending : List (Pending σ)} {m : Machine σ} (ha : a.EndsAtLimit)
      (hpending : HandsOn pending) : Doomed ⟨.action a, pending, m⟩
  | waiting {s : RunState σ} {next : Except RunError Value → Action σ Value}
      {rest : List (Pending σ)} (hsuffix : .host next :: rest <:+ s.pending)
      (hnext : ∀ r, (next r).EndsAtLimit) (hrest : HandsOn rest) : Doomed s

/-- Whatever a call begins with, what waits stays below. -/
theorem Opens.suffix {vs : List Value} {fs : List Frame} {st : Settings} {w : World σ}
    {callee : Value} {args : CallArgs} (h : Opens host pending vs fs st w callee args t) :
    pending <:+ t.pending := by
  cases h with
  | activates => exact List.suffix_cons _ _
  | acts | answers => exact List.suffix_refl _

theorem Resumes.pending_eq {vs : List Value} {fs : List Frame} {st : Settings} {w : World σ}
    {v : Value} (h : Resumes pending vs fs st w v t) : t.pending = pending := by
  cases h <;> rfl

/-- The host function that waits is still there when something else is taken
off what waits. -/
theorem suffix_of_ne {first : Pending σ} {next : Except RunError Value → Action σ Value}
    {rest : List (Pending σ)} (h : .host next :: rest <:+ first :: pending)
    (hne : first ≠ .host next) : .host next :: rest <:+ pending := by
  rcases List.suffix_cons_iff.mp h with heq | hsuffix
  · exact absurd (List.cons.inj heq).1.symm hne
  · exact hsuffix

/-- **A run that is doomed stays so.** -/
theorem Doomed.move (hmove : Move host s t) (h : Doomed s) : Doomed t := by
  cases h with
  | answer he hpending =>
      cases hmove with
      | stays => exact .answer he hpending
      | passes | unwinds => exact .answer he hpending.tail
      | continues => exact .action (hpending _ List.mem_cons_self _ he) hpending.tail
  | action ha hpending =>
      cases hmove with
      | done =>
          cases ha with
          | done he => exact .answer he hpending
      | requests hcall =>
          cases ha with
          | call hnext => exact .waiting hcall.suffix hnext hpending
      | inspects =>
          cases ha with
          | inspect h => exact .action (h _) hpending
      | reads =>
          cases ha with
          | read h => exact .action (h _) hpending
      | writes =>
          cases ha with
          | write h => exact .action h hpending
  | waiting hsuffix hnext hrest =>
      cases hmove with
      | calls _ _ _ hcall =>
          exact .waiting ((hsuffix.trans (List.suffix_cons _ _)).trans hcall.suffix) hnext hrest
      | requests hcall =>
          exact .waiting ((hsuffix.trans (List.suffix_cons _ _)).trans hcall.suffix) hnext hrest
      | returns _ _ hresume =>
          exact .waiting (by rw [hresume.pending_eq]; exact hsuffix) hnext hrest
      | resumes hresume =>
          refine .waiting ?_ hnext hrest
          rw [hresume.pending_eq]
          exact suffix_of_ne hsuffix (by simp)
      | leaves | passes | hands | unwinds =>
          exact .waiting (suffix_of_ne hsuffix (by simp)) hnext hrest
      | continues =>
          -- the host function that waits goes on, or it waits further below
          rcases List.suffix_cons_iff.mp hsuffix with heq | hbelow
          · cases heq
            exact .action (hnext _) hrest
          · exact .waiting hbelow hnext hrest
      | _ => exact .waiting hsuffix hnext hrest

/-- **Such a run can only end with an error of the limits.** -/
theorem Doomed.run {r : Except RunError Value} {m : Machine σ} {fuel : Nat} (h : Doomed s)
    (hrun : RunState.run host fuel s = some (r, m)) : ∃ e, r = .error e ∧ e.isLimit = true := by
  have hended := (reaches_of_run hrun).preserves (fun t ht => ht.move (move_step host t)) h
  cases hended with
  | answer he _ => exact ⟨_, rfl, he⟩
  | waiting hsuffix _ _ => exact absurd (List.suffix_nil.mp hsuffix) (List.cons_ne_nil _ _)

/-! ## §5. Runs that are unaware of the limits. -/

/-- **Neither what acts nor what waits is aware of the limits.** -/
structure Unaware (focus : Focus σ) (pending : List (Pending σ)) : Prop where
  acting : ∀ a, focus = .action a → a.Unaware
  waiting : ∀ next, .host next ∈ pending → ∀ r, (next r).Unaware
  handsOn : HandsOn pending

namespace Unaware

variable {focus focus' : Focus σ}

/-- An action that goes on, over some of what waited. -/
theorem acts {a : Action σ Value} {below : List (Pending σ)} (h : Unaware focus pending)
    (ha : a.Unaware) (hsuffix : below <:+ pending) : Unaware (.action a) below := by
  refine ⟨fun b hb => ?_, fun next hnext => h.waiting next (hsuffix.subset hnext),
    fun next hnext => h.handsOn next (hsuffix.subset hnext)⟩
  cases hb
  exact ha

/-- The bytecode, or an answer, over some of what waited. -/
theorem rests {below : List (Pending σ)} (h : Unaware focus pending)
    (hfocus : ∀ a, focus' ≠ .action a) (hsuffix : below <:+ pending) : Unaware focus' below :=
  ⟨fun a ha => absurd ha (hfocus a), fun next hnext => h.waiting next (hsuffix.subset hnext),
    fun next hnext => h.handsOn next (hsuffix.subset hnext)⟩

/-- What waits and is no host function. -/
theorem waits {first : Pending σ} (h : Unaware focus pending)
    (hfirst : ∀ next, first ≠ .host next) : Unaware focus (first :: pending) := by
  refine ⟨h.acting, fun next hnext => ?_, fun next hnext => ?_⟩
  · exact h.waiting next ((List.mem_cons.mp hnext).resolve_left fun heq => hfirst next heq.symm)
  · exact h.handsOn next ((List.mem_cons.mp hnext).resolve_left fun heq => hfirst next heq.symm)

/-- A host function that waits for a call. -/
theorem calling {callee : Value} {args : CallArgs} {next : Except RunError Value → Action σ Value}
    (h : Unaware (.action (.call callee args next)) pending) :
    Unaware .bytecode (.host next :: pending) := by
  cases h.acting _ rfl with
  | call hnext hlimit =>
      refine ⟨fun _ ha => (nomatch ha), fun next' hmem => ?_, fun next' hmem => ?_⟩
      · rcases List.mem_cons.mp hmem with heq | hmem
        · cases heq
          exact hnext
        · exact h.waiting next' hmem
      · rcases List.mem_cons.mp hmem with heq | hmem
        · cases heq
          exact hlimit
        · exact h.handsOn next' hmem

section Steps

variable {vs : List Value} {fs : List Frame} {st : Settings} {w : World σ}

theorem opens (hhost : host.Unaware) {callee : Value} {args : CallArgs}
    (hcall : Opens host pending vs fs st w callee args t) (h : Unaware focus pending) :
    Unaware t.focus t.pending := by
  cases hcall with
  | activates => exact (h.rests (by simp) (List.suffix_refl _)).waits (by simp)
  | acts => exact h.acts (unaware_respond hhost _ _) (List.suffix_refl _)
  | answers => exact h.rests (by simp) (List.suffix_refl _)

theorem resumes {v : Value} (hresume : Resumes pending vs fs st w v t)
    (h : Unaware focus pending) : Unaware t.focus t.pending := by
  cases hresume <;> exact h.rests (by simp) (List.suffix_refl _)

end Steps

/-- **Every step keeps a run unaware.** -/
theorem move (hhost : host.Unaware) (hmove : Move host s t) (h : Unaware s.focus s.pending) :
    Unaware t.focus t.pending := by
  cases hmove with
  | calls _ _ _ hcall => exact (h.waits (by simp)).opens hhost hcall
  | requests hcall => exact h.calling.opens hhost hcall
  | returns _ _ hresume => exact h.resumes hresume
  | resumes hresume =>
      have hrest : Unaware (.bytecode : Focus σ) _ := h.rests (by simp) (List.suffix_cons _ _)
      exact hrest.resumes hresume
  | leaves | passes | hands | unwinds => exact h.rests (by simp) (List.suffix_cons _ _)
  | inspects => cases h.acting _ rfl
  | reads =>
      cases h.acting _ rfl with
      | read hnext => exact h.acts (hnext _) (List.suffix_refl _)
  | writes =>
      cases h.acting _ rfl with
      | write hnext => exact h.acts hnext (List.suffix_refl _)
  | continues => exact h.acts (h.waiting _ List.mem_cons_self _) (List.suffix_cons _ _)
  | _ => exact h.rests (by simp) (List.suffix_refl _)

end Unaware

/-! ## §6. Runs under other settings. -/

/-- **How a step ends under two settings:** in the same way, or under the first
ones with an error of a limit that is higher under the second. -/
inductive Raised (st st' : Settings) : RunState σ → RunState σ → Prop where
  | same {focus : Focus σ} {pending : List (Pending σ)} {vs : List Value} {fs : List Frame}
      {w : World σ} :
      Raised st st' ⟨focus, pending, .of vs fs st w⟩ ⟨focus, pending, .of vs fs st' w⟩
  | limit {e : RunError} {pending : List (Pending σ)} {vs : List Value} {fs : List Frame}
      {w : World σ} {t' : RunState σ} (hstrict : ¬ st'.Below st) (he : e.isLimit = true) :
      Raised st st' ⟨.answer (.error e), pending, .of vs fs st w⟩ t'

section Raising

variable {st st' : Settings} {focus : Focus σ} {vs : List Value} {fs : List Frame} {w : World σ}

variable (hbelow : st.Below st')
include hbelow

theorem raised_resume (v : Value) :
    Raised st st' (resume v ⟨focus, pending, .of vs fs st w⟩)
      (resume v ⟨focus, pending, .of vs fs st' w⟩) := by
  have h := Machine.lifts_push hbelow v vs fs w
  unfold resume
  dsimp only
  generalize Machine.push v (.of vs fs st w) = y at h ⊢
  generalize Machine.push v (.of vs fs st' w) = y' at h ⊢
  cases h with
  | @same r => cases r <;> exact .same
  | limit hstrict he => exact .limit hstrict he

theorem raised_activate (g : Function Value) (args : CallArgs) :
    Raised st st' (activate g args ⟨focus, pending, .of vs fs st w⟩)
      (activate g args ⟨focus, pending, .of vs fs st' w⟩) := by
  have h := Machine.lifts_enterFrame hbelow g args vs fs w
  unfold activate
  dsimp only
  generalize Machine.enterFrame g args (.of vs fs st w) = y at h ⊢
  generalize Machine.enterFrame g args (.of vs fs st' w) = y' at h ⊢
  cases h with
  | @same r => cases r <;> exact .same
  | limit hstrict he => exact .limit hstrict he

theorem raised_enter (callee : Value) (args : CallArgs) :
    Raised st st' (enter host callee args ⟨focus, pending, .of vs fs st w⟩)
      (enter host callee args ⟨focus, pending, .of vs fs st' w⟩) := by
  cases callee with
  | function g => exact raised_activate hbelow g args
  | method m => exact raised_activate hbelow m.function _
  | _ => exact .same

theorem raised_afterReturn (v : Value) :
    Raised st st' (afterReturn v ⟨focus, pending, .of vs fs st w⟩)
      (afterReturn v ⟨focus, pending, .of vs fs st' w⟩) := by
  by_cases hlast : ∃ base below, pending = .activation fs.length base :: below
  · obtain ⟨base, below, rfl⟩ := hlast
    rw [afterReturn_last, afterReturn_last]
    exact .same
  · have hinner : ∀ base below, pending ≠ .activation fs.length base :: below :=
      fun base below hpending => hlast ⟨base, below, hpending⟩
    rw [afterReturn_resume hinner, afterReturn_resume hinner]
    exact raised_resume hbelow v

theorem raised_stepBytecode :
    Raised st st' (step host ⟨.bytecode, pending, .of vs fs st w⟩)
      (step host ⟨.bytecode, pending, .of vs fs st' w⟩) := by
  have h := Machine.lifts_stepFrame hbelow vs fs w
  show Raised st st' (stepBytecode host _) (stepBytecode host _)
  unfold stepBytecode
  dsimp only
  generalize Machine.stepFrame (.of vs fs st w) = y at h ⊢
  generalize Machine.stepFrame (.of vs fs st' w) = y' at h ⊢
  cases h with
  | @same r vs fs w =>
      cases r with
      | error e => exact .same
      | ok signal =>
          cases signal with
          | advance => exact .same
          | returned v => exact raised_afterReturn hbelow v
          | external callee args => exact raised_enter hbelow callee args
  | limit hstrict he => exact .limit hstrict he

/-- **Every step of an unaware run** does the same under higher limits, or has
failed for the lower ones. -/
theorem raised_step (h : Unaware focus pending) :
    Raised st st' (step host ⟨focus, pending, .of vs fs st w⟩)
      (step host ⟨focus, pending, .of vs fs st' w⟩) := by
  cases focus with
  | bytecode => exact raised_stepBytecode hbelow
  | action a =>
      cases h.acting a rfl with
      | done | read | write => exact .same
      | call => exact raised_enter hbelow _ _
  | answer r =>
      cases pending with
      | nil =>
          rw [step_ended, step_ended]
          exact .same
      | cons first rest =>
          cases first with
          | operand =>
              cases r with
              | ok v => exact raised_resume hbelow v
              | error e => exact .same
          | activation floor base =>
              cases r with
              | ok v => exact .same
              | error e =>
                  show Raised st st' ⟨_, _, Machine.unwind floor base _⟩
                    ⟨_, _, Machine.unwind floor base _⟩
                  rw [Machine.unwind_of, Machine.unwind_of]
                  exact .same
          | host next => cases r <;> exact .same

/-- **An unaware run under higher limits does the same,** or the one under the
lower limits has run into one of them and can end with nothing else. -/
theorem run_raised (hhost : host.Unaware) {s s' : RunState σ} (hraised : Raised st st' s s')
    (hs : Unaware s.focus s.pending) (fuel : Nat) :
    run host fuel s' = (run host fuel s).map (fun out => (out.1, out.2.under st'))
      ∨ ¬ st'.Below st ∧ ∀ fuel' r m, run host fuel' s = some (r, m) →
          ∃ e, r = .error e ∧ e.isLimit = true := by
  induction fuel generalizing s s' with
  | zero => exact Or.inl rfl
  | succ fuel ih =>
      cases hraised with
      | limit hstrict he =>
          -- nothing catches an error of the limits, so the run ends with it
          exact Or.inr ⟨hstrict, fun _ _ _ => (Doomed.answer he hs.handsOn).run⟩
      | @same focus pending vs fs w =>
          cases hr : result? (⟨focus, pending, .of vs fs st w⟩ : RunState σ) with
          | some r =>
              have hr' : result? (⟨focus, pending, .of vs fs st' w⟩ : RunState σ) = some r := hr
              refine Or.inl ?_
              rw [run, run, hr, hr']
              rfl
          | none =>
              have hr' : result? (⟨focus, pending, .of vs fs st' w⟩ : RunState σ) = none := hr
              have hnext : ∀ fuel, run host (fuel + 1) ⟨focus, pending, .of vs fs st w⟩
                  = run host fuel (step host ⟨focus, pending, .of vs fs st w⟩) := by
                intro fuel
                rw [run, hr]
              rcases ih (raised_step hbelow hs) (hs.move hhost (move_step host _)) with
                hsame | ⟨hstrict, hlimit⟩
              · refine Or.inl ?_
                rw [hnext, ← hsame, run, hr']
              · -- the run is the rest of it with one step before
                refine Or.inr ⟨hstrict, fun fuel' r m hrun => ?_⟩
                cases fuel' with
                | zero => cases hrun
                | succ fuel' =>
                    rw [hnext] at hrun
                    exact hlimit fuel' r m hrun

end Raising

/-! ## §7. Calls under other settings. -/

/-- **Higher limits change no outcome but that of running into them:** a call on
a new machine that ends with anything but an error of the limits ends so, after
as many steps, under all higher ones, and leaves the same world.  Whether the
machine reports what it executes changes nothing at all. -/
theorem outcome_of_higher_limits {host : Host σ} (hhost : host.Unaware) (w : World σ)
    (callee : Value) (args : CallArgs) :
    (∀ st st' : Settings, st.Below st' → ∀ fuel r m,
      run host fuel (ofCall host (.new st w) callee args) = some (r, m) →
      (∀ e, r = .error e → e.isLimit = false) →
      run host fuel (ofCall host (.new st' w) callee args) = some (r, m.under st'))
    ∧ ∀ (st : Settings) (trace : Bool) fuel,
      run host fuel (ofCall host (.new { st with trace := trace } w) callee args)
        = (run host fuel (ofCall host (.new st w) callee args)).map
            (fun out => (out.1, out.2.under { st with trace := trace })) := by
  have hcall : ∀ st st' : Settings, st.Below st' →
      Raised st st' (ofCall host (.new st w) callee args) (ofCall host (.new st' w) callee args) := by
    intro st st' hbelow
    show Raised st st' (enter host callee args ⟨.bytecode, [], .of [] [] st w⟩)
      (enter host callee args ⟨.bytecode, [], .of [] [] st' w⟩)
    exact raised_enter hbelow callee args
  have hunaware : ∀ st : Settings, Unaware (ofCall host (.new st w) callee args).focus
      (ofCall host (.new st w) callee args).pending := by
    intro st
    have hstart : Unaware (.bytecode : Focus σ) [] :=
      ⟨fun _ ha => (nomatch ha), fun _ hmem => (nomatch hmem), fun _ hmem => (nomatch hmem)⟩
    have hopens : Opens host [] [] [] st w callee args (ofCall host (.new st w) callee args) :=
      opens_enter callee args
    exact hstart.opens hhost hopens
  constructor
  · intro st st' hbelow fuel r m hrun hother
    rcases run_raised hbelow hhost (hcall st st' hbelow) (hunaware st) fuel with hsame | ⟨_, hlimit⟩
    · rw [hsame, hrun]
      rfl
    · obtain ⟨e, rfl, he⟩ := hlimit fuel r m hrun
      rw [hother e rfl] at he
      cases he
  · intro st trace fuel
    have hbelow : st.Below { st with trace := trace } := ⟨Nat.le_refl _, Nat.le_refl _⟩
    rcases run_raised hbelow hhost (hcall st _ hbelow) (hunaware st) fuel with hsame | ⟨hstrict, _⟩
    · exact hsame
    · exact absurd ⟨Nat.le_refl _, Nat.le_refl _⟩ hstrict

/-- The host on which the host function 0 answers its argument, and any other
decorates its argument with that one and calls the result. -/
def decoratingHost : Host Unit := fun id args =>
  if id = ⟨0⟩ then .done (.ok (args.positional.headD .nil))
  else
    decorate ⟨0⟩ (args.positional.headD .nil) (.new (.native ⟨⟨0⟩, "w", .host⟩) [] []) >>=
      fun decorated => Action.callValue decorated .none

theorem unaware_decoratingHost : decoratingHost.Unaware := by
  intro id args
  unfold decoratingHost
  split
  · exact .done _
  · exact (unaware_decorate _ _ _).bind fun _ => .callValue _ _

/-- Decorates the caller of a global, in which the global is decorated too, and
calls it. -/
def decoratingCall (st : Settings) : RunState Unit :=
  .ofCall decoratingHost (.new st boundWorld) (.native ⟨⟨1⟩, "go", .host⟩)
    (.one (.function callsGlobal))

/-- Whether a run has ended with a number. -/
def endsWithInt (n : Int64) (out : Option (Except RunError Value × Machine σ)) : Bool :=
  match out with
  | some (.ok (.int k), _) => k == n
  | _ => false

theorem exists_of_endsWithInt {n : Int64} {out : Option (Except RunError Value × Machine σ)}
    (h : endsWithInt n out = true) : ∃ m, out = some (.ok (.int n), m) := by
  unfold endsWithInt at h
  split at h
  · rename_i k m
    rw [eq_of_beq h]
    exact ⟨m, rfl⟩
  · cases h

/-- Seven values and two frames are enough for that, so it ends so under the
standard limits too. -/
theorem outcome_of_higher_limits_decoratingCall :
    decoratingHost.Unaware ∧ Settings.Below ⟨7, 2, false⟩ .standard
      ∧ ∃ m, run decoratingHost 60 (decoratingCall ⟨7, 2, false⟩) = some (.ok (.int 5), m)
        ∧ run decoratingHost 60 (decoratingCall .standard)
          = some (.ok (.int 5), m.under .standard) := by
  have hbelow : Settings.Below ⟨7, 2, false⟩ .standard := ⟨by decide, by decide⟩
  have hends : endsWithInt 5 (run decoratingHost 60 (decoratingCall ⟨7, 2, false⟩)) = true := by
    decide +kernel
  obtain ⟨m, hm⟩ := exists_of_endsWithInt hends
  refine ⟨unaware_decoratingHost, hbelow, m, hm, ?_⟩
  exact (outcome_of_higher_limits unaware_decoratingHost boundWorld (.native ⟨⟨1⟩, "go", .host⟩)
    (.one (.function callsGlobal))).1 _ _ hbelow 60 _ m hm fun e he => nomatch he

end RunState

end CallDecoration
