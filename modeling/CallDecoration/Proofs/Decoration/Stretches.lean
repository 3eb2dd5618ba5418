/-
  CallDecoration.Proofs.Decoration.Stretches
  ──────────────────────────────────────
  **The stretches of a decorated run.**  A run of a decorated program is cut
  into stretches, each from one instruction of the program's own code to the
  next: the instructions that were inserted before a call, and the call, are one
  stretch.  At the checkpoints between them a frame executes a copy that carries
  all wrappers if it is flagged, and a function of the program if it is not
  (`Program.Checkpoint`).  Of each stretch one call at most is noted
  (`Program.stretch`).
-/
import CallDecoration.Proofs.Decoration.CallLog

namespace CallDecoration

variable {σ : Type}

namespace Program

open Watched

/-! ## §1. Checkpoints. -/

/-- What waits while a host function has called a function. -/
def outer : List (Pending σ) :=
  [.activation 0 0, .host .done]

section Checkpoints

variable {host : Host σ} {registry : RegistryId} {wrappers : List (Native Value)}
  {carried : FunctionId → Bool} {w₀ : World σ} (P : Program host registry wrappers carried w₀)

/-- **The frames of a run, with their flags:** of the program's functions, and
of copies that carry all wrappers. -/
inductive FrameOf : Bool → Frame → Prop where
  | plain {g : Function Value} {p base : Nat} {locals : Array Value} (h : P.plain g)
      (hlocals : ∀ v ∈ locals, P.Holds v) : FrameOf false ⟨g, p, base, locals⟩
  | copied {g x : Function Value} {ls : List CaptureSlots} {R : Nat → Nat → Prop} {p q base : Nat}
      {locals : Array Value} (h : P.plain g) (hx : g.DecoratedBy registry wrappers ls R x)
      (hat : R p q) (hlocals : ∀ v ∈ locals, P.Holds v) : FrameOf true ⟨x, q, base, locals⟩

/-- **A checkpoint:** the running frame stands before an instruction of the
program's own, and the program's values are on the stack. -/
inductive Checkpoint : Watched σ → Prop where
  | stands {flag : Bool} {flags : List Bool} {f : Frame} {fs : List Frame} {vs : List Value}
      {st : Settings} {w : World σ} (hframe : P.FrameOf flag f)
      (hframes : List.Forall₂ P.FrameOf flags fs) (hvs : ∀ v ∈ vs, P.Holds v) (hw : P.Tracks w) :
      Checkpoint ⟨⟨.bytecode, outer, .of vs (f :: fs) st w⟩, flag :: flags⟩

/-- **What a call instruction may find** below its operands, in a frame with
the flag. -/
inductive Finds : Bool → Value → Prop where
  | plain {g : Function Value} (h : P.plain g) : Finds false (.function g)
  | copied {flag : Bool} {g x : Function Value} {ls : List CaptureSlots} {R : Nat → Nat → Prop}
      (h : P.plain g) (hx : g.DecoratedBy registry wrappers ls R x)
      (hflag : (flag || carried x.id) = true) : Finds flag (.function x)
  | other {flag : Bool} {v : Value} (h : P.Holds v) (hfunction : ∀ g, v ≠ .function g) :
      Finds flag v

/-- How many functions have been made. -/
def made (x : Watched σ) : Nat :=
  x.state.machine.world.nextFunction

variable {P}

/-- A result of an earlier decoration is a copy that carries the wrapper. -/
theorem decoratedBy_of_decorated {x : Function Value} (h : P.decorated x) :
    ∃ g ls R, P.plain g ∧ g.DecoratedBy registry wrappers ls R x := by
  obtain ⟨_, n, g, slots, rfl, hg, hcopied, _⟩ := P.copies x h
  obtain ⟨ls, R, hx⟩ := Function.DecoratedBy.first (P.unmarked g hg) hcopied
  exact ⟨g, ls, R, hg, hx⟩

/-- What a frame that is not flagged finds. -/
theorem Finds.of_holds {v : Value} (h : P.Holds v) : P.Finds false v := by
  cases h with
  | plain h => exact Finds.plain h
  | @decorated x h =>
      obtain ⟨g, ls, R, hg, hx⟩ := decoratedBy_of_decorated h
      refine Finds.copied hg hx ?_
      rw [Bool.false_or]
      exact (P.copies x h).1
  | nil => exact Finds.other .nil (by simp)
  | bool b => exact Finds.other (.bool b) (by simp)
  | int n => exact Finds.other (.int n) (by simp)
  | str s => exact Finds.other (.str s) (by simp)
  | type t => exact Finds.other (.type t) (by simp)
  | module scope => exact Finds.other (.module scope) (by simp)
  | tuple h => exact Finds.other (.tuple h) (by simp)
  | dict h => exact Finds.other (.dict h) (by simp)
  | native h => exact Finds.other (.native h) (by simp)
  | method hreceiver h => exact Finds.other (.method hreceiver h) (by simp)

end Checkpoints

/-! ## §2. Entering a frame. -/

section Entering

variable {host : Host σ} {registry : RegistryId} {wrappers : List (Native Value)}
  {carried : FunctionId → Bool} {w₀ : World σ} {P : Program host registry wrappers carried w₀}
  {args : CallArgs} {depth base : Nat} {st : Settings} {locals : Array Value}

/-- The slots of a new frame. -/
theorem locals_of_admission {g : Function Value} (hg : P.plain g) (hargs : args.All P.Holds)
    (h : Machine.admission g args depth st = .ok locals) : ∀ v ∈ locals, P.Holds v := by
  unfold Machine.admission at h
  split at h
  · exact P.deep.bindArguments (P.tables g hg) hargs h
  · cases h

theorem FrameOf.of_plain {f : Frame} (hg : P.plain f.function)
    (hlocals : ∀ v ∈ f.locals, P.Holds v) : P.FrameOf false f := by
  obtain ⟨g, p, base, locals⟩ := f
  exact FrameOf.plain hg hlocals

theorem FrameOf.of_copied {f : Frame} {g : Function Value} {ls : List CaptureSlots}
    {R : Nat → Nat → Prop} {p : Nat} (hg : P.plain g)
    (hf : g.DecoratedBy registry wrappers ls R f.function) (hat : R p f.ip)
    (hlocals : ∀ v ∈ f.locals, P.Holds v) : P.FrameOf true f := by
  obtain ⟨x, q, base, locals⟩ := f
  exact FrameOf.copied hg hf hat hlocals

/-- The frame of a copy is flagged. -/
theorem FrameOf.enter {g x : Function Value} {ls : List CaptureSlots} {R : Nat → Nat → Prop}
    (hg : P.plain g) (hx : g.DecoratedBy registry wrappers ls R x) (hargs : args.All P.Holds)
    (h : Machine.admission x args depth st = .ok locals) : P.FrameOf true ⟨x, 0, base, locals⟩ := by
  rw [hx.admission] at h
  exact FrameOf.copied hg hx hx.layers.zero (locals_of_admission hg hargs h)

end Entering

/-! ## §3. Stretches without calls. -/

section Stretches

variable {host : Host σ} {registry : RegistryId} {wrappers : List (Native Value)}
  {carried : FunctionId → Bool} {w₀ : World σ} {P : Program host registry wrappers carried w₀}
  {flag : Bool} {flags : List Bool} {f : Frame} {fs : List Frame} {vs : List Value}
  {st : Settings} {w : World σ}

/-- **The next stretch of a run:** it fails, or goes on to a checkpoint or to
the end.  One call at most is noted of it, and it makes a function for each
application of a wrapper. -/
def Stretch (P : Program host registry wrappers carried w₀) (x : Watched σ) : Prop :=
  Fails host carried outer x
    ∨ ∃ y evs, Advances host carried x evs y ∧ CallNoted wrappers carried evs
      ∧ (P.Checkpoint y ∨ y.IsEnded)
      ∧ made y = made x + wrappers.length * (evs.filterMap (Event.called? carried)).length

/-- An instruction that neither calls nor returns. -/
theorem stretch_plain {i : Instruction} {next : Nat} (hfetch : Machine.fetch f = .ok (i, next))
    (hi : i.isPlain = true)
    (hresults : ∀ ops out, (∀ v ∈ ops, P.Holds v) → i.results f w ops = .ok out →
      ∀ v ∈ out, P.Holds v)
    (hafter : ∀ ops, (∀ v ∈ ops, P.Holds v) →
      P.FrameOf flag (i.frameAfter { f with ip := next } ops))
    (hframes : List.Forall₂ P.FrameOf flags fs) (hvs : ∀ v ∈ vs, P.Holds v) (hw : P.Tracks w) :
    P.Stretch ⟨⟨.bytecode, outer, .of vs (f :: fs) st w⟩, flag :: flags⟩ := by
  have hcases : (∃ ops rest out, vs = ops ++ rest ∧ i.results f w ops = .ok out
      ∧ Advances host carried ⟨⟨.bytecode, outer, .of vs (f :: fs) st w⟩, flag :: flags⟩ []
        ⟨⟨.bytecode, outer, .of (out ++ rest)
          (i.frameAfter { f with ip := next } ops :: fs) st (i.worldAfter f w ops)⟩,
          flag :: flags⟩)
      ∨ Fails host carried outer ⟨⟨.bytecode, outer, .of vs (f :: fs) st w⟩, flag :: flags⟩ :=
    advances_or_fails hfetch hi
  rcases hcases with ⟨ops, rest, out, rfl, hr, hadvances⟩ | hfails
  · have hops : ∀ v ∈ ops, P.Holds v := fun v hv => hvs v (List.mem_append_left _ hv)
    refine Or.inr ⟨_, [], hadvances, CallNoted.silent, Or.inl ?_, ?_⟩
    · refine Checkpoint.stands (hafter ops hops) hframes ?_ (hw.worldAfter hops)
      intro v hv
      rcases List.mem_append.mp hv with hv | hv
      · exact hresults ops out hops hr v hv
      · exact hvs v (List.mem_append_right _ hv)
    · show (i.worldAfter f w ops).nextFunction = w.nextFunction + _
      rw [Machine.worldAfter_same i f w ops]
      rfl
  · exact Or.inl hfails

/-- A return, to the frame below or out of the run. -/
theorem stretch_return {next : Nat} (hfetch : Machine.fetch f = .ok (.return, next))
    (hframes : List.Forall₂ P.FrameOf flags fs) (hvs : ∀ v ∈ vs, P.Holds v) (hw : P.Tracks w) :
    P.Stretch ⟨⟨.bytecode, outer, .of vs (f :: fs) st w⟩, flag :: flags⟩ := by
  cases vs with
  | nil =>
      have hlow : ([] : List Value).length < Instruction.return.operands := Nat.one_pos
      exact Or.inl (Fails.of_stepFrame (Machine.stepFrame_short hfetch hlow))
  | cons v vs =>
      let left := vs.drop (vs.length - f.base)
      have hframe : Machine.stepFrame (.of (v :: vs) (f :: fs) st w)
          = (.ok (.returned v), .of left fs st w) :=
        (Machine.stepFrame_of hfetch).trans Machine.execute_return
      have hstep : RunState.step host ⟨.bytecode, outer, .of (v :: vs) (f :: fs) st w⟩
          = RunState.afterReturn v ⟨.bytecode, outer, .of left fs st w⟩ :=
        RunState.step_returned hframe
      have hsilent : events (⟨⟨.bytecode, outer, .of (v :: vs) (f :: fs) st w⟩,
          flag :: flags⟩ : Watched σ) = [] := by
        refine events_of rfl ?_ ?_
        · intro n args h
          rw [hframe] at h
          cases h
        · intro g
          rw [RunState.callee?_plain hfetch rfl]
          simp
      -- nothing is noted of a return; the result is the answer of the run, or is pushed
      cases hframes with
      | nil =>
          -- the decorated function itself returns
          have hlast : Advances host carried
              ⟨⟨.bytecode, outer, .of (v :: vs) [f] st w⟩, [flag]⟩ []
              ⟨⟨.answer (.ok v), [.host .done], .of left [] st w⟩, []⟩ :=
            Advances.one (next_left hstep rfl) hsilent
          have hend : Passes host carried ⟨⟨.answer (.ok v), [.host .done], .of left [] st w⟩, []⟩
              [] ⟨⟨.answer (.ok v), [], .of left [] st w⟩, []⟩ := passes_answer.silent passes_done
          exact Or.inr ⟨_, [], hlast.then_passes hend, CallNoted.silent, Or.inr ⟨_, _, rfl⟩, rfl⟩
      | @cons flag' f' flags fs hf' hframes =>
          have hinner : (f' :: fs).length ≠ 0 := by simp
          by_cases hfits : left.length < st.maxValueStack
          · have hresumed : RunState.step host ⟨.bytecode, outer, .of (v :: vs) (f :: f' :: fs) st w⟩
                = ⟨.bytecode, outer, .of (v :: left) (f' :: fs) st w⟩ :=
              (hstep.trans (RunState.afterReturn_inner hinner)).trans (RunState.resume_of hfits)
            refine Or.inr ⟨_, [], Advances.one (next_left hresumed rfl) hsilent, CallNoted.silent,
              Or.inl (Checkpoint.stands hf' hframes ?_ hw), rfl⟩
            intro u hu
            rcases List.mem_cons.mp hu with rfl | hu
            · exact hvs u List.mem_cons_self
            · exact hvs u (List.mem_cons_of_mem _ (List.mem_of_mem_drop hu))
          · have hfull : RunState.step host ⟨.bytecode, outer, .of (v :: vs) (f :: f' :: fs) st w⟩
                = ⟨.answer (.error .valueStackOverflow), outer, .of left (f' :: fs) st w⟩ :=
              (hstep.trans (RunState.afterReturn_inner hinner)).trans (RunState.resume_full hfits)
            exact Or.inl ⟨_, [], _, _, Passes.one (next_left hfull rfl) hsilent⟩

/-! ## §4. Calls. -/

/-- **Part of a stretch that leads to a checkpoint,** unless it fails, and makes
no function. -/
def Leads (P : Program host registry wrappers carried w₀) (x : Watched σ) (evs : List Event) :
    Prop :=
  Fails host carried outer x
    ∨ ∃ y, Advances host carried x evs y ∧ P.Checkpoint y ∧ made y = made x

variable {shape : CallShape} {next : Nat} {ops rest : List Value} {callee : Value}
  {args : CallArgs}

/-- An answer is pushed for the call instruction that waits for it. -/
theorem leads_answered {x : Watched σ} {evs : List Event} {r : Except RunError Value}
    (hr : ∀ v, r = .ok v → P.Holds v) (hframe : P.FrameOf flag f)
    (hframes : List.Forall₂ P.FrameOf flags fs) (hvs : ∀ v ∈ vs, P.Holds v) (hw : P.Tracks w)
    (hadvances : Advances host carried x evs
      ⟨⟨.answer r, .operand :: outer, .of vs (f :: fs) st w⟩, flag :: flags⟩)
    (hmade : made x = w.nextFunction) : P.Leads x evs := by
  cases r with
  | error e => exact Or.inl (Fails.of_passes hadvances.passes (Fails.of_operand e _))
  | ok v =>
      have hresumed : Proceeds host carried outer (vs.length < st.maxValueStack)
          ⟨⟨.answer (.ok v), .operand :: outer, .of vs (f :: fs) st w⟩, flag :: flags⟩ []
          ⟨⟨.bytecode, outer, .of (v :: vs) (f :: fs) st w⟩, flag :: flags⟩ :=
        proceeds_resume id
      rcases hresumed.passes_or_fails with hpasses | hfails
      · have hall := hadvances.then_passes hpasses
        rw [List.append_nil] at hall
        refine Or.inr ⟨_, hall, Checkpoint.stands hframe hframes ?_ hw, hmade.symm⟩
        intro u hu
        rcases List.mem_cons.mp hu with rfl | hu
        · exact hr u rfl
        · exact hvs u hu
      · exact Or.inl (Fails.of_passes hadvances.passes hfails)

/-- A call that enters a frame, of the program or of a copy. -/
theorem leads_entered {given : CallArgs} {g : Function Value}
    (hfetch : Machine.fetch f = .ok (.call shape, next)) (hops : ops.length = shape.slots)
    (hargs : collectArgs callee shape ops.reverse = .ok args)
    (hcallee : callee.entered? args = some (g, given))
    (hentered : ∀ locals, Machine.admission g given (f :: fs).length st = .ok locals →
      P.FrameOf (callee.entryFlag carried flag) ⟨g, 0, rest.length, locals⟩)
    (hframe : P.FrameOf flag { f with ip := next }) (hframes : List.Forall₂ P.FrameOf flags fs)
    (hrest : ∀ v ∈ rest, P.Holds v) (hw : P.Tracks w) :
    P.Leads ⟨⟨.bytecode, outer, .of (ops ++ callee :: rest) (f :: fs) st w⟩, flag :: flags⟩
      (callee.noted flag args) := by
  cases hlocals : Machine.admission g given (f :: fs).length st with
  | error e =>
      exact Or.inl (Fails.of_stepFrame (((Machine.stepFrame_of hfetch).trans
        (Machine.execute_call_entered hops hargs hcallee)).trans
        (Machine.andAdvance_error (Machine.enterFrame_refused hlocals))))
  | ok locals =>
      exact Or.inr ⟨_, advances_entered ops rest hfetch hops hargs hcallee hlocals,
        Checkpoint.stands (hentered locals hlocals) (List.Forall₂.cons hframe hframes) hrest hw, rfl⟩

/-- A call of a host function of the program. -/
theorem leads_native {n : Native Value} (hn : P.natives n)
    (hfetch : Machine.fetch f = .ok (.call shape, next)) (hops : ops.length = shape.slots)
    (hargs : collectArgs (.native n) shape ops.reverse = .ok args) (hall : args.All P.Holds)
    (hframe : P.FrameOf flag { f with ip := next }) (hframes : List.Forall₂ P.FrameOf flags fs)
    (hrest : ∀ v ∈ rest, P.Holds v) (hw : P.Tracks w) :
    P.Leads ⟨⟨.bytecode, outer, .of (ops ++ .native n :: rest) (f :: fs) st w⟩, flag :: flags⟩
      (n.noted args) := by
  obtain ⟨hrole, _, hanswer⟩ := P.answers n hn
  obtain ⟨r, hr, hheld⟩ := hanswer args hall
  have hrespond : n.respond host args = .done r := by
    unfold Native.respond
    rw [hrole]
    exact hr
  have hcall : Passes host carried
      ⟨⟨.bytecode, outer, .of (ops ++ .native n :: rest) (f :: fs) st w⟩, flag :: flags⟩
      (n.noted args)
      ⟨⟨.action (n.respond host args), .operand :: outer,
        .of rest ({ f with ip := next } :: fs) st w⟩, flag :: flags⟩ :=
    passes_native ops rest hfetch hops hargs
  rw [hrespond] at hcall
  have hanswered := hcall.then_silent passes_done
  exact leads_answered hheld hframe hframes hrest hw (hanswered.advances_of_ne (by simp)) rfl

/-- **A call leads to a checkpoint or fails.** -/
theorem leads_call (hfinds : P.Finds flag callee)
    (hfetch : Machine.fetch f = .ok (.call shape, next)) (hlength : ops.length = shape.slots)
    (hframe : P.FrameOf flag { f with ip := next }) (hframes : List.Forall₂ P.FrameOf flags fs)
    (hops : ∀ v ∈ ops, P.Holds v) (hrest : ∀ v ∈ rest, P.Holds v) (hw : P.Tracks w) :
    ∃ args, P.Leads
      ⟨⟨.bytecode, outer, .of (ops ++ callee :: rest) (f :: fs) st w⟩, flag :: flags⟩
      (callee.noted flag args) := by
  cases hargs : collectArgs callee shape ops.reverse with
  | error e =>
      exact ⟨CallArgs.none, Or.inl (Fails.of_stepFrame ((Machine.stepFrame_of hfetch).trans
        (Machine.execute_call_refused hlength hargs)))⟩
  | ok args =>
      have hall : args.All P.Holds := by
        refine P.deep.collectArgs ?_ hargs
        intro v hv
        exact hops v (List.mem_reverse.mp hv)
      refine ⟨args, ?_⟩
      -- what the callee is decides whether a frame is entered, and whether it is flagged
      cases hfinds with
      | @plain g hg =>
          refine leads_entered hfetch hlength hargs rfl ?_ hframe hframes hrest hw
          intro locals hlocals
          have hflag : (Value.function g).entryFlag carried false = false := (P.untouched g hg).1
          rw [hflag]
          exact FrameOf.plain hg (locals_of_admission hg hall hlocals)
      | @copied _ g x ls R hg hx hflag =>
          refine leads_entered hfetch hlength hargs rfl ?_ hframe hframes hrest hw
          intro locals hlocals
          have hflag : (Value.function x).entryFlag carried flag = true := hflag
          rw [hflag]
          exact FrameOf.enter hg hx hall hlocals
      | other h hfunction =>
          cases h with
          | plain | decorated => exact absurd rfl (hfunction _)
          | native hn => exact leads_native hn hfetch hlength hargs hall hframe hframes hrest hw
          | @method m hreceiver hg =>
              refine leads_entered hfetch hlength hargs rfl ?_ hframe hframes hrest hw
              intro locals hlocals
              exact FrameOf.plain hg (locals_of_admission hg (hall.withReceiver hreceiver) hlocals)
          | type t =>
              exact leads_answered (fun v hv => P.deep.construct hall hv) hframe hframes hrest hw
                (advances_answered ops rest hfetch hlength hargs rfl (by simp) fun s => rfl) rfl
          | _ =>
              refine leads_answered ?_ hframe hframes hrest hw
                (advances_answered ops rest hfetch hlength hargs rfl (by simp) fun s => rfl) rfl
              intro v hv
              cases hv

/-! ## §5. Stretches with a call. -/

/-- A stretch of which the last part is a call. -/
theorem stretch_of_leads {x y : Watched σ} {evs evs' : List Event}
    (hpasses : Passes host carried x evs y) (hleads : P.Leads y evs')
    (hnoted : CallNoted wrappers carried (evs ++ evs'))
    (hmade : made y = made x
      + wrappers.length * ((evs ++ evs').filterMap (Event.called? carried)).length) :
    P.Stretch x := by
  rcases hleads with hfails | ⟨z, hadvances, hz, hsame⟩
  · exact Or.inl (Fails.of_passes hpasses hfails)
  · exact Or.inr ⟨z, _, hpasses.advances hadvances, hnoted, Or.inl hz, hsame.trans hmade⟩

/-- What is noted of a call in a frame that is not flagged, or of a callee that
is no function. -/
theorem callNoted_of_holds {v : Value} (h : P.Holds v)
    (hor : flag = false ∨ ∀ g, v ≠ .function g) (args : CallArgs) :
    CallNoted wrappers carried (v.noted flag args)
      ∧ (v.noted flag args).filterMap (Event.called? carried) = [] := by
  have hfunction : ∀ g : Function Value, v = .function g → v.noted flag args = [] := by
    rintro g rfl
    rcases hor with rfl | hne
    · rfl
    · exact absurd rfl (hne g)
  cases h with
  | plain | decorated =>
      rw [hfunction _ rfl]
      exact ⟨CallNoted.silent, rfl⟩
  | @native n hn =>
      obtain ⟨hrole, hother, _⟩ := P.answers n hn
      have hnoted : (Value.native n).noted flag args = [.applied n args] :=
        Native.noted_host hrole args
      rw [hnoted]
      exact ⟨CallNoted.native hother, rfl⟩
  | _ => exact ⟨CallNoted.silent, rfl⟩

/-- A call in a frame of the program. -/
theorem stretch_uncopied (hfetch : Machine.fetch f = .ok (.call shape, next))
    (hframe : P.FrameOf false { f with ip := next }) (hframes : List.Forall₂ P.FrameOf flags fs)
    (hvs : ∀ v ∈ vs, P.Holds v) (hw : P.Tracks w) :
    P.Stretch ⟨⟨.bytecode, outer, .of vs (f :: fs) st w⟩, false :: flags⟩ := by
  by_cases hlow : vs.length < shape.slots + 1
  · exact Or.inl (Fails.of_stepFrame (Machine.stepFrame_short hfetch hlow))
  · obtain ⟨ops, callee, rest, rfl, hlength⟩ := Machine.exists_operands hlow
    have hcallee : P.Holds callee := hvs callee (by simp)
    have hops : ∀ v ∈ ops, P.Holds v := fun v hv => hvs v (List.mem_append_left _ hv)
    have hrest : ∀ v ∈ rest, P.Holds v :=
      fun v hv => hvs v (List.mem_append_right _ (List.mem_cons_of_mem _ hv))
    have hcall : ∃ args, P.Leads
        ⟨⟨.bytecode, outer, .of (ops ++ callee :: rest) (f :: fs) st w⟩, false :: flags⟩
        (callee.noted false args) :=
      leads_call (Finds.of_holds hcallee) hfetch hlength hframe hframes hops hrest hw
    obtain ⟨args, hleads⟩ := hcall
    have hnoted := callNoted_of_holds hcallee (Or.inl rfl) args
    refine stretch_of_leads (Passes.refl _) hleads hnoted.1 ?_
    rw [List.nil_append, hnoted.2]
    rfl

/-- The last part of a stretch is the call of what the decorations of the callee
have answered. -/
theorem stretch_of_decorated {x y : Watched σ} {callee' : Value} {w' : World σ} {evs : List Event}
    (hcallee : P.Holds callee) (hw : P.Tracks w)
    (hall : DecoratesAll registry (fun w => w.freshObject.2) wrappers w callee callee' w' evs)
    (hpasses : Passes host carried x evs y) (hx : made x = w.nextFunction)
    (hy : made y = w'.nextFunction)
    (hleads : P.Finds true callee' → P.Tracks w' →
      ∃ args, P.Leads y (callee'.noted true args)) : P.Stretch x := by
  have hidle : World.Idle fun w : World σ => w.freshObject.2 := fun w => rfl
  rcases hcallee.kinds with ⟨g, rfl, hg⟩ | ⟨g, rfl, hg⟩ | hother
  · -- all wrappers are applied to a function of the program
    obtain ⟨z, ls, R, rfl, hz, hnew, happlied, hw', hmade⟩ := hw.decorated hidle hg hall
    obtain ⟨args, hleads⟩ := hleads (Finds.copied hg hz rfl) hw'
    rw [← hz.name] at happlied
    refine stretch_of_leads hpasses hleads (CallNoted.wrapped happlied hnew) ?_
    have hcalled : Event.called? carried (.called z) = some z :=
      if_neg (ne_true_of_eq_false hnew)
    have hcalls : (evs ++ [Event.called z]).filterMap (Event.called? carried) = [z] := by
      rw [List.filterMap_append, happlied.called?]
      exact List.filterMap_cons_some hcalled
    have hnoted : (Value.function z).noted true args = [Event.called z] := rfl
    rw [hx, hy, hmade, hnoted, hcalls, List.length_singleton, Nat.mul_one]
  · -- a result of an earlier decoration is left alone
    obtain ⟨rfl, rfl, hw', hmade⟩ := hw.kept_all hidle (fun n hn w hw => hw.not_eligible hg hn) hall
    obtain ⟨_, _, _, hplain, hcopied⟩ := decoratedBy_of_decorated hg
    obtain ⟨args, hleads⟩ := hleads (Finds.copied hplain hcopied rfl) hw'
    have hcarried := (P.copies g hg).1
    refine stretch_of_leads hpasses hleads (CallNoted.carried hcarried) ?_
    have hcalls : [Event.called g].filterMap (Event.called? carried) = [] :=
      List.filterMap_cons_none (if_pos hcarried)
    have hnoted : [] ++ (Value.function g).noted true args = [Event.called g] := rfl
    rw [hx, hy, hmade, hnoted, hcalls]
    rfl
  · -- what is no function is left alone
    obtain ⟨rfl, rfl, hw', hmade⟩ := hw.kept_all hidle
      (fun n hn w hw => Registry.isEligible_other hother) hall
    obtain ⟨args, hleads⟩ := hleads (Finds.other hcallee hother) hw'
    have hnoted : CallNoted wrappers carried (callee'.noted true args)
        ∧ (callee'.noted true args).filterMap (Event.called? carried) = [] :=
      callNoted_of_holds hcallee (Or.inr hother) args
    refine stretch_of_leads hpasses hleads hnoted.1 ?_
    rw [List.nil_append, hnoted.2, hx, hy, hmade]
    rfl

/-- **A call in a frame of a copy, behind what was inserted before it.** -/
theorem stretch_expanded {g : Function Value} {ls : List CaptureSlots} {R : Nat → Nat → Prop}
    (hf : g.DecoratedBy registry wrappers ls R f.function) (hslots : shape.slots ≤ maxSlots)
    (hcode : Decodes f.function.body.code f.ip
      (insertedBy ls (UInt8.ofNat shape.slots) ++ [.call shape]) next)
    (hframe : P.FrameOf true { f with ip := next }) (hframes : List.Forall₂ P.FrameOf flags fs)
    (hvs : ∀ v ∈ vs, P.Holds v) (hw : P.Tracks w) :
    P.Stretch ⟨⟨.bytecode, outer, .of vs (f :: fs) st w⟩, true :: flags⟩ := by
  have hcount : (UInt8.ofNat shape.slots).toNat = shape.slots := toNat_ofNat_slots hslots
  obtain ⟨m, hinserted, hcall⟩ := Decodes.split (insertedBy ls (UInt8.ofNat shape.slots))
    [.call shape] hcode
  obtain _ | ⟨hcall, hend⟩ := hcall
  cases hend
  by_cases hlow : vs.length < shape.slots + 1
  · exact Or.inl (fails_insertedBy_short hf.layers.ne_nil (by rw [hcount]; exact hlow) hinserted)
  · obtain ⟨ops, callee, rest, rfl, hlength⟩ := Machine.exists_operands hlow
    have hcallee : P.Holds callee := hvs callee (by simp)
    have hops : ∀ v ∈ ops, P.Holds v := fun v hv => hvs v (List.mem_append_left _ hv)
    have hrest : ∀ v ∈ rest, P.Holds v :=
      fun v hv => hvs v (List.mem_append_right _ (List.mem_cons_of_mem _ hv))
    -- the wrappers decorate the callee one after the other, or one of them cannot
    rcases decoratesAll_or_stuck registry (fun w => w.freshObject.2) wrappers w callee with
      ⟨callee', w', evs, hall⟩ | hstuck
    · have hrun : Passes host carried
            ⟨⟨.bytecode, outer, .of (ops ++ callee :: rest) (f :: fs) st w⟩, true :: flags⟩ evs
            ⟨⟨.bytecode, outer, .of (ops ++ callee' :: rest) ({ f with ip := m } :: fs) st w'⟩,
              true :: flags⟩
          ∨ Fails host carried outer
            ⟨⟨.bytecode, outer, .of (ops ++ callee :: rest) (f :: fs) st w⟩, true :: flags⟩ :=
        passes_insertedBy P.echoes (hlength.trans hcount.symm) hf.keeps hall hinserted
      rcases hrun with hpasses | hfails
      · have hleads : P.Finds true callee' → P.Tracks w' → ∃ args, P.Leads
            ⟨⟨.bytecode, outer, .of (ops ++ callee' :: rest) ({ f with ip := m } :: fs) st w'⟩,
              true :: flags⟩ (callee'.noted true args) :=
          fun hfinds hw' => leads_call hfinds (Machine.fetch_of hcall) hlength hframe hframes hops
            hrest hw'
        exact stretch_of_decorated hcallee hw hall hpasses rfl rfl hleads
      · exact Or.inl hfails
    · exact Or.inl (fails_insertedBy P.echoes (hlength.trans hcount.symm) hf.keeps hstuck
        hinserted)

/-! ## §6. Every stretch. -/

/-- The frame of the program after an instruction. -/
theorem FrameOf.after {i : Instruction} (hg : P.plain f.function)
    (hlocals : ∀ v ∈ f.locals, P.Holds v) (hops : ∀ v ∈ ops, P.Holds v) :
    P.FrameOf false (i.frameAfter { f with ip := next } ops) := by
  refine FrameOf.of_plain ?_ (Deep.frameAfter hlocals hops)
  rw [Instruction.frameAfter_function]
  exact hg

/-- The frame of a copy after an instruction, of which a jump was carried
along. -/
theorem FrameOf.after_moved {g : Function Value} {ls : List CaptureSlots} {R : Nat → Nat → Prop}
    {i i' : Instruction} {p : Nat} (hg : P.plain g)
    (hf : g.DecoratedBy registry wrappers ls R f.function) (hmoved : MovedBy R i i')
    (hnext : R p next) (hlocals : ∀ v ∈ f.locals, P.Holds v) (hops : ∀ v ∈ ops, P.Holds v) :
    P.FrameOf true (i'.frameAfter { f with ip := next } ops) := by
  have hat : ∃ p, R p (i'.frameAfter { f with ip := next } ops).ip := by
    rcases i'.frameAfter_ip { f with ip := next } ops with hsame | htarget
    · rw [hsame]
      exact ⟨p, hnext⟩
    · rcases hmoved with ⟨hnone, rfl⟩ | ⟨t, t', ht, rfl, hR⟩
      · rw [hnone] at htarget
        cases htarget
      · rw [Instruction.target?_retarget ht] at htarget
        rw [← Option.some.inj htarget]
        exact ⟨t, hR⟩
  obtain ⟨p, hat⟩ := hat
  have hcopied : g.DecoratedBy registry wrappers ls R
      (i'.frameAfter { f with ip := next } ops).function := by
    rw [Instruction.frameAfter_function]
    exact hf
  exact FrameOf.of_copied hg hcopied hat (Deep.frameAfter hlocals hops)

/-- A stretch that begins in a frame of the program. -/
theorem stretch_of_plain (hg : P.plain f.function) (hlocals : ∀ v ∈ f.locals, P.Holds v)
    (hframes : List.Forall₂ P.FrameOf flags fs) (hvs : ∀ v ∈ vs, P.Holds v) (hw : P.Tracks w) :
    P.Stretch ⟨⟨.bytecode, outer, .of vs (f :: fs) st w⟩, false :: flags⟩ := by
  cases hfetch : Machine.fetch f with
  | error e => exact Or.inl (Fails.of_stepFrame (Machine.stepFrame_unfetched hfetch))
  | ok fetched =>
      obtain ⟨i, next⟩ := fetched
      rcases i.isPlain_or with hi | rfl | ⟨shape, rfl⟩
      · refine stretch_plain hfetch hi ?_ (fun ops hops => FrameOf.after hg hlocals hops) hframes
          hvs hw
        intro ops out hops hr
        exact P.deep.results (P.tables _ hg) hlocals hw.bound hops hr
      · exact stretch_return hfetch hframes hvs hw
      · exact stretch_uncopied hfetch (FrameOf.plain hg hlocals) hframes hvs hw

/-- What an instruction of a copy pushes is what that of the program pushes, and
so made of the program's values. -/
theorem holds_of_moved {g : Function Value} {ls : List CaptureSlots} {R : Nat → Nat → Prop}
    {i i' : Instruction} {p : Nat} {rows : List (Nat × Instruction)} {out : List Value}
    (hg : P.plain g) (hf : g.DecoratedBy registry wrappers ls R f.function)
    (hrows : decode g.body.code = .ok rows) (hrow : (p, i) ∈ rows) (hmoved : MovedBy R i i')
    (hlocals : ∀ v ∈ f.locals, P.Holds v) (hw : P.Tracks w) (hops : ∀ v ∈ ops, P.Holds v)
    (hr : i'.results f w ops = .ok out) : ∀ v ∈ out, P.Holds v := by
  have hsame : i'.results f w ops = i.results ⟨g, p, f.base, f.locals⟩ w ops := by
    rw [hmoved.sameButTarget.results]
    refine Instruction.results_congr ops hf.constants hf.names hf.scope rfl rfl ?_
    rintro index rfl
    exact hf.captures _ (P.inRange g hg rows hrows p index hrow)
  exact P.deep.results (f := ⟨g, p, f.base, f.locals⟩) (P.tables g hg) hlocals hw.bound hops
    (hsame.symm.trans hr)

/-- A stretch that begins in a frame of a copy. -/
theorem stretch_of_copied {g : Function Value} {ls : List CaptureSlots} {R : Nat → Nat → Prop}
    {p : Nat} (hg : P.plain g) (hf : g.DecoratedBy registry wrappers ls R f.function)
    (hat : R p f.ip) (hlocals : ∀ v ∈ f.locals, P.Holds v)
    (hframes : List.Forall₂ P.FrameOf flags fs) (hvs : ∀ v ∈ vs, P.Holds v) (hw : P.Tracks w) :
    P.Stretch ⟨⟨.bytecode, outer, .of vs (f :: fs) st w⟩, true :: flags⟩ := by
  have hgoes := hf.layers.goes hat
  generalize hq : f.ip = q at hgoes
  cases hgoes with
  | ended => exact Or.inl (Fails.of_stepFrame (Machine.stepFrame_unfetched (Machine.fetch_end hq)))
  | @call _ _ next next' shape hslots hcode' hnext =>
      exact stretch_expanded hf hslots (hq ▸ hcode') (FrameOf.copied hg hf hnext hlocals) hframes hvs
        hw
  | @plain _ _ next next' i i' rows hrows hrow hcode' hcall hmark hmoved hnext =>
      have hfetch : Machine.fetch f = .ok (i', next') := Machine.fetch_of (hq ▸ hcode')
      rcases i.isPlain_or with hi | rfl | ⟨shape, rfl⟩
      · exact stretch_plain hfetch (hmoved.sameButTarget.isPlain.trans hi)
          (fun ops out hops hr => holds_of_moved hg hf hrows hrow hmoved hlocals hw hops hr)
          (fun ops hops => FrameOf.after_moved hg hf hmoved hnext hlocals hops) hframes hvs hw
      · rcases hmoved with ⟨_, rfl⟩ | ⟨t, t', ht, _⟩
        · exact stretch_return hfetch hframes hvs hw
        · cases ht
      · cases hcall

/-- **From a checkpoint on, there is a next stretch.** -/
theorem stretch {x : Watched σ} (hx : P.Checkpoint x) : P.Stretch x := by
  cases hx with
  | stands hframe hframes hvs hw =>
      cases hframe with
      | plain hg hlocals => exact stretch_of_plain hg hlocals hframes hvs hw
      | copied hg hx hat hlocals => exact stretch_of_copied hg hx hat hlocals hframes hvs hw

end Stretches

end Program

end CallDecoration
