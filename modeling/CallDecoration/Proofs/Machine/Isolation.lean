/-
  CallDecoration.Proofs.Machine.Isolation
  ──────────────────────────────────────
  **When a call leaves alone what lies below it.**  All frames share one value
  stack.  A frame that ends is cut back to its base, but an instruction only
  looks at the height of the whole stack, so it can take values that other
  frames have pushed.

  A call is isolated (`Isolated`) if the stack after it is the stack before
  it, if the values on that stack make no difference to it, and if each
  instruction in it underflows when its own frame has too few values.  This
  holds exactly for the calls in which no instruction reaches below its frame
  while the stack as a whole is high enough (`isolated_iff_confined`).
-/
import CallDecoration.Proofs.Machine.Nesting

namespace CallDecoration

variable {σ : Type}

namespace RunState

/-! ## §1. Calls that are isolated, and calls that are confined. -/

/-- How many values a frame has pushed and still holds. -/
def own (s : RunState σ) (f : Frame) : Nat :=
  s.machine.stack.height - f.base

/-- The state with other values on its stack. -/
def withStack (values : List Value) (s : RunState σ) : RunState σ :=
  { s with machine := { s.machine with stack := .ofList values } }

/-- **A call that is isolated** from the values on the stack at its start. -/
structure Isolated (host : Host σ) (m : Machine σ) (g : Function Value) (args : CallArgs) :
    Prop where
  /-- However the call ends, the stack is what it was. -/
  restored : ∀ fuel r n,
    run host fuel (ofCall host m (.function g) args) = some (r, n) → n.stack = m.stack
  /-- Over other values, as many, the call takes the same steps; the values
  themselves stay where they are. -/
  independent : ∀ below : List Value, below.length = m.stack.height → ∀ k, ∃ above,
    ((step host)^[k] (ofCall host m (.function g) args)).machine.stack.items
        = above ++ m.stack.items
      ∧ (step host)^[k] (ofCall host { m with stack := .ofList below } (.function g) args)
        = ((step host)^[k] (ofCall host m (.function g) args)).withStack (above ++ below)
  /-- An instruction that needs more values than its frame holds fails. -/
  underflows : ∀ t f i, Reaches host (ofCall host m (.function g) args) t →
    t.upcoming? = some (f, i) → t.own f < i.operands →
      (Machine.stepFrame t.machine).1 = .error .stackUnderflow

/-- **What keeps an instruction above the values it should not reach:** its
frame holds its operands, or the whole stack does not.  In the second case
an operator drops the one value there may be, which must not be of `base`
values below the call. -/
def Confined (base : Nat) (s : RunState σ) : Prop :=
  ∀ f i, s.upcoming? = some (f, i) →
    i.operands ≤ s.own f
      ∨ (s.machine.stack.height < i.operands ∧ (i.isOperator = true → base = 0))

/-- The instruction underflows exactly when the whole stack is too low. -/
theorem stepFrame_underflow_iff {t : RunState σ} {f : Frame} {i : Instruction}
    (h : t.upcoming? = some (f, i)) :
    (Machine.stepFrame t.machine).1 = .error .stackUnderflow
      ↔ t.machine.stack.height < i.operands := by
  obtain ⟨pending, next, vs, fs, st, w, rfl, hfetch⟩ := upcoming?_eq_some h
  show (Machine.stepFrame (.of vs (f :: fs) st w)).1 = _ ↔ vs.length < i.operands
  rw [Machine.stepFrame_of hfetch]
  exact Machine.execute_underflow_iff i vs

/-! ## §2. Two runs over different values. -/

variable {host : Host σ}

/-- Two states of a call that differ at most in the values below it. -/
inductive Alike (floor : List Frame) (below below' : List Value) :
    RunState σ → RunState σ → Prop where
  | inside {focus : Focus σ} {pending : List (Pending σ)} {frames : List Frame}
      (above : List Value) (st : Settings) (w : World σ)
      (h : Inside below.length floor focus pending frames) :
      Alike floor below below' ⟨focus, pending, .of (above ++ below) frames st w⟩
        ⟨focus, pending, .of (above ++ below') frames st w⟩
  | ended (r : Except RunError Value) (st : Settings) (w : World σ) :
      Alike floor below below' ⟨.answer r, [], .of below floor st w⟩
        ⟨.answer r, [], .of below' floor st w⟩

section Steps

variable {floor : List Frame} {below below' : List Value} {pending : List (Pending σ)}
  {f : Frame} {frames : List Frame} {above : List Value} {st : Settings} {w : World σ}

/-- Cutting back to a height at or above the lower part cuts the upper part
only. -/
theorem drop_above {lower : List Value} {base : Nat} (h : lower.length ≤ base) :
    (above ++ lower).drop ((above ++ lower).length - base)
      = above.drop (above.length + lower.length - base) ++ lower := by
  rw [List.length_append, List.drop_append]
  have hnone : above.length + lower.length - base - above.length = 0 := by omega
  rw [hnone, List.drop_zero]

theorem drop_to_lower {lower : List Value} :
    (above ++ lower).drop ((above ++ lower).length - lower.length) = lower := by
  rw [drop_above (Nat.le_refl _)]
  simp

theorem alike_resume (hlen : below'.length = below.length) (focus : Focus σ) (v : Value)
    (h : Nested below.length floor .code pending frames) :
    Alike floor below below' (resume v ⟨focus, pending, .of (above ++ below) frames st w⟩)
      (resume v ⟨focus, pending, .of (above ++ below') frames st w⟩) := by
  have hheight : (above ++ below').length = (above ++ below).length := by
    rw [List.length_append, List.length_append, hlen]
  by_cases hroom : (above ++ below).length < st.maxValueStack
  · rw [resume_of hroom, resume_of (by rw [hheight]; exact hroom)]
    exact Alike.inside (v :: above) st w (.bytecode h)
  · rw [resume_full hroom, resume_full (by rw [hheight]; exact hroom)]
    exact Alike.inside above st w (.failed _ h)

theorem alike_activate (hlen : below'.length = below.length) (focus : Focus σ)
    (g : Function Value) (args : CallArgs)
    (h : Nested below.length floor .outside pending frames) :
    Alike floor below below'
      (activate g args ⟨focus, pending, .of (above ++ below) frames st w⟩)
      (activate g args ⟨focus, pending, .of (above ++ below') frames st w⟩) := by
  have hheight : (above ++ below').length = (above ++ below).length := by
    rw [List.length_append, List.length_append, hlen]
  cases hslots : Machine.admission g args frames.length st with
  | error e =>
      rw [activate_refused hslots, activate_refused hslots]
      exact Alike.inside above st w (.answer _ h)
  | ok locals =>
      rw [activate_of hslots, activate_of hslots, hheight]
      have hle : below.length ≤ (above ++ below).length := by simp
      have hnested := h.activate (f := ⟨g, 0, (above ++ below).length, locals⟩) hle
      exact Alike.inside above st w (.bytecode hnested)

theorem alike_enter (hlen : below'.length = below.length) (focus : Focus σ) (callee : Value)
    (args : CallArgs) (h : Nested below.length floor .outside pending frames) :
    Alike floor below below'
      (enter host callee args ⟨focus, pending, .of (above ++ below) frames st w⟩)
      (enter host callee args ⟨focus, pending, .of (above ++ below') frames st w⟩) := by
  cases callee with
  | function g => exact alike_activate hlen focus g args h
  | method m => exact alike_activate hlen focus m.function (args.withReceiver m.receiver) h
  | native n => exact Alike.inside above st w (.action _ h)
  | _ => exact Alike.inside above st w (.answer _ h)

/-- The end of the running frame. -/
theorem alike_return (hlen : below'.length = below.length) (v : Value)
    (h : Nested below.length floor .code pending (f :: frames)) :
    Alike floor below below'
      (afterReturn v ⟨.bytecode, pending,
        .of ((above ++ below).drop ((above ++ below).length - f.base)) frames st w⟩)
      (afterReturn v ⟨.bytecode, pending,
        .of ((above ++ below').drop ((above ++ below').length - f.base)) frames st w⟩) := by
  have hbase := h.base_le
  rcases h.pop with ⟨rfl, rfl, hf⟩ | ⟨rest, rfl, houter⟩ | ⟨limit, b, rest, rfl, hne, hcode⟩
  · -- the call itself ends, and nothing of it is left above the lower part
    rw [hf, drop_to_lower, ← hlen, drop_to_lower, afterReturn_last, afterReturn_last]
    exact Alike.ended (.ok v) st w
  · rw [afterReturn_last, afterReturn_last, drop_above hbase, drop_above (by omega), hlen]
    exact Alike.inside _ st w (.answer _ houter)
  · rw [afterReturn_inner hne, afterReturn_inner hne, drop_above hbase, drop_above (by omega), hlen]
    exact alike_resume hlen .bytecode v hcode

/-- One instruction. -/
theorem alike_bytecode (hlen : below'.length = below.length)
    (h : Nested below.length floor .code pending frames)
    (hconf : Confined below.length ⟨.bytecode, pending, .of (above ++ below) frames st w⟩) :
    Alike floor below below' (step host ⟨.bytecode, pending, .of (above ++ below) frames st w⟩)
      (step host ⟨.bytecode, pending, .of (above ++ below') frames st w⟩) := by
  obtain ⟨f, rest, rfl, hbase⟩ := h.exists_frame
  cases hfetch : Machine.fetch f with
  | error e =>
      rw [step_failed (Machine.stepFrame_unfetched hfetch),
        step_failed (Machine.stepFrame_unfetched hfetch)]
      exact Alike.inside above st w (.failed e h)
  | ok fetched =>
      obtain ⟨i, next⟩ := fetched
      -- the frame that executes has moved past the instruction
      have hmoved : Nested below.length floor .code pending ({ f with ip := next } :: rest) :=
        h.replace rfl
      rcases hconf f i (upcoming?_of hfetch) with hown | ⟨hlow, hop⟩
      · obtain ⟨ops, kept, rfl, hops⟩ :
            ∃ ops kept, above = ops ++ kept ∧ ops.length = i.operands := by
          refine Machine.exists_taken ?_
          change i.operands ≤ (above ++ below).length - f.base at hown
          rw [List.length_append] at hown
          omega
        obtain ⟨eff, hresp, heff⟩ := Machine.execute_effect { f with ip := next } rest st w
          (kept ++ below).length i ops hops
        have hone := (Machine.stepFrame_of hfetch).trans (heff (kept ++ below) rfl)
        have htwo := (Machine.stepFrame_of hfetch).trans (heff (kept ++ below')
          (by rw [List.length_append, List.length_append, hlen]))
        rw [List.append_assoc, List.append_assoc]
        cases eff with
        | goes out f' w' =>
            rw [step_advance hone, step_advance htwo, ← List.append_assoc, ← List.append_assoc]
            exact Alike.inside (out ++ kept) st w' (.bytecode (hmoved.replace hresp.1))
        | fails e left =>
            rw [step_failed hone, step_failed htwo, ← List.append_assoc, ← List.append_assoc]
            exact Alike.inside (left ++ kept) st w (.failed e hmoved)
        | enters g locals =>
            rw [step_advance hone, step_advance htwo]
            have hheight : (kept ++ below').length = (kept ++ below).length := by
              rw [List.length_append, List.length_append, hlen]
            rw [hheight]
            exact Alike.inside kept st w (.bytecode (hmoved.push (by simp)))
        | calls callee args =>
            rw [step_external hone, step_external htwo]
            exact alike_enter hlen .bytecode callee args (.operand hmoved)
        | returns v =>
            rw [step_returned hone, step_returned htwo]
            exact alike_return (f := { f with ip := next }) hlen v hmoved
      · have hlow' : (above ++ below').length < i.operands := by
          change (above ++ below).length < i.operands at hlow
          rw [List.length_append] at hlow ⊢
          omega
        rw [step_failed (Machine.stepFrame_short hfetch hlow),
          step_failed (Machine.stepFrame_short hfetch hlow')]
        by_cases hi : i.isOperator = true
        · -- there is nothing below the call that the operator could have dropped
          have hnil : below = [] := List.length_eq_zero_iff.mp (hop hi)
          have hnil' : below' = [] := List.length_eq_zero_iff.mp (by rw [hlen, hnil]; rfl)
          subst hnil
          subst hnil'
          rw [if_pos hi]
          exact Alike.inside [] st w (.failed _ hmoved)
        · rw [if_neg hi, if_neg hi]
          exact Alike.inside above st w (.failed _ hmoved)

/-- One request of a host function. -/
theorem alike_action (hlen : below'.length = below.length) (a : Action σ Value)
    (h : Nested below.length floor .outside pending frames) :
    Alike floor below below' (step host ⟨.action a, pending, .of (above ++ below) frames st w⟩)
      (step host ⟨.action a, pending, .of (above ++ below') frames st w⟩) := by
  cases a with
  | done r => exact Alike.inside above st w (.answer r h)
  | call callee args next => exact alike_enter hlen _ callee args (.host next h)
  | inspect next =>
      have hgauge : gauge (.of (above ++ below') frames st w : Machine σ)
          = gauge (.of (above ++ below) frames st w) := by
        show (⟨frames.length, (above ++ below').length, st⟩ : Gauge)
          = ⟨frames.length, (above ++ below).length, st⟩
        rw [List.length_append, List.length_append, hlen]
      show Alike floor below below' ⟨.action (next (gauge (.of (above ++ below) frames st w))), _, _⟩
        ⟨.action (next (gauge (.of (above ++ below') frames st w))), _, _⟩
      rw [hgauge]
      exact Alike.inside above st w (.action _ h)
  | read next => exact Alike.inside above st w (.action (next w) h)
  | write world next => exact Alike.inside above st world (.action next h)

/-- An answer that a call or a host function waits for. -/
theorem alike_answer (hlen : below'.length = below.length) (r : Except RunError Value)
    (h : Nested below.length floor .outside pending frames) :
    Alike floor below below' (step host ⟨.answer r, pending, .of (above ++ below) frames st w⟩)
      (step host ⟨.answer r, pending, .of (above ++ below') frames st w⟩) := by
  cases h with
  | host next houter => exact Alike.inside above st w (.action (next r) houter)
  | operand houter =>
      cases r with
      | ok v => exact alike_resume hlen _ v houter
      | error e => exact Alike.inside above st w (.failed e houter)

/-- An error that cuts an activation back. -/
theorem alike_failed (hlen : below'.length = below.length) (e : RunError)
    (h : Nested below.length floor .code pending frames) :
    Alike floor below below'
      (step host ⟨.answer (.error e), pending, .of (above ++ below) frames st w⟩)
      (step host ⟨.answer (.error e), pending, .of (above ++ below') frames st w⟩) := by
  rcases h.unwind with ⟨rfl, hfloor⟩ | ⟨limit, b, rest, rfl, hb, houter⟩
  · show Alike floor below below'
      ⟨.answer (.error e), [], Machine.unwind floor.length below.length _⟩
      ⟨.answer (.error e), [], Machine.unwind floor.length below.length _⟩
    rw [Machine.unwind_of, Machine.unwind_of, hfloor, drop_to_lower, ← hlen, drop_to_lower]
    exact Alike.ended (.error e) st w
  · show Alike floor below below' ⟨.answer (.error e), rest, Machine.unwind limit b _⟩
      ⟨.answer (.error e), rest, Machine.unwind limit b _⟩
    rw [Machine.unwind_of, Machine.unwind_of, drop_above hb, drop_above (by omega), hlen]
    exact Alike.inside _ st w (.answer _ houter)

end Steps

/-- **One step keeps two runs alike,** if the instruction that it executes is
confined. -/
theorem alike_step {floor : List Frame} {below below' : List Value} {s s' : RunState σ}
    (hlen : below'.length = below.length) (hconf : Confined below.length s)
    (h : Alike floor below below' s s') :
    Alike floor below below' (step host s) (step host s') := by
  cases h with
  | ended r st w =>
      rw [step_ended, step_ended]
      exact Alike.ended r st w
  | inside above st w hinside =>
      cases hinside with
      | bytecode hnested => exact alike_bytecode hlen hnested hconf
      | action a hnested => exact alike_action hlen a hnested
      | answer r hnested => exact alike_answer hlen r hnested
      | failed e hnested => exact alike_failed hlen e hnested

/-- The two runs begin alike. -/
theorem alike_start {m : Machine σ} {below : List Value} (g : Function Value) (args : CallArgs)
    (hlen : below.length = m.stack.height) :
    Alike m.frames.items m.stack.items below (ofCall host m (.function g) args)
      (ofCall host { m with stack := .ofList below } (.function g) args) := by
  obtain ⟨values, floor, st, w, rfl⟩ := Machine.exists_of m
  change below.length = values.length at hlen
  show Alike floor values below (activate g args ⟨.bytecode, [], .of values floor st w⟩)
    (activate g args ⟨.bytecode, [], .of below floor st w⟩)
  cases hslots : Machine.admission g args floor.length st with
  | error e =>
      rw [activate_refused hslots, activate_refused hslots]
      exact Alike.ended (.error e) st w
  | ok locals =>
      rw [activate_of hslots, activate_of hslots, hlen]
      refine Alike.inside [] st w (.bytecode ?_)
      exact Nested.outermost [] ⟨g, 0, values.length, locals⟩ rfl (by simp)

/-! ## §3. The condition. -/

section Condition

variable {m : Machine σ} {g : Function Value} {args : CallArgs}

/-- **A confined call keeps runs over different values alike.** -/
theorem alike_iterate (below : List Value) (hlen : below.length = m.stack.height)
    (hconf : ∀ t, Reaches host (ofCall host m (.function g) args) t →
      Confined m.stack.height t) (k : Nat) :
    Alike m.frames.items m.stack.items below ((step host)^[k] (ofCall host m (.function g) args))
      ((step host)^[k] (ofCall host { m with stack := .ofList below } (.function g) args)) := by
  induction k with
  | zero => exact alike_start g args hlen
  | succ k ih =>
      rw [Function.iterate_succ_apply', Function.iterate_succ_apply']
      rw [Stack.height_eq_length] at hlen hconf
      exact alike_step hlen (hconf _ ⟨k, rfl⟩) ih

/-- A confined call is isolated. -/
theorem isolated_of_confined
    (hconf : ∀ t, Reaches host (ofCall host m (.function g) args) t →
      Confined m.stack.height t) : Isolated host m g args where
  restored fuel r n hrun := by
    obtain ⟨k, hk⟩ := reaches_of_run hrun
    have halike := alike_iterate m.stack.items m.stack.height_eq_length.symm hconf k
    rw [hk] at halike
    -- the answer has been handed on, so the states have ended
    generalize hs : (⟨.answer r, [], n⟩ : RunState σ) = s at halike
    generalize (step host)^[k] _ = s' at halike
    cases halike with
    | ended r' st w =>
        cases hs
        exact (Stack.eq_ofList m.stack).symm
    | inside above st w hinside =>
        cases hs
        cases hinside with
        | answer r h => exact absurd rfl h.pending_ne_nil
        | failed e h => exact absurd rfl h.pending_ne_nil
  independent below hlen k := by
    have halike := alike_iterate below hlen hconf k
    generalize (step host)^[k] (ofCall host m (.function g) args) = s at halike ⊢
    generalize (step host)^[k] (ofCall host { m with stack := .ofList below } (.function g) args)
      = s' at halike ⊢
    cases halike with
    | ended r st w => exact ⟨[], rfl, rfl⟩
    | inside above st w hinside => exact ⟨above, rfl, rfl⟩
  underflows t f i hreach hup hown := by
    rcases hconf t hreach f i hup with hle | ⟨hlow, _⟩
    · omega
    · exact (stepFrame_underflow_iff hup).mpr hlow

/-- An isolated call is confined. -/
theorem confined_of_isolated (h : Isolated host m g args) (t : RunState σ)
    (hreach : Reaches host (ofCall host m (.function g) args) t) :
    Confined m.stack.height t := by
  intro f i hup
  by_cases hown : i.operands ≤ t.own f
  · exact Or.inl hown
  · have hfail := h.underflows t f i hreach hup (by omega)
    have hlow := (stepFrame_underflow_iff hup).mp hfail
    refine Or.inr ⟨hlow, ?_⟩
    intro hop
    -- the operator leaves an empty stack, which still holds what was below the call
    obtain ⟨k, hk⟩ := hreach
    obtain ⟨above, habove, _⟩ := h.independent m.stack.items m.stack.height_eq_length.symm (k + 1)
    obtain ⟨pending, next, vs, fs, st, w, rfl, hfetch⟩ := upcoming?_eq_some hup
    rw [Function.iterate_succ_apply', hk, step_failed (Machine.stepFrame_short hfetch hlow),
      if_pos hop] at habove
    change [] = above ++ m.stack.items at habove
    rw [Stack.height_eq_length, (List.append_eq_nil_iff.mp habove.symm).2]
    rfl

/-- **A call is isolated exactly when it is confined:** the stack is restored,
the values on it make no difference and missing operands are reported, as long
as no instruction of the call finds below its frame what the frame lacks. -/
theorem isolated_iff_confined :
    Isolated host m g args ↔ ∀ t, Reaches host (ofCall host m (.function g) args) t →
      Confined m.stack.height t :=
  ⟨confined_of_isolated, isolated_of_confined⟩

end Condition

/-- A function that pops a value without having pushed one. -/
def popsFirst : Function Value :=
  ⟨⟨1⟩, "g", ⟨"g", encode [.pop, .pushNil, .return], #[], #[], Signature.none, 0⟩,
    ⟨⟨0⟩, "m"⟩, [], [], #[]⟩

/-- A function that pushes 7 and then calls that one by its name. -/
def pushesAndCalls : Function Value :=
  ⟨⟨2⟩, "f", ⟨"f", encode [.pushSmall 7, .loadGlobal 0, .call (CallShape.plain 0), .return], #[],
    #["g"], Signature.none, 0⟩, ⟨⟨0⟩, "m"⟩, [], [], #[]⟩

/-- The world in which both have been made and the name is bound. -/
def popsFirstWorld : World Unit :=
  ((World.new ()).newScope "m").2.freshFunction.2.freshFunction.2.bind ⟨0⟩ "g"
    (.function popsFirst)

/-- The machine in which the call begins: the caller has pushed 7 and is past its
call instruction. -/
def popsFirstMachine : Machine Unit :=
  .of [.int 7] [⟨pushesAndCalls, 8, 0, #[]⟩] .standard popsFirstWorld

/-- A host whose functions answer nil. -/
def popsFirstHost : Host Unit :=
  fun _ _ => .done (.ok .nil)

/-- The caller is called on a machine at rest. -/
def popsFirstStart : RunState Unit :=
  ofCall popsFirstHost (.new .standard popsFirstWorld) (.function pushesAndCalls) .none

/-- **A call that is not isolated:** in the run of the caller, the function that is
called takes the 7 from below its frame.  So it answers nil, and so does the caller. -/
theorem popsFirst_not_isolated :
    (∃ t, Reaches popsFirstHost popsFirstStart t
        ∧ t.callee? = some (.function popsFirst)
        ∧ (step popsFirstHost t).machine
          = (ofCall popsFirstHost popsFirstMachine (.function popsFirst) .none).machine)
      ∧ run popsFirstHost 10 popsFirstStart = some (.ok .nil, .new .standard popsFirstWorld)
      ∧ ¬ Isolated popsFirstHost popsFirstMachine popsFirst .none := by
  refine ⟨⟨_, ⟨2, rfl⟩, rfl, rfl⟩, rfl, ?_⟩
  intro h
  have hrun : run popsFirstHost 5
      (ofCall popsFirstHost popsFirstMachine (.function popsFirst) .none)
        = some (.ok .nil, { popsFirstMachine with stack := .empty }) := rfl
  have hstack : Stack.empty = popsFirstMachine.stack := h.restored 5 _ _ hrun
  have hnil : ([] : List Value) = [.int 7] := Stack.ofList_inj.mp hstack
  cases hnil

end RunState

end CallDecoration
