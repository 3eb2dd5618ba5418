/-
  CallDecoration.Proofs.Decoration.HandOver
  ──────────────────────────────────────
  **One expanded call, for any adapter.**  The inserted instructions pack the
  operands away, have the entry point make a decorator, and let it decorate
  the callee while nothing but the packed operands lies above what was on the
  stack before (`attemptsIn_decorating`).  However the decoration ends, they go
  on with its answer: put the operands back above what it gave, or fail as it
  failed (`expanded_call_hands_over`).
-/
import CallDecoration.Proofs.Machine.CallOperands
import CallDecoration.Proofs.Machine.Suspension
import CallDecoration.Proofs.Decoration.Expansion

namespace CallDecoration

variable {σ : Type}

/-! ## §1. The arguments of the entry point. -/

/-- **What the entry point is called with:** the parts of the adapter. -/
theorem collectArgs_entryCall (callee transformation : Value) (extras : List Value)
    {kwExtras : Dict String Value} (h : (Dict.keys kwExtras).Nodup) :
    collectArgs callee entryCall [transformation, .tuple extras, .dict kwExtras]
      = .ok ⟨transformation :: extras, kwExtras⟩ := by
  have hparts : CallParts.Describes ⟨[transformation], [], some extras, some kwExtras⟩ entryCall
      [transformation, .tuple extras, .dict kwExtras] := ⟨⟨rfl, rfl, rfl, rfl⟩, rfl, h⟩
  exact (collectArgs_eq_ok_iff rfl).mpr ⟨_, hparts, rfl⟩

/-- The adapter before it is resolved, as a decorator keeps it. -/
def Adapter.unresolved (a : Adapter Value) : Adapter Value :=
  Adapter.new a.transformation a.extras a.kwExtras

/-- The decorator that the entry point makes in a world for an adapter. -/
def Adapter.decoratorIn (a : Adapter Value) (registry : RegistryId) (w : World σ) : Native Value :=
  ⟨w.freshObject.1, a.identifier, .decorator registry a.unresolved⟩

/-- **A function that was instrumented with an adapter,** and perhaps again since
then. -/
inductive Function.InstrumentedWith (slots : CaptureSlots) (registry : RegistryId)
    (a : Adapter Value) : Function Value → Prop where
  /-- The copy that the instrumentation makes. -/
  | made {g : Function Value} {body : Chunk Value} {entry : Native Value} (id : FunctionId)
      (hslots : g.freshSlots? = some slots) (hbody : g.instrumentedBody = .ok body)
      (hrole : entry.role = .entryPoint registry) :
      InstrumentedWith slots registry a (g.copyWith id body (.native entry) a)
  /-- A copy that a later instrumentation makes of it, with any adapter. -/
  | again {g : Function Value} {body : Chunk Value} {entry : Value} {a' : Adapter Value}
      (id : FunctionId) (h : InstrumentedWith slots registry a g)
      (hbody : g.instrumentedBody = .ok body) :
      InstrumentedWith slots registry a (g.copyWith id body entry a')
  /-- The same function under another identity. -/
  | renumbered {g : Function Value} (id : FunctionId) (h : InstrumentedWith slots registry a g) :
      InstrumentedWith slots registry a { g with id := id }

/-- **Where the function keeps the entry point and the adapter.** -/
theorem Function.InstrumentedWith.captures {slots : CaptureSlots} {registry : RegistryId}
    {a : Adapter Value} {g' : Function Value} (h : g'.InstrumentedWith slots registry a) :
    ∃ entry : Native Value, entry.role = .entryPoint registry
      ∧ g'.captures[slots.entry.toNat]?.map Capture.value = some (.native entry)
      ∧ g'.captures[slots.adapter.toNat]?.map Capture.value = some a.asTuple := by
  induction h with
  | @made g body entry id hslots hbody hrole =>
      obtain ⟨hentry, hadapter⟩ := Function.captures_copyWith hslots id body (.native entry) a
      exact ⟨entry, hrole, hentry, hadapter⟩
  | again id h hbody ih =>
      -- a copy appends to the captures, so slots keep what is in them
      obtain ⟨entry, hrole, hentry, hadapter⟩ := ih
      exact ⟨entry, hrole, Function.capture_copyWith hentry id _ _ _,
        Function.capture_copyWith hadapter id _ _ _⟩
  | renumbered id h ih => exact ih

/-! ## §2. Steps of the inserted instructions. -/

namespace RunState

variable {host : Host σ} {pending : List (Pending σ)} {f : Frame} {fs : List Frame}
  {st : Settings} {w : World σ}

/-- An instruction of the frame's code that keeps the frame and the world, and
leaves the values `vs`. -/
theorem attemptsIn_at (vs ops rest : List Value) {p q : Nat} {i : Instruction} {out : List Value}
    (hcode : decodeAt f.function.body.code p = .ok (i, q)) (hi : i.isPlain = true)
    (hops : ops.length = i.operands) (hr : i.results f w ops = .ok out)
    (hfits : i.Fits st rest out) (hvs : vs = out ++ rest)
    (hframe : i.frameAfter { f with ip := q } ops = { f with ip := q })
    (hworld : i.worldAfter f w ops = w) :
    AttemptsIn host 1 ⟨.bytecode, pending, .of (ops ++ rest) ({ f with ip := p } :: fs) st w⟩ []
      ⟨.bytecode, pending, .of vs ({ f with ip := q } :: fs) st w⟩ := by
  have hfetch : Machine.fetch { f with ip := p } = .ok (i, q) := Machine.fetch_of hcode
  have hexec : Machine.execute i (.of (ops ++ rest) ({ f with ip := q } :: fs) st w)
      = (.ok .advance, .of vs ({ f with ip := q } :: fs) st w) := by
    rw [← Instruction.results_ip q] at hr
    rw [Machine.execute_ok hi hops hr hfits, Instruction.worldAfter_ip, hworld, hframe, hvs]
  have hcallee : callee? (⟨.bytecode, pending, .of (ops ++ rest) ({ f with ip := p } :: fs) st w⟩ :
      RunState σ) = none := callee?_plain hfetch (Watched.shape?_of_isPlain hi)
  exact AttemptsIn.silent (step_advance ((Machine.stepFrame_of hfetch).trans hexec)) hcallee
    (AttemptsIn.refl _)

theorem attemptsIn_buildTuple {p q : Nat} {count : UInt8} {ops rest : List Value}
    (hcode : decodeAt f.function.body.code p = .ok (.buildTuple count, q))
    (hcount : ops.length = count.toNat) (hroom : rest.length + 1 ≤ st.maxValueStack) :
    AttemptsIn host 1 ⟨.bytecode, pending, .of (ops ++ rest) ({ f with ip := p } :: fs) st w⟩ []
      ⟨.bytecode, pending, .of (.tuple ops.reverse :: rest) ({ f with ip := q } :: fs) st w⟩ :=
  attemptsIn_at _ ops rest hcode rfl hcount rfl (Or.inr (Or.inr hroom)) rfl rfl rfl

theorem attemptsIn_unpackSequence {p q : Nat} {count : UInt8} (ops rest : List Value)
    (hcode : decodeAt f.function.body.code p = .ok (.unpackSequence count, q))
    (hcount : ops.length = count.toNat) (hroom : rest.length + ops.length ≤ st.maxValueStack) :
    AttemptsIn host 1
      ⟨.bytecode, pending, .of (.tuple ops.reverse :: rest) ({ f with ip := p } :: fs) st w⟩ []
      ⟨.bytecode, pending, .of (ops ++ rest) ({ f with ip := q } :: fs) st w⟩ :=
  attemptsIn_at _ [.tuple ops.reverse] rest hcode rfl rfl
    (Instruction.results_unpackSequence hcount f w) (Or.inr (Or.inr hroom)) rfl rfl rfl

theorem attemptsIn_swap {p q : Nat} {x y : Value} {rest : List Value}
    (hcode : decodeAt f.function.body.code p = .ok (.swap, q)) :
    AttemptsIn host 1 ⟨.bytecode, pending, .of (x :: y :: rest) ({ f with ip := p } :: fs) st w⟩ []
      ⟨.bytecode, pending, .of (y :: x :: rest) ({ f with ip := q } :: fs) st w⟩ :=
  attemptsIn_at _ [x, y] rest hcode rfl rfl rfl (Or.inr (Or.inl rfl)) rfl rfl rfl

theorem attemptsIn_loadCapture {p q : Nat} {slot : UInt16} {v : Value} {vs : List Value}
    (hcode : decodeAt f.function.body.code p = .ok (.loadCapture slot, q))
    (hv : f.function.captures[slot.toNat]?.map Capture.value = some v)
    (hroom : vs.length + 1 ≤ st.maxValueStack) :
    AttemptsIn host 1 ⟨.bytecode, pending, .of vs ({ f with ip := p } :: fs) st w⟩ []
      ⟨.bytecode, pending, .of (v :: vs) ({ f with ip := q } :: fs) st w⟩ :=
  attemptsIn_at _ [] vs hcode rfl rfl (Instruction.results_loadCapture hv w) (Or.inr (Or.inr hroom))
    rfl rfl rfl

theorem attemptsIn_synthetic {p q : Nat} {vs : List Value}
    (hcode : decodeAt f.function.body.code p = .ok (.synthetic, q)) :
    AttemptsIn host 1 ⟨.bytecode, pending, .of vs ({ f with ip := p } :: fs) st w⟩ []
      ⟨.bytecode, pending, .of vs ({ f with ip := q } :: fs) st w⟩ :=
  attemptsIn_at _ [] vs hcode rfl rfl rfl (Or.inl rfl) rfl rfl rfl

/-- An instruction of the frame's code that calls a host function. -/
theorem attemptsIn_native (ops rest : List Value) {p q : Nat} {shape : CallShape} {n : Native Value}
    {args : CallArgs} (hcode : decodeAt f.function.body.code p = .ok (.call shape, q))
    (hops : ops.length = shape.slots)
    (hargs : collectArgs (.native n) shape ops.reverse = .ok args) :
    AttemptsIn host 1
      ⟨.bytecode, pending, .of (ops ++ .native n :: rest) ({ f with ip := p } :: fs) st w⟩
      [.native n]
      ⟨.action (n.respond host args), .operand :: pending,
        .of rest ({ f with ip := q } :: fs) st w⟩ := by
  have hfetch : Machine.fetch { f with ip := p } = .ok (.call shape, q) := Machine.fetch_of hcode
  have hframe : Machine.stepFrame (.of (ops ++ .native n :: rest) ({ f with ip := p } :: fs) st w)
      = (.ok (.external (.native n) args), .of rest ({ f with ip := q } :: fs) st w) :=
    (Machine.stepFrame_of hfetch).trans (Machine.execute_call_external hops hargs rfl)
  have hstep : step host
        ⟨.bytecode, pending, .of (ops ++ .native n :: rest) ({ f with ip := p } :: fs) st w⟩
      = ⟨.action (n.respond host args), .operand :: pending,
          .of rest ({ f with ip := q } :: fs) st w⟩ := step_external hframe
  have hone := AttemptsIn.one hstep
  rw [callee?_call hfetch hops] at hone
  exact hone

/-- An answer that a call instruction waits for. -/
theorem attemptsIn_resume {vs : List Value} {v : Value} (hroom : vs.length < st.maxValueStack) :
    AttemptsIn host 1 ⟨.answer (.ok v), .operand :: pending, .of vs fs st w⟩ []
      ⟨.bytecode, pending, .of (v :: vs) fs st w⟩ := by
  have hstep : step host ⟨.answer (.ok v), .operand :: pending, .of vs fs st w⟩
      = resume v ⟨.answer (.ok v), pending, .of vs fs st w⟩ := rfl
  rw [resume_of hroom] at hstep
  exact AttemptsIn.silent hstep rfl (AttemptsIn.refl _)

/-- **The entry point makes a decorator.** -/
theorem attemptsIn_entry {vs : List Value} {entry : Native Value} {registry : RegistryId}
    (hrole : entry.role = .entryPoint registry) (a : Adapter Value) :
    AttemptsIn host 3
      ⟨.action (entry.respond host ⟨a.transformation :: a.extras, a.kwExtras⟩), pending,
        .of vs fs st w⟩ []
      ⟨.answer (.ok (.native (a.decoratorIn registry w))), pending,
        .of vs fs st w.freshObject.2⟩ := by
  unfold Native.respond
  rw [hrole]
  -- the world is read, replaced, and the decorator handed on
  refine AttemptsIn.silent rfl rfl (AttemptsIn.silent rfl rfl (AttemptsIn.silent rfl rfl ?_))
  exact AttemptsIn.refl _

/-- A decorator called with one value decorates it. -/
theorem respond_decoratorIn (a : Adapter Value) (registry : RegistryId) (w : World σ)
    (callee : Value) :
    (a.decoratorIn registry w).respond host (.one callee)
      = decorate registry callee a.unresolved := rfl

/-! ## §3. The run of the inserted instructions. -/

variable {slots : CaptureSlots} {registry : RegistryId} {a : Adapter Value}
  {callee : Value} {ops rest : List Value}

/-- **The first ten instructions call two host functions,** the entry point and
the decorator that it has made; when the decorator begins the stack is what it
was below the callee and the packed operands. -/
theorem attemptsIn_decorating {p last : Nat} {count : UInt8} {entry : Native Value}
    (hcount : ops.length = count.toNat) (hroom : rest.length + 6 ≤ st.maxValueStack)
    (hkeys : (Dict.keys a.kwExtras).Nodup) (hrole : entry.role = .entryPoint registry)
    (hentry : f.function.captures[slots.entry.toNat]?.map Capture.value = some (.native entry))
    (hadapter : f.function.captures[slots.adapter.toNat]?.map Capture.value = some a.asTuple)
    (hcode : Decodes f.function.body.code p [.buildTuple count, .swap, .loadCapture slots.entry,
      .loadCapture slots.adapter, .unpackSequence 3, .synthetic, .call entryCall, .swap,
      .synthetic, .call decorateCall] last) :
    AttemptsIn host 14
      ⟨.bytecode, pending, .of (ops ++ callee :: rest) ({ f with ip := p } :: fs) st w⟩
      [.native entry, .native (a.decoratorIn registry w)]
      ⟨.action (decorate registry callee a.unresolved), .operand :: pending,
        .of (.tuple ops.reverse :: rest) ({ f with ip := last } :: fs) st w.freshObject.2⟩ := by
  obtain _ | ⟨h₁, hcode⟩ := hcode
  obtain _ | ⟨h₂, hcode⟩ := hcode
  obtain _ | ⟨h₃, hcode⟩ := hcode
  obtain _ | ⟨h₄, hcode⟩ := hcode
  obtain _ | ⟨h₅, hcode⟩ := hcode
  obtain _ | ⟨h₆, hcode⟩ := hcode
  obtain _ | ⟨h₇, hcode⟩ := hcode
  obtain _ | ⟨h₈, hcode⟩ := hcode
  obtain _ | ⟨h₉, hcode⟩ := hcode
  obtain _ | ⟨h₁₀, hcode⟩ := hcode
  cases hcode
  -- the operands are packed away below the callee
  refine (attemptsIn_buildTuple h₁ hcount (by rw [List.length_cons]; omega)).trans ?_
  refine (attemptsIn_swap h₂).trans ?_
  -- the entry point is called with the parts of the adapter
  generalize Value.tuple ops.reverse = packed
  refine (attemptsIn_loadCapture h₃ hentry ?_).trans ((attemptsIn_loadCapture h₄ hadapter ?_).trans ?_)
  · show rest.length + 2 + 1 ≤ _
    omega
  · show rest.length + 3 + 1 ≤ _
    omega
  refine (attemptsIn_unpackSequence [.dict a.kwExtras, .tuple a.extras, a.transformation]
    (.native entry :: callee :: packed :: rest) h₅ rfl hroom).trans ?_
  refine (attemptsIn_synthetic h₆).trans ?_
  refine (attemptsIn_native [.dict a.kwExtras, .tuple a.extras, a.transformation]
    (callee :: packed :: rest) h₇ rfl (collectArgs_entryCall _ _ _ hkeys)).trans ?_
  refine (attemptsIn_entry hrole a).trans ((attemptsIn_resume ?_).trans ?_)
  · show rest.length + 2 < _
    omega
  -- the decorator is called with the callee
  refine (attemptsIn_swap h₈).trans ((attemptsIn_synthetic h₉).trans ?_)
  rw [← respond_decoratorIn a registry w]
  exact attemptsIn_native [callee] (packed :: rest) h₁₀ rfl rfl

/-- **The last two instructions put the operands back.** -/
theorem attemptsIn_unpacked {p last : Nat} {count : UInt8} {result : Value}
    (hcount : ops.length = count.toNat)
    (hroom : rest.length + 1 + ops.length ≤ st.maxValueStack)
    (hcode : Decodes f.function.body.code p [.swap, .unpackSequence count] last) :
    AttemptsIn host 2
      ⟨.bytecode, pending, .of (result :: .tuple ops.reverse :: rest)
        ({ f with ip := p } :: fs) st w⟩ []
      ⟨.bytecode, pending, .of (ops ++ result :: rest) ({ f with ip := last } :: fs) st w⟩ := by
  obtain _ | ⟨h₁, hcode⟩ := hcode
  obtain _ | ⟨h₂, hcode⟩ := hcode
  cases hcode
  exact (attemptsIn_swap h₁).trans (attemptsIn_unpackSequence ops (result :: rest) h₂ hcount hroom)

/-! ## §4. The whole hand-over. -/

/-- The machine in which the callee of an expanded call is decorated: the
operands (`ops`, top first) are packed into one tuple above `rest`, and the
frame stands at `ip`. -/
def handedOver (f : Frame) (fs : List Frame) (st : Settings) (w : World σ) (ops rest : List Value)
    (ip : Nat) : Machine σ :=
  .of (.tuple ops.reverse :: rest) ({ f with ip := ip } :: fs) st w.freshObject.2

/-- **How an expanded call hands over its callee and its operands,** from the
first inserted instruction on. -/
structure HandsOver (host : Host σ) (registry : RegistryId) (a : Adapter Value) (shape : CallShape)
    (pending : List (Pending σ)) (f : Frame) (fs : List Frame) (st : Settings) (w : World σ)
    (callee : Value) (ops rest : List Value) (entry : Native Value) (ip : Nat) : Prop where
  isEntry : entry.role = .entryPoint registry
  /-- Two host functions are called, each once: the entry point, and with the
  callee the decorator for the adapter. -/
  begins : Attempts host ⟨.bytecode, pending, .of (ops ++ callee :: rest) (f :: fs) st w⟩
    [.native entry, .native (a.decoratorIn registry w)]
    ⟨.action (decorate registry callee a.unresolved), .operand :: pending,
      handedOver f fs st w ops rest ip⟩
  /-- Whenever decorating returns and leaves the stack as it found it, what it
  returns takes the place of the callee, and the call itself comes next.  No
  calls are attempted on the way but those of decorating. -/
  returns : ∀ fuel c m', run host fuel
      (ofAction (handedOver f fs st w ops rest ip) (decorate registry callee a.unresolved))
        = some (.ok c, m') →
    m'.stack = (handedOver f fs st w ops rest ip).stack →
    ∃ callees q,
      Attempts host
        (ofAction (handedOver f fs st w ops rest ip) (decorate registry callee a.unresolved)) callees
        ⟨.answer (.ok c), [], m'⟩
      ∧ Attempts host ⟨.action (decorate registry callee a.unresolved), .operand :: pending,
          handedOver f fs st w ops rest ip⟩ callees
        ⟨.bytecode, pending, .of (ops ++ c :: rest) ({ f with ip := q } :: fs) st m'.world⟩
      ∧ Machine.fetch { f with ip := q } = .ok (.call shape, q + (Instruction.call shape).size)
  /-- Whenever decorating fails, the frame fails with the same error, and no
  calls are attempted but those of decorating. -/
  fails : ∀ fuel e m', run host fuel
      (ofAction (handedOver f fs st w ops rest ip) (decorate registry callee a.unresolved))
        = some (.error e, m') →
    ∃ callees,
      Attempts host
        (ofAction (handedOver f fs st w ops rest ip) (decorate registry callee a.unresolved)) callees
        ⟨.answer (.error e), [], m'⟩
      ∧ Attempts host ⟨.action (decorate registry callee a.unresolved), .operand :: pending,
          handedOver f fs st w ops rest ip⟩ callees
        ⟨.answer (.error e), pending, m'⟩
      ∧ m'.frames = (handedOver f fs st w ops rest ip).frames

/-- **An expanded call hands over its callee, and gets its operands back.**  The
extra keywords of an adapter are a dictionary, in which no name comes twice. -/
theorem expanded_call_hands_over {shape : CallShape} {last : Nat}
    (hf : f.function.InstrumentedWith slots registry a) (hkeys : (Dict.keys a.kwExtras).Nodup)
    (hslots : shape.slots ≤ maxSlots) (hops : ops.length = shape.slots)
    (hroom : rest.length + max (shape.slots + 1) 6 ≤ st.maxValueStack)
    (hcode : Decodes f.function.body.code f.ip (slots.expansion shape) last) :
    ∃ entry ip, HandsOver host registry a shape pending f fs st w callee ops rest entry ip := by
  obtain ⟨entry, hrole, hentry, hadapter⟩ := hf.captures
  have hcount : ops.length = (UInt8.ofNat shape.slots).toNat := by
    rw [toNat_ofNat_slots hslots, hops]
  obtain ⟨ip, hdecorating, hcode⟩ := Decodes.split
    [.buildTuple (UInt8.ofNat shape.slots), .swap, .loadCapture slots.entry,
      .loadCapture slots.adapter, .unpackSequence 3, .synthetic, .call entryCall, .swap, .synthetic,
      .call decorateCall]
    [.swap, .unpackSequence (UInt8.ofNat shape.slots), .call shape] hcode
  obtain ⟨q, hunpack, hcall⟩ := Decodes.split [.swap, .unpackSequence (UInt8.ofNat shape.slots)]
    [.call shape] hcode
  obtain _ | ⟨hnext, -⟩ := hcall
  refine ⟨entry, ip, ?_⟩
  refine
    { isEntry := hrole
      begins :=
        (attemptsIn_decorating hcount (by omega) hkeys hrole hentry hadapter hdecorating).attempts
      returns := ?_
      fails := ?_ }
  · intro fuel c m' hrun hstack
    obtain ⟨callees, vs', w', rfl, halone, hover⟩ := answers_over hrun (.operand :: pending)
    -- that the stack is as it was is what decorating alone does not give
    obtain rfl : vs' = .tuple ops.reverse :: rest := Stack.ofList_inj.mp hstack
    have hresumed : Attempts host ⟨.answer (.ok c), .operand :: pending,
          .of (.tuple ops.reverse :: rest) ({ f with ip := ip } :: fs) st w'⟩ []
        ⟨.bytecode, pending, .of (c :: .tuple ops.reverse :: rest) ({ f with ip := ip } :: fs) st w'⟩ :=
      (attemptsIn_resume (by rw [List.length_cons]; omega)).attempts
    have hunpacked := hresumed.then_silent (attemptsIn_unpacked hcount (by omega) hunpack).attempts
    refine ⟨callees, q, halone, hover.then_silent hunpacked, ?_⟩
    rw [Machine.fetch_of hnext, (decodeAt_ok hnext).2.1]
  · intro fuel e m' hrun
    obtain ⟨callees, vs', w', rfl, halone, hover⟩ := answers_over hrun (.operand :: pending)
    -- the call instruction that waits hands the error on
    exact ⟨callees, halone, hover.then_silent (Attempts.silent rfl rfl (Attempts.refl _)), rfl⟩

end RunState

/-- Calls the global `g` with two arguments. -/
def callsWithTwo : Function Value :=
  simpleFunction 2 "f" #["g"]
    [.loadGlobal 0, .pushSmall 1, .pushSmall 2, .call (CallShape.plain 2), .return]

/-- A transformation with an extra argument and an extra keyword. -/
def tracedAdapter : Adapter Value :=
  Adapter.new (.native ⟨⟨0⟩, "traced", .host⟩) [.int 3] [("level", .int 4)]

/-- The instrumented body of that function. -/
def callsWithTwoOutput : List Instruction :=
  [.loadGlobal 0, .pushSmall 1, .pushSmall 2]
    ++ (CaptureSlots.expansion ⟨0, 1⟩ (CallShape.plain 2) ++ [.return])

/-- The function, instrumented with that transformation. -/
def tracedCalls : Function Value :=
  callsWithTwo.copyWith ⟨3⟩
    ⟨"f", encode callsWithTwoOutput, #[], #["g"], Signature.none, 0⟩
    (.native ⟨⟨1⟩, entryPointName, .entryPoint ⟨0⟩⟩) tracedAdapter

/-- The host on which the transformation answers a wrapper, and every other host
function its first argument. -/
def tracingHost : Host Unit := fun id args =>
  if id = ⟨0⟩ then .done (.ok (.native ⟨⟨9⟩, "wrapper", .host⟩))
  else .done (.ok (args.positional.headD .nil))

/-- The call of the function above, with one value below the callee: it is
handed over, and decorating it returns and leaves the stack as it was. -/
theorem expanded_call_hands_over_tracedCalls :
    ∃ entry ip c m', RunState.HandsOver tracingHost ⟨0⟩ tracedAdapter (CallShape.plain 2)
        [.activation 0 1] ⟨tracedCalls, 7, 1, #[]⟩ [] .standard boundWorld (.function answersFive)
        [.int 2, .int 1] [.nil] entry ip
      ∧ RunState.run tracingHost 20 (RunState.ofAction
          (RunState.handedOver ⟨tracedCalls, 7, 1, #[]⟩ [] .standard boundWorld [.int 2, .int 1]
            [.nil] ip)
          (decorate ⟨0⟩ (.function answersFive) tracedAdapter.unresolved)) = some (.ok c, m')
      ∧ m'.stack = Stack.ofList [.tuple [.int 1, .int 2], .nil] := by
  have hmade : tracedCalls.InstrumentedWith ⟨0, 1⟩ ⟨0⟩ tracedAdapter :=
    .made ⟨3⟩ rfl rfl rfl
  have hcode : Decodes (encode callsWithTwoOutput) 7
      (CaptureSlots.expansion ⟨0, 1⟩ (CallShape.plain 2)) 33 :=
    decodes_encode [.loadGlobal 0, .pushSmall 1, .pushSmall 2] _ [.return] (by decide +kernel)
      fun i hi => Layout.isWritten_expansion (fun h => by cases h) hi _
  have hhands : ∃ entry ip, RunState.HandsOver tracingHost ⟨0⟩ tracedAdapter (CallShape.plain 2)
      [.activation 0 1] ⟨tracedCalls, 7, 1, #[]⟩ [] .standard boundWorld (.function answersFive)
      [.int 2, .int 1] [.nil] entry ip :=
    RunState.expanded_call_hands_over hmade (by decide) (by decide) rfl (by decide) hcode
  obtain ⟨entry, ip, hover⟩ := hhands
  exact ⟨entry, ip, _, _, hover, rfl, rfl⟩

end CallDecoration
