/-
  CallDecoration.Proofs.Decoration.Inheritance
  ──────────────────────────────────────
  **The adapter reaches every depth unchanged.**  The outermost decorator is
  what the entry point answers.  A function that a decorator has instrumented
  carries the adapter as a tuple among its captures, and wherever it comes to a
  call, a new decorator is built of the unpacked tuple, one depth further in
  (`DecoratorAt`).  By induction on the depth, all of them are bound to the same
  transformation, extras and extra keywords, and so all of them do the same: they
  have the transformation called once, and its result applied once
  (`DecoratorAt.inherits`).
-/
import CallDecoration.Proofs.Decoration.Copies
import CallDecoration.Proofs.Decoration.HandOver
import CallDecoration.Proofs.Machine.Returning

namespace CallDecoration

variable {σ : Type}

/-! ## §1. The calls of a run are determined. -/

namespace RunState

variable {host : Host σ} {s t : RunState σ} {pending : List (Pending σ)}

/-- A longer stretch of a run in which no more calls are attempted. -/
theorem attempted_eq_of_le {m n : Nat} (hle : m ≤ n)
    (hlength : (attempted host m s).length = (attempted host n s).length) :
    attempted host m s = attempted host n s := by
  obtain ⟨k, rfl⟩ := Nat.exists_eq_add_of_le hle
  have hadd : attempted host (m + k) s = _ := attempted_add m k s
  rw [hadd, List.length_append] at hlength
  have hnone : attempted host k ((step host)^[m] s) = [] :=
    List.eq_nil_of_length_eq_zero (by omega)
  rw [hadd, hnone, List.append_nil]

/-- Two stretches of a run in which as many calls are attempted attempt the same
ones. -/
theorem Attempts.callees_eq {u : RunState σ} {xs ys : List Value} (h₁ : Attempts host s xs t)
    (h₂ : Attempts host s ys u) (hlength : xs.length = ys.length) : xs = ys := by
  obtain ⟨m, -, rfl⟩ := h₁
  obtain ⟨n, -, rfl⟩ := h₂
  rcases Nat.le_total m n with hle | hle
  · exact attempted_eq_of_le hle hlength
  · exact (attempted_eq_of_le hle hlength.symm).symm

/-! ## §2. What a host function does until it calls. -/

/-- A host function acts, and calls nothing. -/
def IsQuiet (s : RunState σ) : Prop :=
  ∃ a, s.focus = .action a ∧ ∀ callee args next, a ≠ .call callee args next

/-- **Steps of a host function that calls nothing.** -/
inductive Quietly (host : Host σ) : RunState σ → RunState σ → Prop where
  | refl (s : RunState σ) : Quietly host s s
  | step {s t : RunState σ} (hquiet : s.IsQuiet) (h : Quietly host (s.step host) t) : Quietly host s t

/-- **A host function answers without a further call.** -/
def Answers (host : Host σ) (pending : List (Pending σ)) (r : Except RunError Value)
    (s : RunState σ) : Prop :=
  ∃ n, Quietly host s ⟨.answer r, pending, n⟩

/-- **The next call that a host function makes is this one,** and when it has
returned with an answer, the state in which the host function goes on has a
property that depends on the answer. -/
def Calls (host : Host σ) (pending : List (Pending σ)) (callee : Value) (args : CallArgs)
    (goesOn : Except RunError Value → RunState σ → Prop) (s : RunState σ) : Prop :=
  ∃ next m, Quietly host s ⟨.action (.call callee args next), pending, m⟩
    ∧ ∀ r n, Returns host (step host ⟨.action (.call callee args next), pending, m⟩)
        (.host next :: pending) r n →
      goesOn r (step host ⟨.answer r, .host next :: pending, n⟩)

theorem quietly_done {r : Except RunError Value} {m : Machine σ} :
    Quietly host ⟨.action (.done r), pending, m⟩ ⟨.answer r, pending, m⟩ :=
  .step ⟨_, rfl, by simp⟩ (.refl _)

theorem quietly_read {next : World σ → Action σ Value} {m : Machine σ}
    (h : Quietly host ⟨.action (next m.world), pending, m⟩ t) :
    Quietly host ⟨.action (.read next), pending, m⟩ t :=
  .step ⟨_, rfl, by simp⟩ h

theorem quietly_write {w : World σ} {next : Action σ Value} {m : Machine σ}
    (h : Quietly host ⟨.action next, pending, { m with world := w }⟩ t) :
    Quietly host ⟨.action (.write w next), pending, m⟩ t :=
  .step ⟨_, rfl, by simp⟩ h

/-! ## §3. The calls of a decoration. -/

/-- A decorator begins to decorate a function. -/
def decorating (host : Host σ) (d : Native Value) (f : Function Value) (pending : List (Pending σ))
    (m : Machine σ) : RunState σ :=
  ⟨.action (d.respond host (.one (.function f))), pending, m⟩

/-- **The wrapper is called once, with the copy,** and its answer is the answer. -/
def AppliesTo (host : Host σ) (pending : List (Pending σ)) (copy : Function Value) (wrapper : Value) :
    RunState σ → Prop :=
  Calls host pending wrapper (.one (.function copy)) fun r => Answers host pending r

/-- **The transformation is called once, with the extras,** and its answer is
the wrapper; without an answer there is no wrapper, and its error is the answer. -/
def AppliesFactory (host : Host σ) (pending : List (Pending σ)) (copy : Function Value)
    (transformation : Value) (extras : List Value) (kwExtras : Dict String Value) :
    RunState σ → Prop :=
  Calls host pending transformation ⟨extras, kwExtras⟩ fun
    | .ok wrapper => AppliesTo host pending copy wrapper
    | .error e => Answers host pending (.error e)

/-- With extra arguments of either sort, an adapter is resolved by a call. -/
theorem resolve_new {extras : List Value} {kwExtras : Dict String Value}
    (h : extras ≠ [] ∨ kwExtras ≠ []) (transformation : Value) :
    ((Adapter.new transformation extras kwExtras).resolve : Action σ Value)
      = .call transformation ⟨extras, kwExtras⟩ .done := by
  have hextras : (Adapter.new transformation extras kwExtras).hasExtras = true := by
    unfold Adapter.hasExtras
    rw [Bool.or_eq_true, Bool.not_eq_true', Bool.not_eq_true']
    exact h.imp List.isEmpty_eq_false_iff.mpr List.isEmpty_eq_false_iff.mpr
  exact resolve_asking rfl hextras

section Decorating

variable {registry : RegistryId} {history : History} {m : Machine σ}

/-- After the wrapper has answered, a decoration records the history and calls
nothing. -/
theorem answers_settle (r : Except RunError Value) :
    Answers host pending r ⟨.action (settle registry history .done r), pending, m⟩ := by
  cases r with
  | error e => exact ⟨_, quietly_done⟩
  | ok v =>
      cases v with
      | function x => exact ⟨_, quietly_read (quietly_write quietly_done)⟩
      | _ => exact ⟨_, quietly_done⟩

/-- The application of a wrapper to a copy. -/
theorem appliesTo_call (copy : Function Value) (wrapper : Value) :
    AppliesTo host pending copy wrapper
      ⟨.action (applyTo registry copy history .done (.ok wrapper)), pending, m⟩ := by
  refine ⟨_, _, .refl _, fun r n _ => ?_⟩
  cases r <;> exact answers_settle _

/-- **A decoration of an eligible function that can be instrumented** makes the
copy without calling anything, and then resolves the wrapper. -/
theorem quietly_decorate (host : Host σ) (pending : List (Pending σ)) {f : Function Value}
    {body : Chunk Value} {a : Adapter Value}
    (heligible : (m.world.registry registry).isEligible (.function f) a.identifier = true)
    (hbody : f.instrumentedBody = .ok body) :
    ∃ id entry history n, entry.role = .entryPoint registry
      ∧ ∀ t, Quietly host
          ⟨.action ((a.resolve : Action σ Value).handle
            (applyTo registry (f.copyWith id body (.native entry) a) history .done)), pending, n⟩ t →
        Quietly host ⟨.action (decorate registry (.function f) a), pending, m⟩ t := by
  let w := (m.world.newEntryPoint registry).2
  refine ⟨w.freshFunction.1, ⟨⟨m.world.nextObject⟩, entryPointName, .entryPoint registry⟩,
    ((w.freshFunction.2.registry registry).historyOf f.id).extend a.identifier,
    { m with world := w.freshFunction.2 }, rfl, fun t h => ?_⟩
  rw [← Action.handle_done (decorate registry (.function f) a), decorate_handle]
  refine quietly_read ?_
  rw [heligible]
  show Quietly host ⟨.action ((decorateFunction registry f a).handle .done), pending, m⟩ t
  rw [decorateFunction_handle registry .done hbody]
  exact quietly_read (quietly_write (quietly_read (quietly_write (quietly_read h))))

/-- What a host function comes to without a call, it has before it. -/
theorem Calls.of_quietly {callee : Value} {args : CallArgs}
    {goesOn : Except RunError Value → RunState σ → Prop}
    (hquiet : ∀ u, Quietly host s u → Quietly host t u) (h : Calls host pending callee args goesOn s) :
    Calls host pending callee args goesOn t := by
  obtain ⟨next, n, hcalls, hgoesOn⟩ := h
  exact ⟨next, n, hquiet _ hcalls, hgoesOn⟩

/-- The call of a transformation with extra arguments. -/
theorem appliesFactory_call (copy : Function Value) (transformation : Value) (extras : List Value)
    (kwExtras : Dict String Value) :
    AppliesFactory host pending copy transformation extras kwExtras
      ⟨.action (.call transformation ⟨extras, kwExtras⟩ (applyTo registry copy history .done)),
        pending, m⟩ := by
  refine ⟨_, _, .refl _, fun r n _ => ?_⟩
  cases r with
  | error e => exact ⟨_, quietly_done⟩
  | ok wrapper => exact appliesTo_call copy wrapper

end Decorating

end RunState

/-! ## §4. Running out of room. -/

namespace RunState

variable {host : Host σ} {pending : List (Pending σ)} {f : Frame} {fs : List Frame}
  {st : Settings} {w : World σ}

/-- **There is no room on the stack,** and nothing is called before that is
found. -/
def Overflows (host : Host σ) (s : RunState σ) : Prop :=
  ∃ m, Attempts host s [] ⟨.answer (.error .valueStackOverflow), s.pending, m⟩

/-- The same with a bound on the steps until then; the world is as it was. -/
def OverflowsIn (host : Host σ) (bound : Nat) (s : RunState σ) : Prop :=
  ∃ n m, n ≤ bound ∧ m.world = s.machine.world
    ∧ AttemptsIn host n s [] ⟨.answer (.error .valueStackOverflow), s.pending, m⟩

theorem OverflowsIn.overflows {bound : Nat} {s : RunState σ} (h : s.OverflowsIn host bound) :
    s.Overflows host := by
  obtain ⟨n, m, -, -, hend⟩ := h
  exact ⟨m, hend.attempts⟩

theorem OverflowsIn.after {bound : Nat} {s t : RunState σ} (h : AttemptsIn host 1 s [] t)
    (hpending : t.pending = s.pending) (hworld : t.machine.world = s.machine.world)
    (ht : t.OverflowsIn host bound) : s.OverflowsIn host (bound + 1) := by
  obtain ⟨n, m, hn, hm, hend⟩ := ht
  rw [hpending] at hend
  exact ⟨n + 1, m, Nat.succ_le_succ hn, hm.trans hworld, h.trans hend⟩

/-- An instruction that pushes more values than there is room for. -/
theorem overflowsIn_at {bound : Nat} (ops rest : List Value) {p q : Nat} {i : Instruction} {out : List Value}
    (hcode : decodeAt f.function.body.code p = .ok (i, q)) (hi : i.isPlain = true)
    (hops : ops.length = i.operands) (hr : i.results f w ops = .ok out) (hpushes : out ≠ [])
    (hrearr : i.rearranges = false) (hfull : st.maxValueStack < rest.length + out.length) :
    OverflowsIn host (bound + 1)
      ⟨.bytecode, pending, .of (ops ++ rest) ({ f with ip := p } :: fs) st w⟩ := by
  have hfetch : Machine.fetch { f with ip := p } = .ok (i, q) := Machine.fetch_of hcode
  have hfits : ¬ i.Fits st rest out := by
    rintro (hnone | hmoves | hroom)
    · exact hpushes hnone
    · rw [hrearr] at hmoves
      cases hmoves
    · omega
  rw [← Instruction.results_ip q] at hr
  obtain ⟨junk, -, hjunk⟩ := Machine.execute_full fs hi hops hr hfits
  have hstep : step host
        ⟨.bytecode, pending, .of (ops ++ rest) ({ f with ip := p } :: fs) st w⟩
      = ⟨.answer (.error .valueStackOverflow), pending, _⟩ :=
    step_failed ((Machine.stepFrame_of hfetch).trans (hjunk rest rfl))
  have hcallee : callee? (⟨.bytecode, pending, .of (ops ++ rest) ({ f with ip := p } :: fs) st w⟩ :
      RunState σ) = none := callee?_plain hfetch (Watched.shape?_of_isPlain hi)
  refine ⟨1, _, Nat.le_add_left 1 bound, ?_, AttemptsIn.silent hstep hcallee (AttemptsIn.refl _)⟩
  rfl

/-- **Without room for the decoration,** one of the instructions that come before
the call of the entry point overflows. -/
theorem overflowsIn_decorating {slots : CaptureSlots} {a : Adapter Value} {entry callee : Value}
    {ops rest : List Value} {p last : Nat} {count : UInt8} (hcount : ops.length = count.toNat)
    (hfull : st.maxValueStack < rest.length + 6)
    (hentry : f.function.captures[slots.entry.toNat]?.map Capture.value = some entry)
    (hadapter : f.function.captures[slots.adapter.toNat]?.map Capture.value = some a.asTuple)
    (hcode : Decodes f.function.body.code p [.buildTuple count, .swap, .loadCapture slots.entry,
      .loadCapture slots.adapter, .unpackSequence 3] last) :
    OverflowsIn host 5
      ⟨.bytecode, pending, .of (ops ++ callee :: rest) ({ f with ip := p } :: fs) st w⟩ := by
  obtain _ | ⟨h₁, hcode⟩ := hcode
  obtain _ | ⟨h₂, hcode⟩ := hcode
  obtain _ | ⟨h₃, hcode⟩ := hcode
  obtain _ | ⟨h₄, hcode⟩ := hcode
  obtain _ | ⟨h₅, -⟩ := hcode
  -- the values lie one above the other, so the first that does not fit overflows
  by_cases htwo : rest.length + 2 ≤ st.maxValueStack
  case neg =>
    exact overflowsIn_at ops (callee :: rest) h₁ rfl hcount rfl (List.cons_ne_nil _ _) rfl
      (show _ < rest.length + 1 + 1 by omega)
  refine .after (attemptsIn_buildTuple h₁ hcount htwo) rfl rfl ?_
  refine .after (attemptsIn_swap h₂) rfl rfl ?_
  generalize Value.tuple ops.reverse = packed
  by_cases hthree : rest.length + 3 ≤ st.maxValueStack
  case neg =>
    exact overflowsIn_at [] (callee :: packed :: rest) h₃ rfl rfl
      (Instruction.results_loadCapture hentry w) (List.cons_ne_nil _ _) rfl
      (show _ < rest.length + 2 + 1 by omega)
  refine .after (attemptsIn_loadCapture h₃ hentry hthree) rfl rfl ?_
  by_cases hfour : rest.length + 4 ≤ st.maxValueStack
  case neg =>
    exact overflowsIn_at [] (entry :: callee :: packed :: rest) h₄ rfl rfl
      (Instruction.results_loadCapture hadapter w) (List.cons_ne_nil _ _) rfl
      (show _ < rest.length + 3 + 1 by omega)
  refine .after (attemptsIn_loadCapture h₄ hadapter hfour) rfl rfl ?_
  have hparts : (Instruction.unpackSequence 3).results f w [a.asTuple]
      = .ok [.dict a.kwExtras, .tuple a.extras, a.transformation] := rfl
  exact overflowsIn_at [a.asTuple] (entry :: callee :: packed :: rest) h₅ rfl rfl
    hparts (List.cons_ne_nil _ _) rfl hfull

end RunState

/-! ## §5. Where decorators are built. -/

/-- **The decorator has instrumented the function:** the function carries the
adapter of the decorator. -/
def Native.Instruments (d : Native Value) (slots : CaptureSlots) (g : Function Value) : Prop :=
  ∃ registry a, d.role = .decorator registry a ∧ g.InstrumentedWith slots registry a

/-- **Every call of a function stands expanded in the copy,** unless it is marked. -/
def Function.ExpandedIn (slots : CaptureSlots) (f copy : Function Value) : Prop :=
  ∀ before offset shape after,
    decode f.body.code = .ok (before ++ (offset, .call shape) :: after) →
    (∀ o, ¬ [(o, .synthetic)] <:+ before) →
    ∃ start last, Decodes copy.body.code start (slots.expansion shape) last

theorem Function.expandedIn_copyWith {f : Function Value} {body : Chunk Value}
    {slots : CaptureSlots} (hslots : f.freshSlots? = some slots)
    (hbody : f.instrumentedBody = .ok body) (id : FunctionId) (entry : Value) (a : Adapter Value) :
    f.ExpandedIn slots (f.copyWith id body entry a) := by
  intro before offset shape after hdecode hmark
  obtain ⟨chunk, hchunk, rfl⟩ := Function.exists_pass hslots hbody
  obtain ⟨⟨L⟩, -⟩ := Chunk.instrument_ok hchunk
  have hrows : L.rows = before ++ (offset, .call shape) :: after :=
    Except.ok.inj (L.decoded.symm.trans hdecode)
  have himaged := L.imaged
  rw [hrows] at himaged
  obtain ⟨preI, post, himgs⟩ := Layout.exists_image_of_call himaged hmark
  have hshape : shape.IsWritten :=
    (rows_of_decode hdecode).isWritten (List.mem_append_right before List.mem_cons_self)
  exact ⟨_, _, L.decodes_expansion himgs hshape⟩

/-- **A call that has been expanded, at the moment when a run comes to it:**
the running frame stands before the inserted instructions, and the operands (top
first) lie above the callee. -/
structure CallSite (σ : Type) (slots : CaptureSlots) where
  pending : List (Pending σ)
  frame : Frame
  frames : List Frame
  settings : Settings
  world : World σ
  callee : Value
  operands : List Value
  below : List Value
  count : UInt8
  last : Nat
  counted : operands.length = count.toNat
  code : Decodes frame.function.body.code frame.ip (slots.inserted count) last

namespace CallSite

open RunState

variable {host : Host σ} {slots : CaptureSlots} {registry : RegistryId} {a : Adapter Value}
  {entry d : Native Value} (c : CallSite σ slots)

/-- The state in which the run comes to the call. -/
def state : RunState σ :=
  ⟨.bytecode, c.pending, .of (c.operands ++ c.callee :: c.below) (c.frame :: c.frames) c.settings
    c.world⟩

/-- Whether there is room for the packed operands, the callee, the entry point
and the three parts of the adapter. -/
def HasRoom : Prop :=
  c.below.length + 6 ≤ c.settings.maxValueStack

instance : Decidable c.HasRoom :=
  inferInstanceAs (Decidable (_ ≤ _))

/-- **A decorator is built at the call:** the entry point is called, then the
decorator, and the decorator begins with the callee. -/
def Builds (host : Host σ) (entry d : Native Value) : Prop :=
  ∃ m, Attempts host c.state [.native entry, .native d]
    ⟨.action (d.respond host (.one c.callee)), .operand :: c.pending, m⟩

variable {c}

/-- **The decorator that is built is bound to the parts of the adapter** that the
function carries. -/
theorem builds_of_hasRoom (host : Host σ) (hf : c.frame.function.InstrumentedWith slots registry a)
    (hkeys : (Dict.keys a.kwExtras).Nodup) (hroom : c.HasRoom) :
    ∃ entry : Native Value, entry.role = .entryPoint registry
      ∧ c.Builds host entry (a.decoratorIn registry c.world) := by
  obtain ⟨entry, hrole, hentry, hadapter⟩ := hf.captures
  obtain ⟨ip, hdecorating, -⟩ := Decodes.split
    [.buildTuple c.count, .swap, .loadCapture slots.entry, .loadCapture slots.adapter,
      .unpackSequence 3, .synthetic, .call entryCall, .swap, .synthetic, .call decorateCall]
    [.swap, .unpackSequence c.count] c.code
  exact ⟨entry, hrole, _,
    (attemptsIn_decorating c.counted hroom hkeys hrole hentry hadapter hdecorating).attempts⟩

/-- No other decorator is built there. -/
theorem Builds.eq_decoratorIn (h : c.Builds host entry d)
    (hf : c.frame.function.InstrumentedWith slots registry a)
    (hkeys : (Dict.keys a.kwExtras).Nodup) (hroom : c.HasRoom) :
    d = a.decoratorIn registry c.world := by
  obtain ⟨_, hbuilt⟩ := h
  obtain ⟨_, -, _, hexpected⟩ := builds_of_hasRoom host hf hkeys hroom
  cases hbuilt.callees_eq hexpected rfl
  rfl

/-- Without room nothing is built there. -/
theorem overflows_of_not_hasRoom (hf : c.frame.function.InstrumentedWith slots registry a)
    (hroom : ¬ c.HasRoom) : c.state.Overflows host := by
  obtain ⟨entry, -, hentry, hadapter⟩ := hf.captures
  obtain ⟨ip, hbefore, -⟩ := Decodes.split
    [.buildTuple c.count, .swap, .loadCapture slots.entry, .loadCapture slots.adapter,
      .unpackSequence 3]
    [.synthetic, .call entryCall, .swap, .synthetic, .call decorateCall, .swap,
      .unpackSequence c.count] c.code
  exact (overflowsIn_decorating c.counted (Nat.lt_of_not_le hroom) hentry hadapter hbefore).overflows

end CallSite

/-! ## §6. Every depth. -/

/-- **The decorators of runs, by their depth.** -/
inductive DecoratorAt (host : Host σ) (registry : RegistryId) (transformation : Value)
    (extras : List Value) (kwExtras : Dict String Value) : Nat → Native Value → Prop where
  /-- The entry point answers the outermost one. -/
  | outermost {m n : Machine σ} {fuel : Nat} {d : Native Value}
      (h : RunState.run host fuel
        (RunState.ofAction m (enterDecoration registry ⟨transformation :: extras, kwExtras⟩))
          = some (.ok (.native d), n)) :
      DecoratorAt host registry transformation extras kwExtras 0 d
  /-- In a function that a decorator has instrumented, a call builds one of the
  next depth. -/
  | deeper {depth : Nat} {d d' entry : Native Value} {slots : CaptureSlots}
      (site : CallSite σ slots)
      (h : DecoratorAt host registry transformation extras kwExtras depth d)
      (hfunction : d.Instruments slots site.frame.function) (hroom : site.HasRoom)
      (hbuilt : site.Builds host entry d') :
      DecoratorAt host registry transformation extras kwExtras (depth + 1) d'

/-- **What a decorator has from the outermost one,** and passes on. -/
structure Inherits (host : Host σ) (registry : RegistryId) (transformation : Value)
    (extras : List Value) (kwExtras : Dict String Value) (depth : Nat) (d : Native Value) : Prop where
  /-- It is bound to the same transformation, extras and extra keywords. -/
  bound : d.role = .decorator registry (Adapter.new transformation extras kwExtras)
  /-- Each call in a function that it has instrumented builds a decorator of the
  next depth. -/
  builds : ∀ {slots : CaptureSlots} (site : CallSite σ slots),
    d.Instruments slots site.frame.function → site.HasRoom →
    ∃ entry d', entry.role = .entryPoint registry ∧ site.Builds host entry d'
      ∧ DecoratorAt host registry transformation extras kwExtras (depth + 1) d'
  /-- It builds none only if there is no room for it. -/
  overflows : ∀ {slots : CaptureSlots} (site : CallSite σ slots),
    d.Instruments slots site.frame.function → ¬ site.HasRoom → site.state.Overflows host
  /-- An eligible function that can be instrumented is instrumented at every call,
  and the copy wrapped: without extras by the transformation, else by what the
  transformation answers to them. -/
  wraps : ∀ pending (m : Machine σ) (f : Function Value) (body : Chunk Value),
    (m.world.registry registry).isEligible (.function f) transformation.transformationName = true →
    f.instrumentedBody = .ok body →
    ∃ slots copy, d.Instruments slots copy ∧ copy.body = body ∧ f.ExpandedIn slots copy
      ∧ (extras = [] → kwExtras = [] →
        RunState.AppliesTo host pending copy transformation (RunState.decorating host d f pending m))
      ∧ (extras ≠ [] ∨ kwExtras ≠ [] →
        RunState.AppliesFactory host pending copy transformation extras kwExtras
          (RunState.decorating host d f pending m))

namespace DecoratorAt

open RunState

variable {host : Host σ} {registry : RegistryId} {transformation : Value} {extras : List Value}
  {kwExtras : Dict String Value} {depth : Nat} {d : Native Value}

/-- Only the one adapter is carried by what a decorator has instrumented. -/
theorem instrumentedWith {a : Adapter Value} (hrole : d.role = .decorator registry a)
    {slots : CaptureSlots} {g : Function Value} (h : d.Instruments slots g) :
    g.InstrumentedWith slots registry a := by
  obtain ⟨_, _, hbound, hg⟩ := h
  rw [hrole] at hbound
  cases hbound
  exact hg

/-- **All decorators are bound to the same,** by induction on the depth. -/
theorem role_eq (hkeys : (Dict.keys kwExtras).Nodup)
    (h : DecoratorAt host registry transformation extras kwExtras depth d) :
    d.role = .decorator registry (Adapter.new transformation extras kwExtras) := by
  induction h with
  | @outermost m n fuel d h =>
      have hanswer : Reaches host
          (ofAction m (enterDecoration registry ⟨transformation :: extras, kwExtras⟩))
          ⟨.answer (.ok (.native ((Adapter.new transformation extras kwExtras).decoratorIn registry
            m.world))), [], { m with world := m.world.freshObject.2 }⟩ := ⟨3, rfl⟩
      cases (reaches_of_run h).answer_eq hanswer
      rfl
  | deeper site h hfunction hroom hbuilt ih =>
      -- the tuple that the function carries is taken apart again at the call
      rw [hbuilt.eq_decoratorIn (instrumentedWith ih hfunction) hkeys hroom]
      rfl

/-- **The adapter reaches every depth unchanged.** -/
theorem inherits (hkeys : (Dict.keys kwExtras).Nodup)
    (h : DecoratorAt host registry transformation extras kwExtras depth d) :
    Inherits host registry transformation extras kwExtras depth d := by
  have hrole := h.role_eq hkeys
  refine
    { bound := hrole
      builds := fun site hfunction hroom => ?_
      overflows := fun site hfunction hroom =>
        CallSite.overflows_of_not_hasRoom (instrumentedWith hrole hfunction) hroom
      wraps := fun pending m f body heligible hbody => ?_ }
  · -- a call in what this decorator wraps builds the decorator of the next depth
    obtain ⟨entry, hentry, hbuilt⟩ :=
      CallSite.builds_of_hasRoom host (instrumentedWith hrole hfunction) hkeys hroom
    exact ⟨entry, _, hentry, hbuilt, .deeper site h hfunction hroom hbuilt⟩
  · obtain ⟨slots, hslots⟩ := Function.exists_freshSlots hbody
    obtain ⟨id, entry, history, n, hentry, hquiet⟩ :=
      quietly_decorate host pending (a := Adapter.new transformation extras kwExtras) heligible hbody
    have hdecorating : decorating host d f pending m
        = ⟨.action (decorate registry (.function f) (Adapter.new transformation extras kwExtras)),
          pending, m⟩ := by
      unfold decorating Native.respond
      rw [hrole]
      rfl
    refine ⟨slots, _, ⟨registry, _, hrole, .made id hslots hbody hentry⟩, rfl,
      Function.expandedIn_copyWith hslots hbody id _ _, ?_, ?_⟩
    · rintro rfl rfl
      rw [hdecorating]
      exact (appliesTo_call _ _).of_quietly hquiet
    · intro hextras
      rw [resolve_new hextras] at hquiet
      rw [hdecorating]
      exact (appliesFactory_call _ _ _ _).of_quietly hquiet

/-- The call in the function with a traced adapter, with one value below it. -/
def tracedSite : CallSite Unit ⟨0, 1⟩ where
  pending := [.activation 0 1]
  frame := ⟨tracedCalls, 7, 1, #[]⟩
  frames := []
  settings := .standard
  world := boundWorld
  callee := .function answersFive
  operands := [.int 2, .int 1]
  below := [.nil]
  count := 2
  last := 30
  counted := rfl
  code :=
    have hmem : ∀ i ∈ CaptureSlots.inserted ⟨0, 1⟩ 2,
        i ∈ CaptureSlots.expansion ⟨0, 1⟩ (CallShape.plain 2) :=
      fun _ hi => List.mem_append_left _ hi
    have hwritten : ∀ i ∈ CaptureSlots.inserted ⟨0, 1⟩ 2, i.IsWritten _ := fun i hi =>
      Layout.isWritten_expansion (fun h => by cases h) (hmem i hi) _
    decodes_encode [.loadGlobal 0, .pushSmall 1, .pushSmall 2] (CaptureSlots.inserted ⟨0, 1⟩ 2)
      [.call (CallShape.plain 2), .return] (by decide +kernel) hwritten

/-- The run of that function comes to the call, and the decorator that is built
there is one deeper than the outermost one. -/
theorem inherits_tracedSite :
    Reaches tracingHost
        (ofCall tracingHost (.of [.nil] [] .standard boundWorld) (.function tracedCalls) .none)
        tracedSite.state
      ∧ ∃ d : Native Value, d.Instruments ⟨0, 1⟩ tracedSite.frame.function
        ∧ Inherits tracingHost ⟨0⟩ (.native ⟨⟨0⟩, "traced", .host⟩) [.int 3] [("level", .int 4)] 1
          (tracedAdapter.decoratorIn ⟨0⟩ tracedSite.world) := by
  have hrun : run tracingHost 4 (ofAction (.new .standard boundWorld)
        (enterDecoration ⟨0⟩ ⟨[.native ⟨⟨0⟩, "traced", .host⟩, .int 3], [("level", .int 4)]⟩))
      = some (.ok (.native (tracedAdapter.decoratorIn ⟨0⟩ boundWorld)), _) := rfl
  have houtermost : DecoratorAt tracingHost ⟨0⟩ (.native ⟨⟨0⟩, "traced", .host⟩) [.int 3]
      [("level", .int 4)] 0 (tracedAdapter.decoratorIn ⟨0⟩ boundWorld) :=
    .outermost hrun
  have hmade : tracedCalls.InstrumentedWith ⟨0, 1⟩ ⟨0⟩ tracedAdapter := .made ⟨3⟩ rfl rfl rfl
  have hcarries : (tracedAdapter.decoratorIn ⟨0⟩ boundWorld).Instruments ⟨0, 1⟩
      tracedSite.frame.function := ⟨⟨0⟩, tracedAdapter, rfl, hmade⟩
  have hroom : tracedSite.HasRoom := by decide
  obtain ⟨entry, -, hbuilt⟩ :=
    CallSite.builds_of_hasRoom tracingHost hmade (by decide) hroom
  exact ⟨⟨3, rfl⟩, _, hcarries,
    inherits (by decide) (.deeper tracedSite houtermost hcarries hroom hbuilt)⟩

end DecoratorAt

end CallDecoration
