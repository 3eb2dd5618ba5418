/-
  CallDecoration.Proofs.Decoration.Expansion
  ──────────────────────────────────────
  **What the instructions in front of a call do.**  They decorate the callee
  that lies below the operands, and put everything else back where it was.
  While they run the stack is at most six values higher than what lies below
  the callee, or as high as it was (`proceeds_inserted`).
-/
import CallDecoration.Proofs.Decoration.Decorating
import CallDecoration.Proofs.Instrumentation.Layout

namespace CallDecoration

variable {σ : Type}

/-! ## §1. Captures of an instrumented copy. -/

/-- **A function that keeps the entry point and an adapter** where expanded
calls look for them. -/
structure Function.Keeps (g : Function Value) (slots : CaptureSlots) (registry : RegistryId)
    (n : Native Value) : Prop where
  entry : ∃ entry : Native Value, entry.role = .entryPoint registry
    ∧ g.captures[slots.entry.toNat]?.map Capture.value = some (.native entry)
  adapter : g.captures[slots.adapter.toNat]?.map Capture.value = some (plainAdapter n).asTuple

/-- The captures of a function come first among those of a copy. -/
theorem Function.captures_copyWith_lt {g : Function Value} {index : Nat}
    (hindex : index < g.captures.size) (id : FunctionId) (body : Chunk Value) (entry : Value)
    (a : Adapter Value) : (g.copyWith id body entry a).captures[index]? = g.captures[index]? := by
  show ((g.captures.push _).push _)[index]? = _
  rw [Array.getElem?_push_lt (by rw [Array.size_push]; omega), Array.getElem_push_lt hindex,
    Array.getElem?_eq_getElem hindex]

/-- What a function captures, its copies capture at the same place. -/
theorem Function.capture_copyWith {g : Function Value} {index : Nat} {v : Value}
    (h : g.captures[index]?.map Capture.value = some v) (id : FunctionId) (body : Chunk Value)
    (entry : Value) (a : Adapter Value) :
    (g.copyWith id body entry a).captures[index]?.map Capture.value = some v := by
  have hindex : index < g.captures.size := by
    by_cases hlt : index < g.captures.size
    · exact hlt
    · rw [Array.getElem?_eq_none (by omega)] at h
      cases h
  rw [Function.captures_copyWith_lt hindex]
  exact h

/-- The two capture slots behind a number of captures, if both have a 16-bit
index. -/
def CaptureSlots.behind? (count : Nat) : Option CaptureSlots :=
  if count + 1 ≤ 65535 then some ⟨UInt16.ofNat count, UInt16.ofNat (count + 1)⟩ else none

theorem CaptureSlots.behind?_eq_some {count : Nat} {slots : CaptureSlots}
    (h : behind? count = some slots) :
    slots.entry.toNat = count ∧ slots.adapter.toNat = count + 1 := by
  unfold behind? at h
  split at h
  case isFalse => cases h
  case isTrue hle =>
    cases h
    simp only [UInt16.toNat_ofNat']
    omega

/-- **Where a copy keeps the entry point and the adapter,** expanded calls look
for them. -/
theorem Function.captures_copyWith {g : Function Value} {slots : CaptureSlots}
    (hslots : g.freshSlots? = some slots) (id : FunctionId) (body : Chunk Value) (entry : Value)
    (a : Adapter Value) :
    (g.copyWith id body entry a).captures[slots.entry.toNat]?.map Capture.value = some entry
      ∧ (g.copyWith id body entry a).captures[slots.adapter.toNat]?.map Capture.value
        = some a.asTuple := by
  obtain ⟨hentry, hadapter⟩ := CaptureSlots.behind?_eq_some hslots
  constructor
  · show Option.map Capture.value ((g.captures.push _).push _)[slots.entry.toNat]? = _
    rw [hentry, Array.getElem?_push_lt (by rw [Array.size_push]; omega), Array.getElem_push_eq]
    rfl
  · show Option.map Capture.value ((g.captures.push _).push _)[slots.adapter.toNat]? = _
    rw [hadapter, ← Array.size_push, Array.getElem?_push_size]
    rfl

/-! ## §2. The run of the inserted instructions. -/

/-- What a function captures is loaded. -/
theorem Instruction.results_loadCapture {f : Frame} {slot : UInt16} {v : Value}
    (h : f.function.captures[slot.toNat]?.map Capture.value = some v) (w : World σ) :
    (loadCapture slot).results f w [] = .ok [v] := by
  show entryOr (f.function.captures[slot.toNat]?.map Capture.value) _ = _
  rw [h]
  rfl

/-- A tuple of that many values is unpacked into them. -/
theorem Instruction.results_unpackSequence {count : UInt8} {ops : List Value}
    (h : ops.length = count.toNat) (f : Frame) (w : World σ) :
    (unpackSequence count).results f w [.tuple ops.reverse] = .ok ops := by
  show (if ops.reverse.length = count.toNat then _ else _) = _
  rw [if_pos (by rw [List.length_reverse, h]), List.reverse_reverse]

namespace Watched

variable {host : Host σ} {carried : FunctionId → Bool} {registry : RegistryId}
  {n : Native Value} {slots : CaptureSlots}
  {pending : List (Pending σ)} {f : Frame} {fs : List Frame} {st : Settings} {w w' : World σ}
  {flags : List Bool} {callee callee' : Value} {ops rest : List Value} {evs : List Event}

/-- An instruction of the frame's code that keeps the frame and the world, and
leaves the values `vs`. -/
theorem proceeds_at (vs ops rest : List Value) {p q : Nat} {i : Instruction} {out : List Value}
    {room : Prop} (hcode : decodeAt f.function.body.code p = .ok (i, q)) (hi : i.isPlain = true)
    (hops : ops.length = i.operands) (hr : i.results f w ops = .ok out)
    (hroom : room → i.Fits st rest out) (hvs : vs = out ++ rest)
    (hframe : i.frameAfter { f with ip := q } ops = { f with ip := q })
    (hworld : i.worldAfter f w ops = w) :
    Proceeds host carried pending room
      ⟨⟨.bytecode, pending, .of (ops ++ rest) ({ f with ip := p } :: fs) st w⟩, flags⟩ []
      ⟨⟨.bytecode, pending, .of vs ({ f with ip := q } :: fs) st w⟩, flags⟩ := by
  have hfetch : Machine.fetch { f with ip := p } = .ok (i, q) := Machine.fetch_of hcode
  rw [← Instruction.results_ip p] at hr
  have h : Proceeds host carried pending room
      ⟨⟨.bytecode, pending, .of (ops ++ rest) ({ f with ip := p } :: fs) st w⟩, flags⟩ []
      ⟨⟨.bytecode, pending, .of (out ++ rest) (i.frameAfter { f with ip := q } ops :: fs) st
        (i.worldAfter { f with ip := p } w ops)⟩, flags⟩ :=
    proceeds_plain ops rest hfetch hi hops hr hroom
  rw [Instruction.worldAfter_ip, hworld, hframe, ← hvs] at h
  exact h

theorem proceeds_buildTuple {p q : Nat} {count : UInt8} {room : Prop}
    (hcode : decodeAt f.function.body.code p = .ok (.buildTuple count, q))
    (hcount : ops.length = count.toNat) (hroom : room → rest.length + 1 ≤ st.maxValueStack) :
    Proceeds host carried pending room
      ⟨⟨.bytecode, pending, .of (ops ++ rest) ({ f with ip := p } :: fs) st w⟩, flags⟩ []
      ⟨⟨.bytecode, pending, .of (.tuple ops.reverse :: rest) ({ f with ip := q } :: fs) st w⟩,
        flags⟩ :=
  proceeds_at _ ops rest hcode rfl hcount rfl (fun h => Or.inr (Or.inr (hroom h))) rfl rfl rfl

theorem proceeds_unpackSequence (ops rest : List Value) {p q : Nat} {count : UInt8} {room : Prop}
    (hcode : decodeAt f.function.body.code p = .ok (.unpackSequence count, q))
    (hcount : ops.length = count.toNat)
    (hroom : room → rest.length + ops.length ≤ st.maxValueStack) :
    Proceeds host carried pending room
      ⟨⟨.bytecode, pending, .of (.tuple ops.reverse :: rest) ({ f with ip := p } :: fs) st w⟩,
        flags⟩ []
      ⟨⟨.bytecode, pending, .of (ops ++ rest) ({ f with ip := q } :: fs) st w⟩, flags⟩ :=
  proceeds_at _ [.tuple ops.reverse] rest hcode rfl rfl
    (Instruction.results_unpackSequence hcount f w) (fun h => Or.inr (Or.inr (hroom h))) rfl rfl rfl

theorem proceeds_loadCapture {p q : Nat} {slot : UInt16} {v : Value} {vs : List Value}
    {room : Prop} (hcode : decodeAt f.function.body.code p = .ok (.loadCapture slot, q))
    (hv : f.function.captures[slot.toNat]?.map Capture.value = some v)
    (hroom : room → vs.length + 1 ≤ st.maxValueStack) :
    Proceeds host carried pending room
      ⟨⟨.bytecode, pending, .of vs ({ f with ip := p } :: fs) st w⟩, flags⟩ []
      ⟨⟨.bytecode, pending, .of (v :: vs) ({ f with ip := q } :: fs) st w⟩, flags⟩ :=
  proceeds_at _ [] vs hcode rfl rfl (Instruction.results_loadCapture hv w)
    (fun h => Or.inr (Or.inr (hroom h))) rfl rfl rfl

theorem proceeds_swap {p q : Nat} {x y : Value} {vs : List Value} {room : Prop}
    (hcode : decodeAt f.function.body.code p = .ok (.swap, q)) :
    Proceeds host carried pending room
      ⟨⟨.bytecode, pending, .of (x :: y :: vs) ({ f with ip := p } :: fs) st w⟩, flags⟩ []
      ⟨⟨.bytecode, pending, .of (y :: x :: vs) ({ f with ip := q } :: fs) st w⟩, flags⟩ :=
  proceeds_at _ [x, y] vs hcode rfl rfl rfl (fun _ => Or.inr (Or.inl rfl)) rfl rfl rfl

theorem proceeds_synthetic {p q : Nat} {vs : List Value} {room : Prop}
    (hcode : decodeAt f.function.body.code p = .ok (.synthetic, q)) :
    Proceeds host carried pending room
      ⟨⟨.bytecode, pending, .of vs ({ f with ip := p } :: fs) st w⟩, flags⟩ []
      ⟨⟨.bytecode, pending, .of vs ({ f with ip := q } :: fs) st w⟩, flags⟩ :=
  proceeds_at _ [] vs hcode rfl rfl rfl (fun _ => Or.inl rfl) rfl rfl rfl

/-- The first seven instructions hand the adapter to the entry point. -/
theorem proceeds_decorator {p last : Nat} {count : UInt8} (hcount : ops.length = count.toNat)
    (hf : f.function.Keeps slots registry n)
    (hcode : Decodes f.function.body.code p [.buildTuple count, .swap, .loadCapture slots.entry,
      .loadCapture slots.adapter, .unpackSequence 3, .synthetic, .call entryCall] last) :
    Proceeds host carried pending (rest.length + 6 ≤ st.maxValueStack)
      ⟨⟨.bytecode, pending, .of (ops ++ callee :: rest) ({ f with ip := p } :: fs) st w⟩, flags⟩ []
      ⟨⟨.bytecode, pending,
        .of (.native ⟨⟨w.nextObject⟩, n.name, .decorator registry (plainAdapter n)⟩ :: callee
          :: .tuple ops.reverse :: rest)
          ({ f with ip := last } :: fs) st w.freshObject.2⟩, flags⟩ := by
  obtain ⟨entry, hrole, hentry⟩ := hf.entry
  obtain _ | ⟨h₁, hcode⟩ := hcode
  obtain _ | ⟨h₂, hcode⟩ := hcode
  obtain _ | ⟨h₃, hcode⟩ := hcode
  obtain _ | ⟨h₄, hcode⟩ := hcode
  obtain _ | ⟨h₅, hcode⟩ := hcode
  obtain _ | ⟨h₆, hcode⟩ := hcode
  obtain _ | ⟨h₇, hcode⟩ := hcode
  cases hcode
  -- the operands are packed away below the callee
  refine (proceeds_buildTuple h₁ hcount ?_).silent ?_
  · intro h
    rw [List.length_cons]
    omega
  refine (proceeds_swap h₂).silent ?_
  generalize Value.tuple ops.reverse = packed
  -- the adapter is unpacked above the entry point: now the stack is at its highest
  refine (proceeds_loadCapture h₃ hentry ?_).silent ?_
  · intro h
    rw [List.length_cons, List.length_cons]
    omega
  refine (proceeds_loadCapture h₄ hf.adapter ?_).silent ?_
  · intro h
    rw [List.length_cons, List.length_cons, List.length_cons]
    omega
  refine (proceeds_unpackSequence [.dict [], .tuple [], .native n]
    (.native entry :: callee :: packed :: rest) h₅ rfl ?_).silent ?_
  · intro h
    show rest.length + 3 + 3 ≤ _
    exact h
  refine (proceeds_synthetic h₆).silent ?_
  -- the entry point makes the decorator
  refine (Proceeds.of_passes (passes_own [.dict [], .tuple [], .native n]
    (callee :: packed :: rest) (by rw [hrole]; simp) (Machine.fetch_of h₇) rfl rfl)).silent ?_
  refine (Proceeds.of_passes (passes_entry hrole)).silent ?_
  refine proceeds_resume ?_
  intro h
  rw [List.length_cons, List.length_cons]
  omega

/-- The next three instructions let the decorator decorate the callee. -/
theorem proceeds_decorated {p last : Nat} {packed : Value} {decorator : Native Value}
    (hn : host.Echoes n) (hrole : decorator.role = .decorator registry (plainAdapter n))
    (hdec : Decorates registry n w callee callee' w' evs)
    (hcode : Decodes f.function.body.code p [.swap, .synthetic, .call decorateCall] last) :
    Proceeds host carried pending (rest.length + 6 ≤ st.maxValueStack)
      ⟨⟨.bytecode, pending, .of (.native decorator :: callee :: packed :: rest)
        ({ f with ip := p } :: fs) st w⟩, flags⟩ evs
      ⟨⟨.bytecode, pending, .of (callee' :: packed :: rest) ({ f with ip := last } :: fs) st w'⟩,
        flags⟩ := by
  obtain _ | ⟨h₁, hcode⟩ := hcode
  obtain _ | ⟨h₂, hcode⟩ := hcode
  obtain _ | ⟨h₃, hcode⟩ := hcode
  cases hcode
  refine (proceeds_swap h₁).silent ((proceeds_synthetic h₂).silent ?_)
  refine (Proceeds.of_passes (passes_own [callee] (packed :: rest) (by rw [hrole]; simp)
    (Machine.fetch_of h₃) rfl rfl)).silent ?_
  refine (Proceeds.of_passes (passes_decorator hn hrole hdec)).then_silent ?_
  refine proceeds_resume ?_
  intro h
  rw [List.length_cons]
  omega

/-- The last two instructions put the operands back. -/
theorem proceeds_unpacked {p last : Nat} {count : UInt8} (hcount : ops.length = count.toNat)
    (hcode : Decodes f.function.body.code p [.swap, .unpackSequence count] last) :
    Proceeds host carried pending (rest.length + 1 + ops.length ≤ st.maxValueStack)
      ⟨⟨.bytecode, pending, .of (callee :: .tuple ops.reverse :: rest)
        ({ f with ip := p } :: fs) st w⟩, flags⟩ []
      ⟨⟨.bytecode, pending, .of (ops ++ callee :: rest) ({ f with ip := last } :: fs) st w⟩,
        flags⟩ := by
  obtain _ | ⟨h₁, hcode⟩ := hcode
  obtain _ | ⟨h₂, hcode⟩ := hcode
  cases hcode
  exact (proceeds_swap h₁).silent (proceeds_unpackSequence ops (callee :: rest) h₂ hcount id)

/-- **The inserted instructions decorate the callee** and leave the rest of the
stack as it was. -/
theorem proceeds_inserted {p last : Nat} {count : UInt8} (hn : host.Echoes n)
    (hcount : ops.length = count.toNat) (hf : f.function.Keeps slots registry n)
    (hdec : Decorates registry n w.freshObject.2 callee callee' w' evs)
    (hcode : Decodes f.function.body.code p (slots.inserted count) last) :
    Proceeds host carried pending
      (rest.length + 6 ≤ st.maxValueStack ∧ rest.length + 1 + ops.length ≤ st.maxValueStack)
      ⟨⟨.bytecode, pending, .of (ops ++ callee :: rest) ({ f with ip := p } :: fs) st w⟩, flags⟩
      evs
      ⟨⟨.bytecode, pending, .of (ops ++ callee' :: rest) ({ f with ip := last } :: fs) st w'⟩,
        flags⟩ := by
  obtain ⟨q, hentry, hcode⟩ := Decodes.split [.buildTuple count, .swap, .loadCapture slots.entry,
    .loadCapture slots.adapter, .unpackSequence 3, .synthetic, .call entryCall]
    [.swap, .synthetic, .call decorateCall, .swap, .unpackSequence count] hcode
  obtain ⟨r, hdecorate, hunpack⟩ := Decodes.split [.swap, .synthetic, .call decorateCall]
    [.swap, .unpackSequence count] hcode
  refine ((proceeds_decorator hcount hf hentry).mono And.left).silent ?_
  refine ((proceeds_decorated hn rfl hdec hdecorate).mono And.left).then_silent ?_
  exact (proceeds_unpacked hcount hunpack).mono And.right

/-! ## §3. How the inserted instructions fail. -/

/-- An instruction of the frame's code that lacks operands. -/
theorem passes_short {vs : List Value} {p q : Nat} {i : Instruction}
    (hcode : decodeAt f.function.body.code p = .ok (i, q)) (hlow : vs.length < i.operands) :
    ∃ evs m flags', m.world = w ∧ Passes host carried
      ⟨⟨.bytecode, pending, .of vs ({ f with ip := p } :: fs) st w⟩, flags⟩ evs
      ⟨⟨.answer (.error .stackUnderflow), pending, m⟩, flags'⟩ := by
  have hfetch : Machine.fetch { f with ip := p } = .ok (i, q) := Machine.fetch_of hcode
  obtain ⟨evs, flags', hfailed⟩ := exists_failed (Machine.stepFrame_short hfetch hlow)
  exact ⟨evs, _, flags', rfl, hfailed⟩

/-- **Without an operand or the callee** they fail as the call itself does, if
there is room for the tuple of the operands. -/
theorem proceeds_short {vs : List Value} {p last : Nat} {count : UInt8}
    (hlow : vs.length < count.toNat + 1)
    (hcode : Decodes f.function.body.code p (slots.inserted count) last) :
    ∃ evs m flags', m.world = w ∧ Proceeds host carried pending (0 < st.maxValueStack)
      ⟨⟨.bytecode, pending, .of vs ({ f with ip := p } :: fs) st w⟩, flags⟩ evs
      ⟨⟨.answer (.error .stackUnderflow), pending, m⟩, flags'⟩ := by
  obtain _ | ⟨h₁, hcode⟩ := hcode
  obtain _ | ⟨h₂, hcode⟩ := hcode
  by_cases hfew : vs.length < count.toNat
  · obtain ⟨evs, m, flags', hworld, hfailed⟩ := passes_short h₁ hfew
    exact ⟨evs, m, flags', hworld, Proceeds.of_passes hfailed⟩
  · -- the operands are there, but the callee below them is not
    have hops : vs.length = count.toNat := by omega
    have hbuilt : Proceeds host carried pending (0 < st.maxValueStack)
        ⟨⟨.bytecode, pending, .of (vs ++ []) ({ f with ip := p } :: fs) st w⟩, flags⟩ []
        ⟨⟨.bytecode, pending, .of [.tuple vs.reverse] ({ f with ip := _ } :: fs) st w⟩, flags⟩ :=
      proceeds_buildTuple h₁ hops id
    rw [List.append_nil] at hbuilt
    have hlack : [Value.tuple vs.reverse].length < Instruction.swap.operands := Nat.lt_succ_self 1
    obtain ⟨evs, m, flags', hworld, hfailed⟩ := passes_short h₂ hlack
    exact ⟨evs, m, flags', hworld, hbuilt.silent (Proceeds.of_passes hfailed)⟩

theorem fails_short {vs : List Value} {p last : Nat} {count : UInt8}
    (hlow : vs.length < count.toNat + 1)
    (hcode : Decodes f.function.body.code p (slots.inserted count) last) :
    Fails host carried pending
      ⟨⟨.bytecode, pending, .of vs ({ f with ip := p } :: fs) st w⟩, flags⟩ := by
  obtain ⟨evs, m, flags', -, hshort⟩ := proceeds_short hlow hcode
  rcases hshort.passes_or_fails with hpasses | hfails
  · exact ⟨_, evs, m, flags', hpasses⟩
  · exact hfails

/-- The callee is a function that should be decorated and cannot be
instrumented. -/
theorem fails_decoration {p last : Nat} {count : UInt8} {g : Function Value}
    {e : InstrumentError} (hcount : ops.length = count.toNat)
    (hf : f.function.Keeps slots registry n)
    (heligible : (w.freshObject.2.registry registry).isEligible (.function g) n.name = true)
    (hbody : g.instrumentedBody = .error e)
    (hcode : Decodes f.function.body.code p (slots.inserted count) last) :
    Fails host carried pending
      ⟨⟨.bytecode, pending, .of (ops ++ .function g :: rest) ({ f with ip := p } :: fs) st w⟩,
        flags⟩ := by
  obtain ⟨q, hentry, hcode⟩ := Decodes.split [.buildTuple count, .swap, .loadCapture slots.entry,
    .loadCapture slots.adapter, .unpackSequence 3, .synthetic, .call entryCall]
    [.swap, .synthetic, .call decorateCall, .swap, .unpackSequence count] hcode
  obtain _ | ⟨h₁, hcode⟩ := hcode
  obtain _ | ⟨h₂, hcode⟩ := hcode
  obtain _ | ⟨h₃, hcode⟩ := hcode
  rcases (proceeds_decorator hcount hf hentry).passes_or_fails with hdecorator | hfails
  · refine Fails.of_passes hdecorator ?_
    -- from here on no room is needed
    let decorator : Native Value := ⟨⟨w.nextObject⟩, n.name, .decorator registry (plainAdapter n)⟩
    let packed := Value.tuple ops.reverse
    have hmarked : Passes host carried
        ⟨⟨.bytecode, pending, .of (.native decorator :: .function g :: packed :: rest)
          ({ f with ip := q } :: fs) st w.freshObject.2⟩, flags⟩ []
        ⟨⟨.bytecode, pending, .of (.function g :: .native decorator :: packed :: rest)
          ({ f with ip := _ } :: fs) st w.freshObject.2⟩, flags⟩ :=
      ((proceeds_swap h₁).silent (proceeds_synthetic h₂)).passes trivial
    refine Fails.of_passes hmarked (Fails.of_passes (passes_own
      [.function g] (packed :: rest) (by simp [decorator]) (Machine.fetch_of h₃) rfl rfl) ?_)
    exact Fails.of_passes (passes_decorator_error rfl heligible hbody) (Fails.of_operand _ _)
  · exact hfails

end Watched

end CallDecoration
