/-
  CallDecoration.Proofs.Decoration.Hygiene
  ──────────────────────────────────────
  **Who loads the captures that a decoration adds.**  A copy has the captures of
  its original and, behind them, an entry point and an adapter for each
  decoration.  The passes insert loads of these and copy the loads of the
  original as they are.  To tell the two apart, every instruction of a copy is
  traced to the instruction of the original that it stems from
  (`Function.TracedCopy`).  A load of the original ends in the copy as it does
  in the original, except if its index is behind the captures of the original
  and within those of the copy: it fails there, and gets hold of an entry point
  or an adapter here (`Function.TracedCopy.hygienic_iff`).
-/
import CallDecoration.Proofs.Decoration.Fidelity
import CallDecoration.Proofs.Instrumentation.Relocation
import CallDecoration.Proofs.Machine.Stepping

namespace CallDecoration

/-! ## §1. Where instructions stem from. -/

/-- An instruction of a copy, with the offset of the instruction of the original
that it stems from, if it was not inserted. -/
abbrev TracedInstruction := Option Nat × Instruction

namespace CaptureSlots

variable (slots : CaptureSlots)

/-- What a pass puts before an instruction. -/
def insertedBefore (marked : Bool) (i : Instruction) : List Instruction :=
  match i.shape? with
  | some shape => if marked = true then [] else slots.inserted (UInt8.ofNat shape.slots)
  | none => []

/-- **The images of traced instructions:** each stems from where it did, and what is
put before it stems from nothing. -/
def traceCalls (marked : Bool) : List TracedInstruction → List TracedInstruction
  | [] => []
  | (origin, i) :: rest =>
      (slots.insertedBefore marked i).map (none, ·) ++ (origin, i) :: traceCalls i.isMark rest

variable {slots}

theorem image_eq_append (marked : Bool) (i : Instruction) :
    slots.image marked i = slots.insertedBefore marked i ++ [i] := by
  unfold image insertedBefore
  cases hshape : i.shape? with
  | none => rfl
  | some shape =>
      obtain rfl := Instruction.eq_call_of_shape? hshape
      cases marked <;> rfl

theorem traceCalls_instructions (marked : Bool) (xs : List TracedInstruction) :
    (slots.traceCalls marked xs).map Prod.snd = slots.expandCalls marked (xs.map Prod.snd) := by
  induction xs generalizing marked with
  | nil => rfl
  | cons x rest ih =>
      have hinserted : ((slots.insertedBefore marked x.2).map
          fun j => ((none, j) : TracedInstruction)).map Prod.snd
          = slots.insertedBefore marked x.2 := by
        rw [List.map_map]
        exact List.map_id _
      rw [traceCalls, List.map_append, hinserted, List.map_cons, List.map_cons, expandCalls,
        image_eq_append, List.append_assoc, ih]
      rfl

/-- **A pass loses no instruction and doubles none:** those that are not inserted
are the same, in the same order. -/
theorem traceCalls_own (marked : Bool) (xs : List TracedInstruction) :
    (slots.traceCalls marked xs).filter (·.1.isSome) = xs.filter (·.1.isSome) := by
  induction xs generalizing marked with
  | nil => rfl
  | cons x rest ih =>
      have hnone : ((slots.insertedBefore marked x.2).map
          fun j => ((none, j) : TracedInstruction)).filter (·.1.isSome) = [] := by
        refine List.filter_eq_nil_iff.mpr fun y hy => ?_
        obtain ⟨j, -, rfl⟩ := List.mem_map.mp hy
        exact Bool.false_ne_true
      rw [traceCalls, List.filter_append, hnone, List.nil_append, List.filter_cons,
        List.filter_cons, ih]

end CaptureSlots

/-! ## §2. Copies, traced. -/

/-- Traced instructions with their jumps led elsewhere. -/
def redirected (carry : Nat → Nat) (trace : List TracedInstruction) : List TracedInstruction :=
  trace.map fun x => (x.1, x.2.carried carry)

theorem redirected_instructions (carry : Nat → Nat) (trace : List TracedInstruction) :
    (redirected carry trace).map Prod.snd
      = (trace.map Prod.snd).map (Instruction.carried carry) := by
  unfold redirected
  rw [List.map_map, List.map_map]
  rfl

/-- What is no jump has not been led elsewhere. -/
theorem mem_of_mem_redirected {carry : Nat → Nat} {trace : List TracedInstruction}
    {origin : Option Nat} {i : Instruction} (hi : i.target? = none)
    (h : (origin, i) ∈ redirected carry trace) : (origin, i) ∈ trace := by
  obtain ⟨⟨origin', j⟩, hj, heq⟩ := List.mem_map.mp h
  cases heq
  have hsame : j.carried carry = j := by
    cases j with
    | jump target => cases hi
    | jumpIfFalse target => cases hi
    | _ => rfl
  rw [hsame]
  exact hj

namespace Function

/-- **A copy of `f` after a number of decorations, one on top of the other,** with
its instructions traced to those of `f`. -/
inductive TracedCopy (f : Function Value) :
    Nat → Function Value → List TracedInstruction → Prop where
  | original {rows : List (Nat × Instruction)} (h : f.body.instructions = .ok rows) :
      TracedCopy f 0 f (rows.map fun row => (some row.1, row.2))
  | copy {k : Nat} {g : Function Value} {trace : List TracedInstruction} {slots : CaptureSlots}
      {body : Chunk Value} (h : TracedCopy f k g trace) (hslots : g.freshSlots? = some slots)
      (hbody : g.instrumentedBody = .ok body) (number : FunctionId) (entry : Value)
      (a : Adapter Value) :
      TracedCopy f (k + 1) (g.copyWith number body entry a)
        (redirected (slots.carriedOffset (rowsFrom 0 (trace.map Prod.snd)))
          (slots.traceCalls false trace))
  /-- The same function under another identity. -/
  | renumbered {k : Nat} {g : Function Value} {trace : List TracedInstruction}
      (h : TracedCopy f k g trace) (number : FunctionId) :
      TracedCopy f k { g with id := number } trace

namespace TracedCopy

variable {f g : Function Value} {k : Nat} {trace : List TracedInstruction}

/-- **What an instrumentation makes of a copy** is a copy again. -/
theorem instrument {σ : Type} (h : f.TracedCopy k g trace) {registry : RegistryId}
    {a : Adapter Value} {g' : Function Value} {w w' : World σ}
    (hyields : (g.instrument registry a).Yields w g' w') :
    ∃ trace', f.TracedCopy (k + 1) g' trace' := by
  obtain ⟨number, body, entry, hbody, rfl⟩ := Function.eq_copyWith_of_yields hyields
  obtain ⟨slots, hslots⟩ := Function.exists_freshSlots hbody
  exact ⟨_, h.copy hslots hbody number entry a⟩

/-- The code of a copy decodes to the instructions that are traced. -/
theorem instructions (h : f.TracedCopy k g trace) :
    g.body.instructions = .ok (rowsFrom 0 (trace.map Prod.snd)) := by
  induction h with
  | @original rows h =>
      have hrows : (rows.map fun row => ((some row.1, row.2) : TracedInstruction)).map Prod.snd
          = rows.map Prod.snd := by
        rw [List.map_map]
        rfl
      rw [hrows, ← (rows_of_decode h).eq_rowsFrom]
      exact h
  | @copy k g trace slots body h hslots hbody number entry a ih =>
      obtain ⟨chunk, hpass, rfl⟩ := Function.exists_pass hslots hbody
      show chunk.instructions = _
      rw [Chunk.instructions_instrument ih hpass, Chunk.instrumentedCode, redirected_instructions,
        CaptureSlots.traceCalls_instructions, rowsFrom_instructions]
  | renumbered h number ih => exact ih

/-- Each decoration adds two captures. -/
theorem captures_size (h : f.TracedCopy k g trace) :
    g.captures.size = f.captures.size + 2 * k := by
  induction h with
  | original => rfl
  | @copy k g trace slots body h hslots hbody number entry a ih =>
      show ((g.captures.push _).push _).size = _
      rw [Array.size_push, Array.size_push, ih]
      omega
  | renumbered h number ih => exact ih

/-- **What the original captures, a copy captures at the same index.** -/
theorem captures_lt (h : f.TracedCopy k g trace) {index : Nat} (hindex : index < f.captures.size) :
    g.captures[index]? = f.captures[index]? := by
  induction h with
  | original => rfl
  | @copy k g trace slots body h hslots hbody number entry a ih =>
      have hsize := h.captures_size
      rw [Function.captures_copyWith_lt (by omega), ih]
  | renumbered h number ih => exact ih

/-- **Every instruction of the original stems on in the copy,** once and in order. -/
theorem origins (h : f.TracedCopy k g trace) {rows : List (Nat × Instruction)}
    (hrows : f.body.instructions = .ok rows) :
    trace.filterMap Prod.fst = rows.map Prod.fst := by
  induction h with
  | original h =>
      cases h.symm.trans hrows
      rw [List.filterMap_map]
      exact List.filterMap_eq_map_iff_forall_eq_some.mpr fun _ _ => rfl
  | @copy k g trace slots body h hslots hbody number entry a ih =>
      have hown (xs : List TracedInstruction) :
          xs.filterMap Prod.fst = (xs.filter (·.1.isSome)).filterMap Prod.fst := by
        rw [List.filterMap_filter]
        refine List.filterMap_congr fun x _ => ?_
        cases hx : x.1 <;> simp
      unfold redirected
      rw [List.filterMap_map, ← ih]
      show (slots.traceCalls false trace).filterMap Prod.fst = _
      rw [hown, CaptureSlots.traceCalls_own, ← hown]
  | renumbered h number ih => exact ih

/-- **A copy has the instructions of its original as they are,** but for jumps. -/
theorem mem_original (h : f.TracedCopy k g trace) {rows : List (Nat × Instruction)}
    (hrows : f.body.instructions = .ok rows) {p : Nat} {i : Instruction} (hi : i.target? = none)
    (hmem : (some p, i) ∈ trace) : (p, i) ∈ rows := by
  induction h with
  | original h =>
      cases h.symm.trans hrows
      obtain ⟨row, hrow, heq⟩ := List.mem_map.mp hmem
      cases heq
      exact hrow
  | @copy k g trace slots body h hslots hbody number entry a ih =>
      -- what has an origin has not been inserted, so that the pass has taken it over
      refine ih ?_
      have hmem := mem_of_mem_redirected hi hmem
      have hown : (some p, i) ∈ (slots.traceCalls false trace).filter (·.1.isSome) :=
        List.mem_filter.mpr ⟨hmem, rfl⟩
      rw [CaptureSlots.traceCalls_own] at hown
      exact (List.mem_filter.mp hown).1
  | renumbered h number ih => exact ih hmem

theorem exists_rows (h : f.TracedCopy k g trace) : ∃ rows, f.body.instructions = .ok rows := by
  induction h with
  | original h => exact ⟨_, h⟩
  | copy h _ _ _ _ _ ih => exact ih
  | renumbered h number ih => exact ih

end TracedCopy

end Function

/-! ## §3. Loading a capture. -/

/-- **What stands at an offset of a traced body,** and where it stems from. -/
def Traced (trace : List TracedInstruction) (offset : Nat) (x : TracedInstruction) : Prop :=
  ∃ before after, trace = before ++ x :: after ∧ offset = (encode (before.map Prod.snd)).size

theorem Traced.mem {trace : List TracedInstruction} {offset : Nat} {x : TracedInstruction}
    (h : Traced trace offset x) : x ∈ trace := by
  obtain ⟨before, after, hsplit, -⟩ := h
  rw [hsplit]
  exact List.mem_append_right before List.mem_cons_self

/-- All that a traced body decodes to stems from somewhere. -/
theorem exists_traced {trace : List TracedInstruction} {offset : Nat} {i : Instruction}
    (h : (offset, i) ∈ rowsFrom 0 (trace.map Prod.snd)) :
    ∃ origin, Traced trace offset (origin, i) := by
  obtain ⟨before, after, hsplit, rfl⟩ := mem_rowsFrom.mp h
  obtain ⟨xs, ys, rfl, rfl, hys⟩ := List.map_eq_append_iff.mp hsplit
  obtain ⟨⟨origin, j⟩, zs, rfl, rfl, rfl⟩ := List.map_eq_cons_iff.mp hys
  exact ⟨origin, xs, zs, rfl, Nat.zero_add _⟩

namespace Machine

variable {σ : Type} {fr : Frame} {index : UInt16} {next : Nat} (vs : List Value) (fs : List Frame)
  (st : Settings) (w : World σ)

/-- **The outcome of a load:** what it signals and which values it leaves. -/
def loadOutcome (entry : Option (Capture Value)) (index : UInt16) (vs : List Value) (limit : Nat) :
    Except RunError Signal × List Value :=
  match entry with
  | none => (.error (.invalidCapture index), vs)
  | some c =>
      if vs.length < limit then (.ok .advance, c.value :: vs) else (.error .valueStackOverflow, vs)

theorem stepFrame_loadCapture (hfetch : fetch fr = .ok (.loadCapture index, next)) :
    ((stepFrame (of vs (fr :: fs) st w)).1, (stepFrame (of vs (fr :: fs) st w)).2.stack.items)
      = loadOutcome fr.function.captures[index.toNat]? index vs st.maxValueStack := by
  have hload : execute (.loadCapture index) (of vs ({ fr with ip := next } :: fs) st w)
      = andAdvance (pushOr (fr.function.captures[index.toNat]?.map Capture.value)
          (.invalidCapture index)) (of vs ({ fr with ip := next } :: fs) st w) :=
    andAdvance_congr (loadCapture_eq index)
  rw [stepFrame_of hfetch, hload]
  -- there is no capture, or there is one and room for it, or the stack is full
  cases fr.function.captures[index.toNat]? with
  | none => rfl
  | some c =>
      unfold loadOutcome
      dsimp only [Option.map_some, pushOr]
      by_cases hroom : vs.length < st.maxValueStack
      · rw [andAdvance_ok (push_of hroom), if_pos hroom]
        rfl
      · rw [andAdvance_error (push_full hroom), if_neg hroom]
        rfl

/-- The machine with another function running in its frame, at an offset. -/
def runningAs (f : Function Value) (offset : Nat) (m : Machine σ) : Machine σ :=
  { m with frames := m.frames.modifyTop fun fr => { fr with function := f, ip := offset } }

/-- **The next instruction ends as it would in `f` at an offset:** with the same
signal or error, and the same values on the stack. -/
def ActsLike (f : Function Value) (offset : Nat) (m : Machine σ) : Prop :=
  (stepFrame m).1 = (stepFrame (m.runningAs f offset)).1
    ∧ (stepFrame m).2.stack.items = (stepFrame (m.runningAs f offset)).2.stack.items

/-- Two loads of the same index end alike if they find the same, and never if one of
them finds nothing and the other something. -/
theorem actsLike_loadCapture {f : Function Value} {offset next' : Nat}
    (hfetch : fetch fr = .ok (.loadCapture index, next))
    (hfetch' : fetch { fr with function := f, ip := offset } = .ok (.loadCapture index, next')) :
    ActsLike f offset (of vs (fr :: fs) st w)
      ↔ loadOutcome fr.function.captures[index.toNat]? index vs st.maxValueStack
        = loadOutcome f.captures[index.toNat]? index vs st.maxValueStack := by
  rw [← stepFrame_loadCapture vs fs st w hfetch, ← stepFrame_loadCapture vs fs st w hfetch',
    Prod.mk.injEq]
  rfl

theorem loadOutcome_some_ne_none (c : Capture Value) (index : UInt16) (vs : List Value)
    (limit : Nat) : loadOutcome (some c) index vs limit ≠ loadOutcome none index vs limit := by
  unfold loadOutcome
  dsimp only
  split <;> exact fun h => by cases congrArg Prod.fst h

end Machine

namespace RunState

variable {σ : Type}

/-- **The next instruction loads a capture in a frame of the copy `g`,** and stems
from the body of the original, where it is at the offset `p`. -/
def LoadsOwn (g : Function Value) (trace : List TracedInstruction) (p : Nat) (index : UInt16)
    (t : RunState σ) : Prop :=
  ∃ fr, t.upcoming? = some (fr, .loadCapture index) ∧ fr.function = g
    ∧ Traced trace fr.ip (some p, .loadCapture index)

end RunState

namespace Function.TracedCopy

variable {σ : Type} {f g : Function Value} {k : Nat} {trace : List TracedInstruction}

/-- **What a load of the original finds in the copy:** the same capture, nothing, or
one that a decoration has added. -/
theorem actsLike_iff (h : f.TracedCopy k g trace) {t : RunState σ} {p : Nat} {index : UInt16}
    (hown : t.LoadsOwn g trace p index) :
    Machine.ActsLike f p t.machine
      ↔ index.toNat < f.captures.size ∨ f.captures.size + 2 * k ≤ index.toNat := by
  obtain ⟨fr, hup, rfl, htraced⟩ := hown
  obtain ⟨pending, next, vs, fs, st, w, rfl, hfetch⟩ := RunState.upcoming?_eq_some hup
  -- the same instruction is at the offset `p` of the original
  obtain ⟨rows, hrows⟩ := h.exists_rows
  have hmem : (p, Instruction.loadCapture index) ∈ rows := h.mem_original hrows rfl htraced.mem
  obtain ⟨_, _, next', _, hrow, _⟩ := (rows_of_decode hrows).split hmem
  have hfetch' : Machine.fetch { fr with function := f, ip := p }
      = .ok (.loadCapture index, next') := Machine.fetch_of hrow
  refine (Machine.actsLike_loadCapture vs fs st w hfetch hfetch').trans ?_
  have hsize := h.captures_size
  by_cases hlow : index.toNat < f.captures.size
  · rw [h.captures_lt hlow]
    exact iff_of_true rfl (Or.inl hlow)
  · have hmissing : f.captures[index.toNat]? = none := Array.getElem?_eq_none (by omega)
    rw [hmissing]
    by_cases hhigh : f.captures.size + 2 * k ≤ index.toNat
    · rw [Array.getElem?_eq_none (by omega)]
      exact iff_of_true rfl (Or.inr hhigh)
    · -- a capture that a decoration has added
      rw [Array.getElem?_eq_getElem (by omega)]
      exact iff_of_false (Machine.loadOutcome_some_ne_none _ _ _ _) (by omega)

end Function.TracedCopy

/-! ## §4. Hygiene. -/

section Hygiene

variable {σ : Type} {host : Host σ} {f g : Function Value} {k : Nat}
  {trace : List TracedInstruction} {m : Machine σ} {callee : Value} {args : CallArgs}

/-- **The captures that decorations have added to the copy `g` of `f` are
hygienic,** in the run that begins in `s`. -/
structure Hygienic (host : Host σ) (f g : Function Value) (trace : List TracedInstruction)
    (s : RunState σ) : Prop where
  /-- What loads a capture and stems from `f` ends as it does in `f`. -/
  alike : ∀ t p index, RunState.Reaches host s t → t.LoadsOwn g trace p index →
    Machine.ActsLike f p t.machine
  /-- What loads an added capture has been inserted. -/
  guarded : ∀ t fr index, RunState.Reaches host s t →
    t.upcoming? = some (fr, .loadCapture index) → fr.function = g →
    f.captures.size ≤ index.toNat → index.toNat < g.captures.size →
    Traced trace fr.ip (none, .loadCapture index)

namespace Function.TracedCopy

/-- What a frame of a copy is about to execute is traced. -/
theorem upcoming_traced (h : f.TracedCopy k g trace) (hm : m.frames = .empty) {t : RunState σ}
    {fr : Frame} {i : Instruction} (hreach : RunState.Reaches host (.ofCall host m callee args) t)
    (hup : t.upcoming? = some (fr, i)) (hfunction : fr.function = g) :
    ∃ origin, Traced trace fr.ip (origin, i) := by
  obtain ⟨j, rfl⟩ := hreach
  obtain ⟨pending, next, vs, fs, st, w, hstate, hfetch⟩ := RunState.upcoming?_eq_some hup
  have hdecode : decode fr.function.body.code = .ok (rowsFrom 0 (trace.map Prod.snd)) := by
    rw [hfunction]
    exact h.instructions
  -- the frame is where an instruction of its body begins, so that it is the one that is fetched
  have hrunning : fr :: fs <:+ ((RunState.step host)^[j]
      (.ofCall host m callee args)).machine.frames.items := by
    rw [hstate]
    exact List.suffix_rfl
  have hstands := RunState.stands_iterate (RunState.entered_ofCall host callee args hm) j hrunning
    hdecode
  exact exists_traced (Frame.fetches_row hdecode hstands hfetch)

/-- **Loads of the original that stay clear of the added captures** make them
hygienic. -/
theorem hygienic_of_clear (h : f.TracedCopy k g trace) (hm : m.frames = .empty)
    (hclear : ∀ t p index, RunState.Reaches host (.ofCall host m callee args) t →
      t.LoadsOwn g trace p index →
      index.toNat < f.captures.size ∨ f.captures.size + 2 * k ≤ index.toNat) :
    Hygienic host f g trace (.ofCall host m callee args) where
  alike := fun t p index hreach hown => (h.actsLike_iff hown).mpr (hclear t p index hreach hown)
  guarded := by
    intro t fr index hreach hup hfunction hlow hhigh
    obtain ⟨origin, htraced⟩ := h.upcoming_traced hm hreach hup hfunction
    cases origin with
    | none => exact htraced
    | some p =>
        -- a load of the original would stay clear of the added captures
        exfalso
        have hsize := h.captures_size
        have haway := hclear t p index hreach ⟨fr, hup, hfunction, htraced⟩
        omega

/-- A function that only loads captures that it has stays clear of what decorations
add. -/
theorem clear_of_capturesInRange (h : f.TracedCopy k g trace) (hrange : f.CapturesInRange)
    {t : RunState σ} {p : Nat} {index : UInt16} (hown : t.LoadsOwn g trace p index) :
    index.toNat < f.captures.size := by
  obtain ⟨fr, -, -, htraced⟩ := hown
  obtain ⟨rows, hrows⟩ := h.exists_rows
  exact hrange rows hrows p index (h.mem_original hrows rfl htraced.mem)

/-- **Such a function leaves to its copies what decorations add.** -/
theorem hygienic_of_capturesInRange (h : f.TracedCopy k g trace) (hm : m.frames = .empty)
    (hrange : f.CapturesInRange) : Hygienic host f g trace (.ofCall host m callee args) :=
  h.hygienic_of_clear hm fun _ _ _ _ hown => Or.inl (h.clear_of_capturesInRange hrange hown)

/-- **Added captures are hygienic exactly if no load of the original hits them:** if
every one that a run comes to has an index of the original, or one beyond the
captures of the copy. -/
theorem hygienic_iff (h : f.TracedCopy k g trace) (hm : m.frames = .empty) :
    Hygienic host f g trace (.ofCall host m callee args)
      ↔ ∀ t p index, RunState.Reaches host (.ofCall host m callee args) t →
        t.LoadsOwn g trace p index →
        index.toNat < f.captures.size ∨ f.captures.size + 2 * k ≤ index.toNat :=
  ⟨fun hygienic t p index hreach hown =>
    (h.actsLike_iff hown).mp (hygienic.alike t p index hreach hown), h.hygienic_of_clear hm⟩

end Function.TracedCopy

end Hygiene

/-! ## §5. Loads within and behind the captures. -/

/-- A function with one capture, which it calls. -/
def callsCapture : Function Value :=
  { simpleFunction 2 "f" #[] [.loadCapture 0, .call (CallShape.plain 0), .return] with
    captures := #[⟨"g", .function answersFive⟩] }

theorem callsCapture_inRange : callsCapture.CapturesInRange := by
  intro rows hrows offset index hmem
  cases (show callsCapture.body.instructions
    = .ok [(0, .loadCapture 0), (3, .call (CallShape.plain 0)), (6, .return)] from rfl).symm.trans
      hrows
  simp only [List.mem_cons, Prod.mk.injEq, Instruction.loadCapture.injEq, reduceCtorEq, and_false,
    List.not_mem_nil, or_false] at hmem
  rw [hmem.2]
  exact Nat.zero_lt_one

/-- The function above after two decorations. -/
theorem hygienic_callsCapture :
    ∃ g trace, callsCapture.TracedCopy 2 g trace
      ∧ Hygienic echoHost callsCapture g trace
        (.ofCall echoHost (.new .standard boundWorld) (.function g) .none) := by
  have hfirst := (Function.TracedCopy.original (f := callsCapture) rfl).copy rfl
    (show callsCapture.instrumentedBody = .ok _ from rfl) ⟨3⟩
    (boundWorld.newEntryPoint ⟨0⟩).1 (plainAdapter ⟨⟨0⟩, "v", .host⟩)
  have hsecond := hfirst.copy rfl (show Function.instrumentedBody _ = .ok _ from rfl) ⟨4⟩
    (boundWorld.newEntryPoint ⟨0⟩).1 (plainAdapter ⟨⟨0⟩, "w", .host⟩)
  exact ⟨_, _, hsecond, (hsecond.hygienic_iff rfl).mpr fun _ _ _ _ hown =>
    Or.inl (hsecond.clear_of_capturesInRange callsCapture_inRange hown)⟩

/-- A function without captures that loads one. -/
def loadsMissing : Function Value :=
  simpleFunction 2 "f" #[] [.loadCapture 0, .return]

/-- **Its copy gets hold of the entry point** where it fails itself. -/
theorem not_hygienic_loadsMissing :
    ∃ g trace, loadsMissing.TracedCopy 1 g trace
      ∧ ¬ Hygienic echoHost loadsMissing g trace
        (.ofCall echoHost (.new .standard boundWorld) (.function g) .none) := by
  have hcopy := (Function.TracedCopy.original (f := loadsMissing) rfl).copy rfl
    (show loadsMissing.instrumentedBody = .ok _ from rfl) ⟨3⟩
    (boundWorld.newEntryPoint ⟨0⟩).1 (plainAdapter ⟨⟨0⟩, "w", .host⟩)
  refine ⟨_, _, hcopy, fun hygienic => ?_⟩
  have hclear := (hcopy.actsLike_iff ?own).mp (hygienic.alike _ 0 0 (.refl _) ?own)
  case own =>
    -- the first instruction of the copy stems from the first one of the function
    exact ⟨⟨_, 0, 0, #[]⟩, rfl, rfl, [], [(some 3, .return)], rfl, rfl⟩
  exact absurd hclear (by decide)

end CallDecoration
