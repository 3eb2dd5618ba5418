/-
  CallDecoration.Proofs.CommandLine.Chain
  ──────────────────────────────────────
  **Running the decorated chain, link by link, with its steps counted.**  A
  wrapped link wraps the next one and calls it (`takes_calling`), and the last
  one answers.  So a call of a link comes back with the length of the chain
  (`takes_links`), unless the frames come to their limit on the way
  (`takes_tooDeep`), or the inserted instructions find no room on the stack,
  which the first link does already (`overflowsIn_first`).
-/
import CallDecoration.Proofs.CommandLine.Links
import CallDecoration.Proofs.Decoration.Inheritance

namespace CallDecoration.Demo

open RunState

variable {pending : List (Pending (List String))} {fs : List Frame} {st : Settings}
  {w : World (List String)} {vs : List Value} {depth index : Nat}

/-! ## §1. Wrapping a link. -/

/-- **The decoration of a link.** -/
theorem takes_decorate {g : Function Value} {body : Chunk Value}
    (heligible : (w.registry registry).isEligible (.function g) counterName = true)
    (hbody : g.instrumentedBody = .ok body) :
    Takes host 14
      ⟨.action (decorate registry (.function g) (plainAdapter counter)), pending, .of vs fs st w⟩
      ⟨.answer (.ok (.function (g.copyIn registry counter body w))), pending,
        .of vs fs st (wrapping g (g.copyIn registry counter body w) w)⟩ := by
  rw [← Action.handle_done (decorate registry (.function g) (plainAdapter counter)), decorate_handle]
  have hbegins : Takes host 1
      ⟨.action (.read fun w =>
        if (w.registry registry).isEligible (.function g) counterName then
          (decorateFunction registry g (plainAdapter counter)).handle .done
        else .done (.ok (.function g))), pending, .of vs fs st w⟩
      ⟨.action ((decorateFunction registry g (plainAdapter counter)).handle .done), pending,
        .of vs fs st w⟩ :=
    congrArg (fun a => (⟨.action a, pending, .of vs fs st w⟩ : RunState (List String)))
      (if_pos heligible)
  refine hbegins.trans (n := 13) ?_
  -- five requests make the copy, five steps apply the counter, and its answer is recorded
  rw [decorateFunction_handle registry .done hbody]
  rfl

/-- The next link is wrapped. -/
theorem takes_wrap (hw : WrappedTo depth index w) (hindex : index < depth) :
    Takes host 14
      ⟨.action (decorate registry (.function (link depth index)) (plainAdapter counter)), pending,
        .of vs fs st w.freshObject.2⟩
      ⟨.answer (.ok (.function (wrapped depth index))), pending,
        .of vs fs st (wrapping (link depth index) (wrapped depth index) w.freshObject.2)⟩ := by
  have h : Takes host 14
      ⟨.action (decorate registry (.function (link depth index)) (plainAdapter counter)), pending,
        .of vs fs st w.freshObject.2⟩ _ :=
    takes_decorate (hw.eligible hindex) (instrumentedBody_link depth index)
  rw [hw.copyIn_eq] at h
  exact h

/-! ## §2. A link that calls the next one. -/

/-- The frame of a wrapped link that stands at an offset of its code. -/
def atLink (depth index ip : Nat) : Frame :=
  ⟨wrapped depth index, ip, 0, #[]⟩

/-- Where the code of a wrapped link calls the next one. -/
def callOffset : Nat := 26

/-- Where the code of a wrapped link returns. -/
def returnOffset : Nat := 29

/-- Where a wrapped link keeps the entry point and the adapter. -/
theorem captures_wrapped (depth index : Nat) :
    (wrapped depth index).captures[slots.entry.toNat]?.map Capture.value
        = some (.native ⟨⟨2 * index + 2⟩, entryPointName, .entryPoint registry⟩)
      ∧ (wrapped depth index).captures[slots.adapter.toNat]?.map Capture.value
        = some (plainAdapter counter).asTuple :=
  Function.captures_copyWith rfl _ _ _ _

section Calling

variable (hcalls : index + 1 < depth)

include hcalls

theorem code_calling : (wrapped depth index).body.code = encode expandedCode := by
  show (wrappedBody depth index).code = _
  rw [wrappedBody_calling hcalls]

theorem decodeAt_load :
    decodeAt (wrapped depth index).body.code 0 = .ok (.loadGlobal 0, 3) := by
  rw [code_calling hcalls]
  rfl

theorem decodes_wrapping :
    Decodes (wrapped depth index).body.code 3 (slots.inserted 0) callOffset := by
  rw [code_calling hcalls]
  refine decodes_encode [.loadGlobal 0] (slots.inserted 0) [.call (CallShape.plain 0), .return]
    (by decide +kernel) fun i hi => ?_
  have hmem : i ∈ slots.expansion (CallShape.plain 0) := List.mem_append_left _ hi
  exact Layout.isWritten_expansion (fun h => by cases h) hmem _

theorem fetch_call :
    Machine.fetch (atLink depth index callOffset)
      = .ok (.call (CallShape.plain 0), returnOffset) := by
  refine Machine.fetch_of ?_
  show decodeAt (wrapped depth index).body.code callOffset = _
  rw [code_calling hcalls]
  rfl

theorem fetch_return :
    Machine.fetch (atLink depth index returnOffset) = .ok (.return, returnOffset + 1) := by
  refine Machine.fetch_of ?_
  show decodeAt (wrapped depth index).body.code returnOffset = _
  rw [code_calling hcalls]
  rfl

/-- The next link is what is loaded. -/
theorem results_calling (hw : WrappedTo depth (index + 1) w) :
    (Instruction.loadGlobal 0).results (atLink depth index 0) w []
      = .ok [.function (link depth (index + 1))] := by
  have hname : (wrapped depth index).body.names[(0 : UInt16).toNat]?
      = some (linkName (index + 1)) := by
    show (wrappedBody depth index).names[(0 : UInt16).toNat]? = _
    rw [wrappedBody_calling hcalls]
    rfl
  show Instruction.globalOf (atLink depth index 0) w 0 = _
  unfold Instruction.globalOf
  rw [show (atLink depth index 0).function = wrapped depth index from rfl, hname]
  show Instruction.entryOr (w.lookup scope.id (linkName (index + 1))) _ = _
  rw [hw.bound _ hcalls]
  rfl

variable (pending fs) in
/-- **A wrapped link loads the next link and wraps it.** -/
theorem takes_calling (hw : WrappedTo depth (index + 1) w) (hroom : 6 ≤ st.maxValueStack) :
    ∃ w', WrappedTo depth (index + 2) w'
      ∧ Takes host 32 ⟨.bytecode, pending, .of [] (atLink depth index 0 :: fs) st w⟩
        ⟨.bytecode, pending, .of [.function (wrapped depth (index + 1))]
          (atLink depth index callOffset :: fs) st w'⟩ := by
  obtain ⟨hentry, hadapter⟩ := captures_wrapped depth index
  obtain ⟨q, hdecorating, hunpack⟩ := Decodes.split
    [.buildTuple 0, .swap, .loadCapture slots.entry, .loadCapture slots.adapter, .unpackSequence 3,
      .synthetic, .call entryCall, .swap, .synthetic, .call decorateCall]
    [.swap, .unpackSequence 0] (decodes_wrapping hcalls)
  have hnone : ([] : List Value).length = (0 : UInt8).toNat := rfl
  have hsix : ([] : List Value).length + 6 ≤ st.maxValueStack := hroom
  have hone : ([] : List Value).length + 1 + ([] : List Value).length ≤ st.maxValueStack :=
    Nat.le_trans (by decide : 1 ≤ 6) hroom
  refine ⟨_, hw.next hcalls, ?_⟩
  -- the next link is loaded, and a decorator is made for it
  refine (attemptsIn_at (f := atLink depth index 0) _ [] [] (decodeAt_load hcalls) rfl rfl
    (results_calling hcalls hw) (Or.inr (Or.inr hone)) rfl rfl rfl).1.trans ?_
  refine (attemptsIn_decorating (f := atLink depth index 0) (a := plainAdapter counter) hnone hsix
    List.nodup_nil rfl hentry hadapter hdecorating).1.trans ?_
  -- its copy takes the place of the link
  refine (takes_wrap hw hcalls).trans ?_
  refine (attemptsIn_resume (show 1 < _ by omega)).1.trans ?_
  exact (attemptsIn_unpacked (f := atLink depth index 0) hnone hone hunpack).1

/-- The call takes the copy away and enters it. -/
theorem stepFrame_call :
    Machine.stepFrame (.of [.function (wrapped depth (index + 1))]
        (atLink depth index callOffset :: fs) st w)
      = Machine.andAdvance (Machine.enterFrame (wrapped depth (index + 1)) .none)
          (.of [] (atLink depth index returnOffset :: fs) st w) := by
  have hnone : ([] : List Value).length = (CallShape.plain 0).slots := rfl
  refine (Machine.stepFrame_of (fetch_call hcalls)).trans ?_
  exact Machine.execute_call_entered hnone rfl rfl

/-- That succeeds as long as the frames are below their limit. -/
theorem takes_enters (hdepth : fs.length + 1 < st.maxCallDepth) :
    Takes host 1
      ⟨.bytecode, pending, .of [.function (wrapped depth (index + 1))]
        (atLink depth index callOffset :: fs) st w⟩
      ⟨.bytecode, pending, .of []
        (atLink depth (index + 1) 0 :: atLink depth index returnOffset :: fs) st w⟩ := by
  have hadmitted : Machine.admission (wrapped depth (index + 1)) .none
      (atLink depth index returnOffset :: fs).length st = .ok #[] :=
    (if_pos hdepth).trans (bindArguments_wrapped depth (index + 1))
  exact Takes.one (step_advance ((stepFrame_call hcalls).trans
    (Machine.andAdvance_ok (Machine.enterFrame_of hadmitted))))

theorem takes_refused (hdepth : st.maxCallDepth ≤ fs.length + 1) :
    Takes host 1
      ⟨.bytecode, pending, .of [.function (wrapped depth (index + 1))]
        (atLink depth index callOffset :: fs) st w⟩
      ⟨.answer (.error (.callDepthExceeded st.maxCallDepth)), pending,
        .of [] (atLink depth index returnOffset :: fs) st w⟩ := by
  have hrefused : Machine.admission (wrapped depth (index + 1)) .none
      (atLink depth index returnOffset :: fs).length st
        = .error (.callDepthExceeded st.maxCallDepth) :=
    (Machine.admission_eq_exceeded _ _).mpr hdepth
  exact Takes.one (step_failed ((stepFrame_call hcalls).trans
    (Machine.andAdvance_error (Machine.enterFrame_refused hrefused))))

variable (pending fs) in
/-- **A wrapped link wraps the next one and enters it.** -/
theorem takes_next (hw : WrappedTo depth (index + 1) w) (hroom : 6 ≤ st.maxValueStack)
    (hdepth : fs.length + 1 < st.maxCallDepth) :
    ∃ w', WrappedTo depth (index + 2) w'
      ∧ Takes host 33 ⟨.bytecode, pending, .of [] (atLink depth index 0 :: fs) st w⟩
        ⟨.bytecode, pending, .of []
          (atLink depth (index + 1) 0 :: atLink depth index returnOffset :: fs) st w'⟩ := by
  obtain ⟨w', hw', hwrapped⟩ := takes_calling pending fs hcalls hw hroom
  exact ⟨w', hw', hwrapped.trans (takes_enters hcalls hdepth)⟩

/-- What the copy has answered is answered. -/
theorem takes_returns {v : Value} :
    Takes host 1
      ⟨.bytecode, pending, .of [v] (atLink depth index returnOffset :: fs) st w⟩
      (afterReturn v ⟨.bytecode, pending, .of [] fs st w⟩) :=
  Takes.one (step_returned
    ((Machine.stepFrame_of (fetch_return hcalls)).trans Machine.execute_return))

/-- **Without room for six values the next link is not even wrapped.** -/
theorem overflowsIn_calling (hw : WrappedTo depth (index + 1) w) (hfull : st.maxValueStack < 6) :
    OverflowsIn host 6 ⟨.bytecode, pending, .of [] (atLink depth index 0 :: fs) st w⟩ := by
  obtain ⟨hentry, hadapter⟩ := captures_wrapped depth index
  have hload := decodeAt_load hcalls
  have hloads := results_calling hcalls hw
  by_cases hone : 1 ≤ st.maxValueStack
  case neg =>
    exact overflowsIn_at (f := atLink depth index 0) [] [] hload rfl rfl hloads
      (List.cons_ne_nil _ _) rfl (show _ < 0 + 1 by omega)
  refine .after (attemptsIn_at (f := atLink depth index 0) _ [] [] hload rfl rfl hloads
    (Or.inr (Or.inr hone)) rfl rfl rfl) rfl rfl ?_
  obtain ⟨q, hbefore, -⟩ := Decodes.split
    [.buildTuple 0, .swap, .loadCapture slots.entry, .loadCapture slots.adapter, .unpackSequence 3]
    [.synthetic, .call entryCall, .swap, .synthetic, .call decorateCall, .swap, .unpackSequence 0]
    (decodes_wrapping hcalls)
  have hnone : ([] : List Value).length = (0 : UInt8).toNat := rfl
  have hlow : st.maxValueStack < ([] : List Value).length + 6 := hfull
  exact overflowsIn_decorating (f := atLink depth index 0) (a := plainAdapter counter) hnone hlow
    hentry hadapter hbefore

end Calling

/-! ## §3. The last link. -/

/-- What the last link answers. -/
def answer (depth : Nat) : Value :=
  .int (Int8.ofNat depth).toInt64

theorem decodes_answeringCode (depth : Nat) :
    decodeAt (encode (answeringCode depth)) 0 = .ok (.pushSmall (Int8.ofNat depth), 2)
      ∧ decodeAt (encode (answeringCode depth)) 2 = .ok (.return, 3) :=
  ⟨rfl, rfl⟩

section Answering

variable (hlast : ¬ index + 1 < depth)

include hlast

theorem code_answering : (wrapped depth index).body.code = encode (answeringCode depth) := by
  show (wrappedBody depth index).code = _
  rw [wrappedBody_answering hlast]

/-- **The last link answers the length of the chain.** -/
theorem takes_answering (hroom : 1 ≤ st.maxValueStack) :
    Takes host 2 ⟨.bytecode, pending, .of [] (atLink depth index 0 :: fs) st w⟩
      (afterReturn (answer depth) ⟨.bytecode, pending, .of [] fs st w⟩) := by
  obtain ⟨hpush, hreturn⟩ := decodes_answeringCode depth
  rw [← code_answering hlast] at hpush hreturn
  refine (attemptsIn_at (f := atLink depth index 0) _ [] [] hpush rfl rfl rfl
    (Or.inr (Or.inr hroom)) rfl rfl rfl).1.trans ?_
  have hfetch : Machine.fetch (atLink depth index 2) = .ok (.return, 3) := Machine.fetch_of hreturn
  exact Takes.one (step_returned ((Machine.stepFrame_of hfetch).trans Machine.execute_return))

theorem overflowsIn_answering (hfull : st.maxValueStack < 1) :
    OverflowsIn host 6 ⟨.bytecode, pending, .of [] (atLink depth index 0 :: fs) st w⟩ := by
  obtain ⟨hpush, -⟩ := decodes_answeringCode depth
  rw [← code_answering hlast] at hpush
  exact overflowsIn_at (f := atLink depth index 0) [] [] hpush rfl rfl rfl
    (List.cons_ne_nil _ _) rfl (show _ < 0 + 1 from hfull)

end Answering

/-! ## §4. The chain. -/

/-- **A call of a link comes back with the length of the chain** if all frames
fit.  The induction is on the links behind it, which lie above it on the stack of
frames and have left it by then. -/
theorem takes_links {k : Nat} (hdepth : depth = index + k + 1) (hframes : depth ≤ st.maxCallDepth)
    (hlast : 1 ≤ st.maxValueStack) (hroom : 0 < k → 6 ≤ st.maxValueStack)
    (hindex : fs.length = index) (hw : WrappedTo depth (index + 1) w) :
    ∃ w', WrappedTo depth depth w'
      ∧ Takes host (34 * k + 2)
        ⟨.bytecode, [.activation 0 0], .of [] (atLink depth index 0 :: fs) st w⟩
        (afterReturn (answer depth) ⟨.bytecode, [.activation 0 0], .of [] fs st w'⟩) := by
  induction k generalizing index fs w with
  | zero =>
      have hend : depth = index + 1 := hdepth
      rw [← hend] at hw
      exact ⟨w, hw, takes_answering (by omega) hlast⟩
  | succ k ih =>
      have hcalls : index + 1 < depth := by omega
      have hsix := hroom (Nat.succ_pos k)
      obtain ⟨w₁, hw₁, hentered⟩ := takes_next [.activation 0 0] fs hcalls hw hsix (by omega)
      have hlength : (atLink depth index returnOffset :: fs).length = index + 1 := by
        rw [List.length_cons, hindex]
      obtain ⟨w', hw', hreturned⟩ := ih (by omega) (fun _ => hsix) hlength hw₁
      -- the frame of this link is still there, so it gets the answer
      rw [afterReturn_inner (by simp), resume_of (show 0 < _ by omega)] at hreturned
      refine ⟨w', hw', ?_⟩
      have hsteps : 34 * (k + 1) + 2 = 1 + (34 * k + 2) + 33 := by omega
      rw [hsteps]
      exact hentered.trans (hreturned.trans (takes_returns hcalls))

/-- **A link that cannot be entered has been wrapped all the same:** at the limit
of the frames one link more is wrapped than is running. -/
theorem takes_tooDeep {k : Nat} (hlimit : st.maxCallDepth = index + k + 1)
    (hdeep : st.maxCallDepth < depth) (hroom : 6 ≤ st.maxValueStack) (hindex : fs.length = index)
    (hw : WrappedTo depth (index + 1) w) :
    ∃ m, WrappedTo depth (st.maxCallDepth + 1) m.world
      ∧ Takes host (33 * k + 33)
        ⟨.bytecode, [.activation 0 0], .of [] (atLink depth index 0 :: fs) st w⟩
        ⟨.answer (.error (.callDepthExceeded st.maxCallDepth)), [.activation 0 0], m⟩ := by
  induction k generalizing index fs w with
  | zero =>
      have hcalls : index + 1 < depth := by omega
      obtain ⟨w₁, hw₁, hwrapped⟩ := takes_calling [.activation 0 0] fs hcalls hw hroom
      have hend : index + 2 = st.maxCallDepth + 1 := by omega
      rw [hend] at hw₁
      exact ⟨.of [] (atLink depth index returnOffset :: fs) st w₁, hw₁,
        hwrapped.trans (takes_refused hcalls (by omega))⟩
  | succ k ih =>
      have hcalls : index + 1 < depth := by omega
      obtain ⟨w₁, hw₁, hentered⟩ := takes_next [.activation 0 0] fs hcalls hw hroom (by omega)
      have hlength : (atLink depth index returnOffset :: fs).length = index + 1 := by
        rw [List.length_cons, hindex]
      obtain ⟨m, hm, hfailed⟩ := ih (by omega) hlength hw₁
      exact ⟨m, hm, hentered.trans hfailed⟩

variable (pending fs) in
/-- **Without room for what the first link does nothing more is wrapped.** -/
theorem overflowsIn_first (hw : WrappedTo depth 1 w)
    (hfull : st.maxValueStack < 1 ∨ 1 < depth ∧ st.maxValueStack < 6) :
    OverflowsIn host 6 ⟨.bytecode, pending, .of [] (atLink depth 0 0 :: fs) st w⟩ := by
  by_cases hcalls : 0 + 1 < depth
  · exact overflowsIn_calling hcalls hw (by omega)
  · exact overflowsIn_answering hcalls (by omega)

/-! ## §5. The two calls of the demonstration. -/

variable (st) in
/-- **The first call wraps the first link,** within any limits. -/
theorem call_decorator (hdepth : 0 < depth) (hw : WrappedTo depth 0 w) :
    call depth (.of [] [] st w.freshObject.2) (.native decorator) (.one (.function (link depth 0)))
      = some (.ok (.function (wrapped depth 0)),
          .of [] [] st (wrapping (link depth 0) (wrapped depth 0) w.freshObject.2)) := by
  have htakes : Takes host 14
      ⟨.action (decorate registry (.function (link depth 0)) (plainAdapter counter)), [],
        .of [] [] st w.freshObject.2⟩ _ := takes_wrap hw hdepth
  exact htakes.run (by unfold fuel; omega)

section Second

variable (hw : WrappedTo depth 1 w)

/-- The second call enters the copy of the first link. -/
theorem ofCall_wrapped (hdepth : 0 < st.maxCallDepth) :
    ofCall host (.of [] [] st w) (.function (wrapped depth 0)) .none
      = ⟨.bytecode, [.activation 0 0], .of [] [atLink depth 0 0] st w⟩ :=
  activate_of ((if_pos hdepth).trans (bindArguments_wrapped depth 0))

/-- An error ends the activation, and with it the call. -/
theorem call_failed {e : RunError} {n : Nat} {m : Machine (List String)}
    (hentered : 0 < st.maxCallDepth) (hn : n < 1000 * depth)
    (h : Takes host n ⟨.bytecode, [.activation 0 0], .of [] [atLink depth 0 0] st w⟩
      ⟨.answer (.error e), [.activation 0 0], m⟩) :
    call depth (.of [] [] st w) (.function (wrapped depth 0)) .none
      = some (.error e, m.unwind 0 0) := by
  have hends : Takes host 1 ⟨.answer (.error e), [.activation 0 0], m⟩
      ⟨.answer (.error e), [], m.unwind 0 0⟩ := Takes.one rfl
  unfold call
  rw [ofCall_wrapped hentered]
  exact (h.trans hends).run (by unfold fuel; omega)

include hw

theorem call_wrapped_answers (hpositive : 0 < depth) (hdepth : depth ≤ st.maxCallDepth)
    (hroom : 6 ≤ st.maxValueStack ∨ depth = 1 ∧ 1 ≤ st.maxValueStack) :
    ∃ m, call depth (.of [] [] st w) (.function (wrapped depth 0)) .none
        = some (.ok (answer depth), m)
      ∧ WrappedTo depth depth m.world := by
  have hlength : depth = 0 + (depth - 1) + 1 := by omega
  obtain ⟨w', hw', htakes⟩ :=
    takes_links hlength hdepth (by omega) (by omega) (show ([] : List Frame).length = 0 from rfl) hw
  refine ⟨.of [] [] st w', ?_, hw'⟩
  unfold call
  rw [ofCall_wrapped (by omega)]
  exact htakes.run (by unfold fuel; omega)

theorem call_wrapped_tooDeep (hdepth : st.maxCallDepth < depth)
    (hroom : 6 ≤ st.maxValueStack ∨ st.maxCallDepth = 0) :
    ∃ m, call depth (.of [] [] st w) (.function (wrapped depth 0)) .none
        = some (.error (.callDepthExceeded st.maxCallDepth), m)
      ∧ WrappedTo depth (st.maxCallDepth + 1) m.world := by
  by_cases hnone : st.maxCallDepth = 0
  · -- not even the first link can be entered
    refine ⟨.of [] [] st w, ?_, by rw [hnone]; exact hw⟩
    have hrefused : ofCall host (.of [] [] st w) (.function (wrapped depth 0)) .none
        = ⟨.answer (.error (.callDepthExceeded st.maxCallDepth)), [], .of [] [] st w⟩ :=
      activate_refused ((Machine.admission_eq_exceeded _ _).mpr (by rw [hnone]; exact Nat.zero_le _))
    unfold call
    rw [hrefused]
    exact (Takes.refl _).run (by unfold fuel; omega)
  · have hlimit : st.maxCallDepth = 0 + (st.maxCallDepth - 1) + 1 := by omega
    obtain ⟨m, hm, htakes⟩ :=
      takes_tooDeep hlimit hdepth (by omega) (show ([] : List Frame).length = 0 from rfl) hw
    exact ⟨m.unwind 0 0, call_failed (by omega) (by omega) htakes, hm⟩

theorem call_wrapped_overflows (hpositive : 0 < depth) (hdepth : 0 < st.maxCallDepth)
    (hfull : st.maxValueStack < 1 ∨ 1 < depth ∧ st.maxValueStack < 6) :
    ∃ m, call depth (.of [] [] st w) (.function (wrapped depth 0)) .none
        = some (.error .valueStackOverflow, m)
      ∧ WrappedTo depth 1 m.world := by
  obtain ⟨n, m, hn, hworld, hattempts⟩ := overflowsIn_first [.activation 0 0] [] hw hfull
  have hworld : m.world = w := hworld
  refine ⟨m.unwind 0 0, call_failed hdepth (by omega) hattempts.1, ?_⟩
  show WrappedTo depth 1 m.world
  rw [hworld]
  exact hw

end Second

end CallDecoration.Demo
