/-
  CallDecoration.Proofs.Decoration.Mirroring
  ──────────────────────────────────────
  **A decorated run step by step beside a plain one.**  The states of the two
  runs mirror each other (`Mirrors`): the values are equal, each frame of the
  decorated run executes the same function or an instrumented copy of it, at
  the boundary that its place is carried to, and the bindings of all scopes
  are equal.  One step of the plain run is matched by some steps of the
  decorated one (`mirrors_step`): one, or those of a whole expansion.
-/
import CallDecoration.Proofs.Decoration.Copies
import Mathlib.Data.List.Forall2

namespace CallDecoration

variable {σ : Type}

/-! ## §1. What a program may call. -/

/-- A function whose body can be instrumented. -/
def Function.Instrumentable (g : Function Value) : Prop :=
  ∃ body, g.instrumentedBody = .ok body

/-- **What a call may be attempted of:** functions that can be instrumented
and load their own captures, host functions whose answer depends on their
arguments alone, and any value that is neither. -/
def Permitted (host : Host σ) : Value → Prop
  | .function g => g.Instrumentable ∧ g.CapturesInRange
  | .native n => n.role = .host ∧ ∀ args, ∃ r, host n.id args = .done r
  | _ => True

/-! ## §2. States that mirror each other. -/

section Mirroring

variable (registry : RegistryId) (n : Native Value)

/-- Frames at the same place of the same function, or of a function and its
copy. -/
inductive FrameMirrors : Frame → Frame → Prop where
  | same (f : Frame) : FrameMirrors f f
  | copied {g g' : Function Value} {slots : CaptureSlots} {p q base : Nat} {locals : Array Value}
      {marked : Bool} (hcopied : g.Copied slots registry n g') (hcaptures : g.CapturesInRange)
      (L : Layout slots g.body.code g'.body.code) (hcarried : L.Carried marked p q) :
      FrameMirrors ⟨g, p, base, locals⟩ ⟨g', q, base, locals⟩

/-- Callees of which the second is the first or a copy of it. -/
inductive CalleeMirrors : Value → Value → Prop where
  | same (v : Value) : CalleeMirrors v v
  | copied {g g' : Function Value} {slots : CaptureSlots} (hcopied : g.Copied slots registry n g')
      (hcaptures : g.CapturesInRange) : CalleeMirrors (.function g) (.function g')

/-- What waits while a call from outside runs that calls host functions which
do not call anything. -/
def outermostPending : List (Pending σ) :=
  [.activation 0 0]

/-- **States of a plain and a decorated run that mirror each other.**  Once
the plain run has overflowed, nothing is said of the decorated one. -/
inductive Mirrors (st st' : Settings) : RunState σ → RunState σ → Prop where
  | code {vs : List Value} {f f' : Frame} {fs fs' : List Frame} {w w' : World σ}
      (hframe : FrameMirrors registry n f f')
      (hframes : List.Forall₂ (FrameMirrors registry n) fs fs')
      (hheight : vs.length ≤ st.maxValueStack) (hscopes : w'.scopes = w.scopes) :
      Mirrors st st' ⟨.bytecode, outermostPending, .of vs (f :: fs) st w⟩
        ⟨.bytecode, outermostPending, .of vs (f' :: fs') st' w'⟩
  | outside {focus : Focus σ} {vs : List Value} {f f' : Frame} {fs fs' : List Frame}
      {w w' : World σ} (hfocus : (∃ r, focus = .action (.done r)) ∨ ∃ r, focus = .answer r)
      (hframe : FrameMirrors registry n f f')
      (hframes : List.Forall₂ (FrameMirrors registry n) fs fs')
      (hheight : vs.length ≤ st.maxValueStack) (hscopes : w'.scopes = w.scopes) :
      Mirrors st st' ⟨focus, .operand :: outermostPending, .of vs (f :: fs) st w⟩
        ⟨focus, .operand :: outermostPending, .of vs (f' :: fs') st' w'⟩
  | failed {e e' : RunError} {m m' : Machine σ} (herror : SameError e e')
      (hscopes : m'.world.scopes = m.world.scopes) :
      Mirrors st st' ⟨.answer (.error e), outermostPending, m⟩
        ⟨.answer (.error e'), outermostPending, m'⟩
  | ended {r r' : Except RunError Value} {m m' : Machine σ} (houtcome : SameOutcome r r')
      (hscopes : m'.world.scopes = m.world.scopes) :
      Mirrors st st' ⟨.answer r, [], m⟩ ⟨.answer r', [], m'⟩
  | overflowed {pending : List (Pending σ)} {m : Machine σ} {t : RunState σ}
      (hpending : pending = outermostPending ∨ pending = []) :
      Mirrors st st' ⟨.answer (.error .valueStackOverflow), pending, m⟩ t

end Mirroring

/-! ## §3. Steps. -/

/-- An instruction whose jump was carried along is otherwise the same. -/
theorem Layout.Moved.sameButTarget {slots : CaptureSlots} {code code' : Array UInt8}
    {L : Layout slots code code'} {i i' : Instruction} (h : L.Moved i i') :
    i.SameButTarget i' := by
  rcases h with ⟨_, rfl⟩ | ⟨t, t', _, _, rfl, _⟩
  · exact .refl i'
  · exact .retarget i t'

namespace RunState

section Steps

variable {host : Host σ} {registry : RegistryId} {n : Native Value} {st st' : Settings}
  {f f' : Frame} {fs fs' : List Frame} {w w' : World σ} {vs : List Value}

/-- **An instruction that neither calls nor returns** is matched by one with
the same results. -/
theorem mirrors_plain (hroom : st.maxValueStack + 5 ≤ st'.maxValueStack) {i i' : Instruction}
    {next next' : Nat} (hfetch : Machine.fetch f = .ok (i, next))
    (hfetch' : Machine.fetch f' = .ok (i', next')) (hi : i.isPlain = true)
    (hlike : i.SameButTarget i')
    (hresults : ∀ ops, i.results f' w' ops = i.results f w ops)
    (hafter : ∀ ops, FrameMirrors registry n (i.frameAfter { f with ip := next } ops)
      (i'.frameAfter { f' with ip := next' } ops))
    (hworld : ∀ ops, (i.worldAfter f' w' ops).scopes = (i.worldAfter f w ops).scopes)
    (hframes : List.Forall₂ (FrameMirrors registry n) fs fs')
    (hheight : vs.length ≤ st.maxValueStack) (hscopes : w'.scopes = w.scopes) :
    Mirrors registry n st st' (step host ⟨.bytecode, outermostPending, .of vs (f :: fs) st w⟩)
      (step host ⟨.bytecode, outermostPending, .of vs (f' :: fs') st' w'⟩) := by
  have hi' : i'.isPlain = true := hlike.isPlain.trans hi
  by_cases hlow : vs.length < i.operands
  · rw [step_failed (Machine.stepFrame_short hfetch hlow),
      step_failed (Machine.stepFrame_short hfetch' (by rw [hlike.operands]; exact hlow))]
    exact Mirrors.failed (SameError.refl _) hscopes
  · obtain ⟨ops, rest, rfl, hops⟩ := Machine.exists_taken hlow
    have hops' : ops.length = i'.operands := hops.trans hlike.operands.symm
    have hresults' : i'.results { f' with ip := next' } w' ops = i.results f w ops := by
      rw [Instruction.results_ip, hlike.results]
      exact hresults ops
    cases hr : i.results f w ops with
    | error e =>
        rw [hr] at hresults'
        rw [← Instruction.results_ip next] at hr
        rw [step_failed ((Machine.stepFrame_of hfetch).trans (Machine.execute_error hi hops hr)),
          step_failed ((Machine.stepFrame_of hfetch').trans
            (Machine.execute_error hi' hops' hresults'))]
        exact Mirrors.failed (SameError.refl _) hscopes
    | ok out =>
        rw [hr] at hresults'
        -- the decorated run has room for all that the plain one has room for
        by_cases hfits : i.Fits st rest out
        · have hfits' : i'.Fits st' rest out := by
            rcases hfits with hnil | hi | hle
            · exact Or.inl hnil
            · exact Or.inr (Or.inl (hlike.rearranges.trans hi))
            · exact Or.inr (Or.inr (by omega))
          have hheight' : (out ++ rest).length ≤ st.maxValueStack :=
            Nat.le_trans (Instruction.height_le_of_fits hops hr hfits)
              (Nat.max_le.mpr ⟨hheight, Nat.le_refl _⟩)
          rw [← Instruction.results_ip next] at hr
          rw [step_advance ((Machine.stepFrame_of hfetch).trans
              (Machine.execute_ok hi hops hr hfits)),
            step_advance ((Machine.stepFrame_of hfetch').trans
              (Machine.execute_ok hi' hops' hresults' hfits')),
            Instruction.worldAfter_ip, Instruction.worldAfter_ip, hlike.worldAfter]
          exact Mirrors.code (hafter ops) hframes hheight' (hworld ops)
        · rw [← Instruction.results_ip next] at hr
          obtain ⟨junk, _, hjunk⟩ := Machine.execute_full fs hi hops hr hfits
          rw [step_failed ((Machine.stepFrame_of hfetch).trans (hjunk rest rfl))]
          exact Mirrors.overflowed (Or.inl rfl)

/-- The result of a frame is pushed for the one below. -/
theorem mirrors_resume (hroom : st.maxValueStack + 5 ≤ st'.maxValueStack) (focus : Focus σ)
    (v : Value) (hframe : FrameMirrors registry n f f')
    (hframes : List.Forall₂ (FrameMirrors registry n) fs fs') (hscopes : w'.scopes = w.scopes) :
    Mirrors registry n st st' (resume v ⟨focus, outermostPending, .of vs (f :: fs) st w⟩)
      (resume v ⟨focus, outermostPending, .of vs (f' :: fs') st' w'⟩) := by
  by_cases hfits : vs.length < st.maxValueStack
  · rw [resume_of hfits, resume_of (by omega)]
    exact Mirrors.code hframe hframes hfits hscopes
  · rw [resume_full hfits]
    exact Mirrors.overflowed (Or.inl rfl)

/-- A return. -/
theorem mirrors_return (hroom : st.maxValueStack + 5 ≤ st'.maxValueStack) {next next' : Nat}
    (hfetch : Machine.fetch f = .ok (.return, next))
    (hfetch' : Machine.fetch f' = .ok (.return, next')) (hbase : f'.base = f.base)
    (hframes : List.Forall₂ (FrameMirrors registry n) fs fs') (hscopes : w'.scopes = w.scopes) :
    Mirrors registry n st st' (step host ⟨.bytecode, outermostPending, .of vs (f :: fs) st w⟩)
      (step host ⟨.bytecode, outermostPending, .of vs (f' :: fs') st' w'⟩) := by
  cases vs with
  | nil =>
      have hlow : ([] : List Value).length < Instruction.return.operands := Nat.one_pos
      rw [step_failed (Machine.stepFrame_short hfetch hlow),
        step_failed (Machine.stepFrame_short hfetch' hlow)]
      exact Mirrors.failed (SameError.refl _) hscopes
  | cons v vs =>
      rw [step_returned ((Machine.stepFrame_of hfetch).trans Machine.execute_return),
        step_returned ((Machine.stepFrame_of hfetch').trans Machine.execute_return)]
      dsimp only
      rw [hbase]
      cases hframes with
      | nil => exact Mirrors.ended rfl hscopes
      | cons hframe hframes =>
          have hinner : ∀ (g : Frame) (gs : List Frame), (g :: gs).length ≠ 0 := by
            intro g gs
            simp
          unfold outermostPending
          rw [afterReturn_inner (hinner _ _), afterReturn_inner (hinner _ _)]
          exact mirrors_resume hroom .bytecode v hframe hframes hscopes

/-! ### Calls. -/

theorem admission_limits (hdepth : st'.maxCallDepth = st.maxCallDepth) (g : Function Value)
    (args : CallArgs) (depth : Nat) :
    Machine.admission g args depth st' = Machine.admission g args depth st := by
  unfold Machine.admission
  rw [hdepth]

/-- The entry of a function, and of the same function or a copy of it. -/
theorem mirrors_entered {g g' : Function Value} {args : CallArgs} {m m' : Machine σ}
    {rest : List Value}
    (hstep : Machine.stepFrame m
      = Machine.andAdvance (Machine.enterFrame g args) (.of rest (f :: fs) st w))
    (hstep' : Machine.stepFrame m'
      = Machine.andAdvance (Machine.enterFrame g' args) (.of rest (f' :: fs') st' w'))
    (hadmission : Machine.admission g' args (f' :: fs').length st'
      = Machine.admission g args (f :: fs).length st)
    (hentry : ∀ locals, FrameMirrors registry n ⟨g, 0, rest.length, locals⟩
      ⟨g', 0, rest.length, locals⟩)
    (hframe : FrameMirrors registry n f f')
    (hframes : List.Forall₂ (FrameMirrors registry n) fs fs')
    (hheight : rest.length ≤ st.maxValueStack) (hscopes : w'.scopes = w.scopes) :
    Mirrors registry n st st' (step host ⟨.bytecode, outermostPending, m⟩)
      (step host ⟨.bytecode, outermostPending, m'⟩) := by
  cases hslots : Machine.admission g args (f :: fs).length st with
  | error e =>
      rw [hslots] at hadmission
      rw [step_failed (hstep.trans (Machine.andAdvance_error (Machine.enterFrame_refused hslots))),
        step_failed (hstep'.trans
          (Machine.andAdvance_error (Machine.enterFrame_refused hadmission)))]
      exact Mirrors.failed (SameError.refl _) hscopes
  | ok locals =>
      rw [hslots] at hadmission
      rw [step_advance (hstep.trans (Machine.andAdvance_ok (Machine.enterFrame_of hslots))),
        step_advance (hstep'.trans (Machine.andAdvance_ok (Machine.enterFrame_of hadmission)))]
      exact Mirrors.code (hentry locals) (List.Forall₂.cons hframe hframes) hheight hscopes

/-- A call whose arguments are refused in both runs. -/
theorem mirrors_refused {shape : CallShape} {next next' : Nat} {ops rest : List Value}
    {callee callee' : Value} {e e' : RunError}
    (hfetch : Machine.fetch f = .ok (.call shape, next))
    (hfetch' : Machine.fetch f' = .ok (.call shape, next')) (hops : ops.length = shape.slots)
    (hargs : collectArgs callee shape ops.reverse = .error e)
    (hargs' : collectArgs callee' shape ops.reverse = .error e') (herror : SameError e e')
    (hscopes : w'.scopes = w.scopes) :
    Mirrors registry n st st'
      (step host ⟨.bytecode, outermostPending, .of (ops ++ callee :: rest) (f :: fs) st w⟩)
      (step host ⟨.bytecode, outermostPending, .of (ops ++ callee' :: rest) (f' :: fs') st' w'⟩) := by
  rw [step_failed ((Machine.stepFrame_of hfetch).trans (Machine.execute_call_refused hops hargs)),
    step_failed ((Machine.stepFrame_of hfetch').trans (Machine.execute_call_refused hops hargs'))]
  exact Mirrors.failed herror hscopes

/-- A call of what no frame is entered for: the answer is there at once, and it
is the same in both runs. -/
theorem mirrors_external {shape : CallShape} {next next' : Nat} {ops rest : List Value}
    {callee : Value} {args : CallArgs} (hfetch : Machine.fetch f = .ok (.call shape, next))
    (hfetch' : Machine.fetch f' = .ok (.call shape, next')) (hops : ops.length = shape.slots)
    (hargs : collectArgs callee shape ops.reverse = .ok args)
    (hentered : callee.entered? args = none) (hpermitted : Permitted host callee)
    (hframe : FrameMirrors registry n { f with ip := next } { f' with ip := next' })
    (hframes : List.Forall₂ (FrameMirrors registry n) fs fs')
    (hheight : rest.length ≤ st.maxValueStack) (hscopes : w'.scopes = w.scopes) :
    Mirrors registry n st st'
      (step host ⟨.bytecode, outermostPending, .of (ops ++ callee :: rest) (f :: fs) st w⟩)
      (step host ⟨.bytecode, outermostPending, .of (ops ++ callee :: rest) (f' :: fs') st' w'⟩) := by
  rw [step_external ((Machine.stepFrame_of hfetch).trans
      (Machine.execute_call_external hops hargs hentered)),
    step_external ((Machine.stepFrame_of hfetch').trans
      (Machine.execute_call_external hops hargs hentered))]
  cases callee with
  | function _ | method _ => cases hentered
  | native k =>
      obtain ⟨hrole, hanswer⟩ := hpermitted
      obtain ⟨r, hr⟩ := hanswer args
      have hrespond : k.respond host args = .done r := by
        unfold Native.respond
        rw [hrole]
        exact hr
      exact Mirrors.outside (Or.inl ⟨r, congrArg Focus.action hrespond⟩) hframe hframes hheight
        hscopes
  | _ => exact Mirrors.outside (Or.inr ⟨_, rfl⟩) hframe hframes hheight hscopes

/-- **A call,** of the same callee or of a copy. -/
theorem mirrors_call (hdepth : st'.maxCallDepth = st.maxCallDepth) {shape : CallShape}
    {next next' : Nat} {ops rest : List Value} {callee callee' : Value}
    (hfetch : Machine.fetch f = .ok (.call shape, next))
    (hfetch' : Machine.fetch f' = .ok (.call shape, next')) (hops : ops.length = shape.slots)
    (hcallee : CalleeMirrors registry n callee callee') (hpermitted : Permitted host callee)
    (hframe : FrameMirrors registry n { f with ip := next } { f' with ip := next' })
    (hframes : List.Forall₂ (FrameMirrors registry n) fs fs')
    (hheight : rest.length ≤ st.maxValueStack) (hscopes : w'.scopes = w.scopes) :
    Mirrors registry n st st'
      (step host ⟨.bytecode, outermostPending, .of (ops ++ callee :: rest) (f :: fs) st w⟩)
      (step host ⟨.bytecode, outermostPending, .of (ops ++ callee' :: rest) (f' :: fs') st' w'⟩) := by
  have hlength : fs'.length = fs.length := hframes.length_eq.symm
  cases hcallee with
  | same =>
      cases hargs : collectArgs callee shape ops.reverse with
      | error e => exact mirrors_refused hfetch hfetch' hops hargs hargs (SameError.refl _) hscopes
      | ok args =>
          cases hentered : callee.entered? args with
          | some entered =>
              obtain ⟨g, given⟩ := entered
              refine mirrors_entered ((Machine.stepFrame_of hfetch).trans
                (Machine.execute_call_entered hops hargs hentered))
                ((Machine.stepFrame_of hfetch').trans
                (Machine.execute_call_entered hops hargs hentered)) ?_
                (fun locals => FrameMirrors.same _) hframe hframes hheight hscopes
              rw [List.length_cons, List.length_cons, hlength, admission_limits hdepth]
          | none =>
              exact mirrors_external hfetch hfetch' hops hargs hentered hpermitted hframe hframes
                hheight hscopes
  | @copied g g' slots hcopied hcaptures =>
      -- a copy bears the name of its original, so it takes the same arguments from the operands
      have hsame := collectArgs_sameName hcopied.name shape ops.reverse
      cases hargs : collectArgs (.function g) shape ops.reverse with
      | error e =>
          rw [hargs] at hsame
          cases hargs' : collectArgs (.function g') shape ops.reverse with
          | ok args' =>
              rw [hargs'] at hsame
              exact hsame.elim
          | error e' =>
              rw [hargs'] at hsame
              exact mirrors_refused hfetch hfetch' hops hargs hargs' hsame hscopes
      | ok args =>
          rw [hargs] at hsame
          cases hargs' : collectArgs (.function g') shape ops.reverse with
          | error e' =>
              rw [hargs'] at hsame
              exact hsame.elim
          | ok args' =>
              rw [hargs'] at hsame
              have hsame : args' = args := hsame
              subst hsame
              obtain ⟨L⟩ := hcopied.layout
              refine mirrors_entered ((Machine.stepFrame_of hfetch).trans
                (Machine.execute_call_entered hops hargs rfl))
                ((Machine.stepFrame_of hfetch').trans
                (Machine.execute_call_entered hops hargs' rfl)) ?_
                (fun locals => FrameMirrors.copied hcopied hcaptures L L.carried_zero)
                hframe hframes hheight hscopes
              rw [Machine.admission_copied hcopied, List.length_cons, List.length_cons, hlength,
                admission_limits hdepth]

/-- A callee that may be called can be decorated. -/
theorem exists_decorates (registry : RegistryId) (n : Native Value) {callee : Value}
    (hpermitted : Permitted host callee) (w : World σ) :
    ∃ callee' w' evs, Decorates registry n w callee callee' w' evs
      ∧ CalleeMirrors registry n callee callee' := by
  cases heligible : (w.registry registry).isEligible callee n.name with
  | false => exact ⟨callee, w, [], Decorates.kept heligible, CalleeMirrors.same callee⟩
  | true =>
      cases callee with
      | function g =>
          obtain ⟨⟨body, hbody⟩, hcaptures⟩ := hpermitted
          obtain ⟨slots, hcopied⟩ := Function.copied_copyIn hbody w
          exact ⟨_, _, _, Decorates.copied heligible hbody,
            CalleeMirrors.copied hcopied hcaptures⟩
      | _ => cases heligible

/-- **A call, and the expansion of it.** -/
theorem mirrors_expanded (hn : host.Echoes n) (hroom : st.maxValueStack + 5 ≤ st'.maxValueStack)
    (hdepth : st'.maxCallDepth = st.maxCallDepth) {slots : CaptureSlots} {shape : CallShape}
    {next next' : Nat} (hfetch : Machine.fetch f = .ok (.call shape, next))
    (hslots : shape.slots ≤ maxSlots) (hkeeps : f'.function.Keeps slots registry n)
    (hcode : Decodes f'.function.body.code f'.ip (slots.expansion shape) next')
    (hpermitted : ∀ callee, callee? (⟨.bytecode, outermostPending, .of vs (f :: fs) st w⟩ :
      RunState σ) = some callee → Permitted host callee)
    (hframe : FrameMirrors registry n { f with ip := next } { f' with ip := next' })
    (hframes : List.Forall₂ (FrameMirrors registry n) fs fs')
    (hheight : vs.length ≤ st.maxValueStack) (hscopes : w'.scopes = w.scopes) :
    ∃ t, Reaches host ⟨.bytecode, outermostPending, .of vs (f' :: fs') st' w'⟩ t
      ∧ Mirrors registry n st st' (step host ⟨.bytecode, outermostPending, .of vs (f :: fs) st w⟩)
        t := by
  have hcount : (UInt8.ofNat shape.slots).toNat = shape.slots := toNat_ofNat_slots hslots
  obtain ⟨q, hinserted, hcall⟩ := Decodes.split (slots.inserted (UInt8.ofNat shape.slots))
    [.call shape] hcode
  by_cases hlow : vs.length < shape.slots + 1
  · -- the inserted instructions run out of operands as the call does
    obtain ⟨evs, m, flags', hworld, hshort⟩ :
        ∃ evs m flags', m.world = w' ∧ Watched.Proceeds host (fun _ => false) outermostPending
          (0 < st'.maxValueStack)
          ⟨⟨.bytecode, outermostPending, .of vs (f' :: fs') st' w'⟩, []⟩ evs
          ⟨⟨.answer (.error .stackUnderflow), outermostPending, m⟩, flags'⟩ :=
      Watched.proceeds_short (by rw [hcount]; exact hlow) hinserted
    refine ⟨_, (hshort.passes (by omega)).reaches, ?_⟩
    rw [step_failed (Machine.stepFrame_short hfetch hlow)]
    refine Mirrors.failed (SameError.refl _) ?_
    rw [hworld]
    exact hscopes
  · obtain ⟨ops, callee, rest, rfl, hops⟩ := Machine.exists_operands hlow
    have hcallee := hpermitted callee (callee?_call hfetch hops)
    -- the callee is decorated below its operands, and what comes out is called
    obtain ⟨callee', w'', evs, hdec, hmirrors⟩ :=
      exists_decorates registry n hcallee w'.freshObject.2
    obtain _ | ⟨hcall, hend⟩ := hcall
    cases hend
    rw [List.length_append, List.length_cons] at hheight
    have hproceeds : Watched.Proceeds host (fun _ => false) outermostPending
        (rest.length + 6 ≤ st'.maxValueStack ∧ rest.length + 1 + ops.length ≤ st'.maxValueStack)
        ⟨⟨.bytecode, outermostPending, .of (ops ++ callee :: rest) (f' :: fs') st' w'⟩, []⟩ evs
        ⟨⟨.bytecode, outermostPending,
          .of (ops ++ callee' :: rest) ({ f' with ip := q } :: fs') st' w''⟩, []⟩ :=
      Watched.proceeds_inserted hn (hops.trans hcount.symm) hkeeps hdec hinserted
    have hreach := (hproceeds.passes ⟨by omega, by omega⟩).reaches
    refine ⟨_, hreach.next rfl, ?_⟩
    exact mirrors_call hdepth hfetch (Machine.fetch_of hcall) hops hmirrors hcallee hframe hframes
      (by omega) ((congrArg _ rfl).trans (hdec.scopes.trans hscopes))

/-! ### One step. -/

/-- The frames after corresponding instructions mirror each other. -/
theorem frameAfter_mirrors {g g' : Function Value} {slots : CaptureSlots} {base : Nat}
    {locals : Array Value} {next next' : Nat} {i i' : Instruction}
    (hcopied : g.Copied slots registry n g') (hcaptures : g.CapturesInRange)
    (L : Layout slots g.body.code g'.body.code) (hmoved : L.Moved i i')
    (hnext : L.Carried false next next') (ops : List Value) :
    FrameMirrors registry n (i.frameAfter ⟨g, next, base, locals⟩ ops)
      (i'.frameAfter ⟨g', next', base, locals⟩ ops) := by
  have hgoes : ∀ locals : Array Value,
      FrameMirrors registry n ⟨g, next, base, locals⟩ ⟨g', next', base, locals⟩ :=
    fun locals => FrameMirrors.copied hcopied hcaptures L hnext
  -- what does not jump goes on behind itself, and a jump at its target or behind itself
  rcases hmoved with ⟨hnone, rfl⟩ | ⟨t, t', marked, ht, rfl, hcarried⟩
  · unfold Instruction.frameAfter
    split
    · exact hgoes _
    · cases hnone
    · cases hnone
    · exact hgoes locals
  · have hjumps : FrameMirrors registry n ⟨g, t, base, locals⟩ ⟨g', t', base, locals⟩ :=
      FrameMirrors.copied hcopied hcaptures L hcarried
    cases i with
    | jump target =>
        cases ht
        exact hjumps
    | jumpIfFalse target =>
        cases ht
        match ops with
        | [x] =>
            show FrameMirrors registry n (if x.isTruthy then _ else _) (if x.isTruthy then _ else _)
            split
            · exact hgoes locals
            · exact hjumps
        | [] | _ :: _ :: _ => exact hgoes locals
    | _ => cases ht

/-- A call that both runs execute as it stands. -/
theorem mirrors_uncopied (hdepth : st'.maxCallDepth = st.maxCallDepth) {shape : CallShape}
    {next next' : Nat} (hfetch : Machine.fetch f = .ok (.call shape, next))
    (hfetch' : Machine.fetch f' = .ok (.call shape, next'))
    (hpermitted : ∀ callee, callee? (⟨.bytecode, outermostPending, .of vs (f :: fs) st w⟩ :
      RunState σ) = some callee → Permitted host callee)
    (hframe : FrameMirrors registry n { f with ip := next } { f' with ip := next' })
    (hframes : List.Forall₂ (FrameMirrors registry n) fs fs')
    (hheight : vs.length ≤ st.maxValueStack) (hscopes : w'.scopes = w.scopes) :
    Mirrors registry n st st' (step host ⟨.bytecode, outermostPending, .of vs (f :: fs) st w⟩)
      (step host ⟨.bytecode, outermostPending, .of vs (f' :: fs') st' w'⟩) := by
  by_cases hlow : vs.length < shape.slots + 1
  · rw [step_failed (Machine.stepFrame_short hfetch hlow),
      step_failed (Machine.stepFrame_short hfetch' hlow)]
    exact Mirrors.failed (SameError.refl _) hscopes
  · obtain ⟨ops, callee, rest, rfl, hops⟩ := Machine.exists_operands hlow
    rw [List.length_append, List.length_cons] at hheight
    exact mirrors_call hdepth hfetch hfetch' hops (CalleeMirrors.same callee)
      (hpermitted callee (callee?_call hfetch hops)) hframe hframes (by omega) hscopes

/-- **A step of bytecode.** -/
theorem mirrors_code (hn : host.Echoes n) (hroom : st.maxValueStack + 5 ≤ st'.maxValueStack)
    (hdepth : st'.maxCallDepth = st.maxCallDepth) (hframe : FrameMirrors registry n f f')
    (hframes : List.Forall₂ (FrameMirrors registry n) fs fs')
    (hheight : vs.length ≤ st.maxValueStack) (hscopes : w'.scopes = w.scopes)
    (hpermitted : ∀ callee, callee? (⟨.bytecode, outermostPending, .of vs (f :: fs) st w⟩ :
      RunState σ) = some callee → Permitted host callee) :
    ∃ t, Reaches host ⟨.bytecode, outermostPending, .of vs (f' :: fs') st' w'⟩ t
      ∧ Mirrors registry n st st' (step host ⟨.bytecode, outermostPending, .of vs (f :: fs) st w⟩)
        t := by
  cases hframe with
  | same =>
      refine ⟨_, Reaches.one rfl, ?_⟩
      cases hfetch : Machine.fetch f with
      | error e =>
          rw [step_failed (Machine.stepFrame_unfetched hfetch),
            step_failed (Machine.stepFrame_unfetched hfetch)]
          exact Mirrors.failed (SameError.refl _) hscopes
      | ok fetched =>
          obtain ⟨i, next⟩ := fetched
          rcases i.isPlain_or with hi | rfl | ⟨shape, rfl⟩
          · exact mirrors_plain hroom hfetch hfetch hi (.refl i)
              (fun ops => Instruction.results_congr ops rfl rfl rfl rfl hscopes fun _ _ => rfl)
              (fun ops => FrameMirrors.same _)
              (fun ops => Instruction.worldAfter_congr ops rfl rfl hscopes) hframes hheight hscopes
          · exact mirrors_return hroom hfetch hfetch rfl hframes hscopes
          · exact mirrors_uncopied hdepth hfetch hfetch hpermitted (FrameMirrors.same _) hframes
              hheight hscopes
  | @copied g g' slots p q base locals marked hcopied hcaptures L hcarried =>
      -- the frames stand at a boundary of the body and at the one that it was carried to
      have hframe : ∀ {next next' : Nat}, L.Carried false next next' →
          FrameMirrors registry n ⟨g, next, base, locals⟩ ⟨g', next', base, locals⟩ :=
        fun hnext => FrameMirrors.copied hcopied hcaptures L hnext
      cases L.corresponds hcarried with
      | ended =>
          refine ⟨_, Reaches.one rfl, ?_⟩
          have hend : ∀ (h : Function Value) (offset : Nat), offset = h.body.code.size →
              Machine.fetch ⟨h, offset, base, locals⟩ = .error .endOfCode :=
            fun h offset hoffset => Machine.fetch_end hoffset
          rw [step_failed (Machine.stepFrame_unfetched (hend g _ rfl)),
            step_failed (Machine.stepFrame_unfetched (hend g' _ rfl))]
          exact Mirrors.failed (SameError.refl _) hscopes
      | @plain _ _ next next' i i' hrow hcode hcode' hcall hmark hmoved hnext =>
          refine ⟨_, Reaches.one rfl, ?_⟩
          have hfetch : Machine.fetch ⟨g, p, base, locals⟩ = .ok (i, next) :=
            Machine.fetch_of hcode
          have hfetch' : Machine.fetch ⟨g', q, base, locals⟩ = .ok (i', next') :=
            Machine.fetch_of hcode'
          rcases i.isPlain_or with hi | rfl | ⟨shape, rfl⟩
          · refine mirrors_plain hroom hfetch hfetch' hi hmoved.sameButTarget ?_
              (frameAfter_mirrors hcopied hcaptures L hmoved hnext) ?_ hframes hheight hscopes
            · intro ops
              refine Instruction.results_congr ops hcopied.constants hcopied.names hcopied.scope rfl
                hscopes ?_
              -- a load of the body stays below what the copy has added to its captures
              rintro index rfl
              exact hcopied.captures _ (hcaptures L.rows L.decoded p index hrow)
            · intro ops
              exact Instruction.worldAfter_congr ops hcopied.names hcopied.scope hscopes
          · obtain rfl : i' = .return := hmoved.eq_self rfl
            exact mirrors_return hroom hfetch hfetch' rfl hframes hscopes
          · cases hcall
      | @mark _ _ next next' hcode hcode' hnext =>
          refine ⟨_, Reaches.one rfl, ?_⟩
          exact mirrors_plain hroom (Machine.fetch_of hcode) (Machine.fetch_of hcode') rfl
            (.refl _) (fun _ => rfl) (fun _ => FrameMirrors.copied hcopied hcaptures L hnext)
            (fun _ => hscopes) hframes hheight hscopes
      | @copied _ _ next next' shape hcode hcode' hnext =>
          refine ⟨_, Reaches.one rfl, ?_⟩
          exact mirrors_uncopied hdepth (Machine.fetch_of hcode) (Machine.fetch_of hcode')
            hpermitted (hframe hnext) hframes hheight hscopes
      | @expanded _ _ next next' shape hcode hslots hcode' hnext =>
          exact mirrors_expanded hn hroom hdepth (Machine.fetch_of hcode) hslots hcopied.keeps hcode'
            hpermitted (hframe hnext) hframes hheight hscopes

/-- **One step of the plain run is matched** by some steps of the decorated
one. -/
theorem mirrors_step (hn : host.Echoes n) (hroom : st.maxValueStack + 5 ≤ st'.maxValueStack)
    (hdepth : st'.maxCallDepth = st.maxCallDepth) {s t : RunState σ}
    (hpermitted : ∀ callee, s.callee? = some callee → Permitted host callee)
    (h : Mirrors registry n st st' s t) :
    ∃ t', Reaches host t t' ∧ Mirrors registry n st st' (step host s) t' := by
  cases h with
  | code hframe hframes hheight hscopes =>
      exact mirrors_code hn hroom hdepth hframe hframes hheight hscopes hpermitted
  | @outside focus vs f f' fs fs' w w' hfocus hframe hframes hheight hscopes =>
      refine ⟨_, Reaches.one rfl, ?_⟩
      rcases hfocus with ⟨r, rfl⟩ | ⟨r, rfl⟩
      · exact Mirrors.outside (Or.inr ⟨r, rfl⟩) hframe hframes hheight hscopes
      · cases r with
        | ok v => exact mirrors_resume hroom (.answer (.ok v)) v hframe hframes hscopes
        | error e => exact Mirrors.failed (SameError.refl e) hscopes
  | failed herror hscopes => exact ⟨_, Reaches.one rfl, Mirrors.ended herror hscopes⟩
  | ended houtcome hscopes =>
      refine ⟨_, Reaches.refl _, ?_⟩
      rw [step_ended]
      exact Mirrors.ended houtcome hscopes
  | overflowed hpending =>
      refine ⟨t, Reaches.refl _, ?_⟩
      rcases hpending with rfl | rfl
      · exact Mirrors.overflowed (Or.inr rfl)
      · rw [step_ended]
        exact Mirrors.overflowed (Or.inr rfl)

/-- **A whole plain run is matched** by a decorated one. -/
theorem mirrors_reaches (hn : host.Echoes n) (hroom : st.maxValueStack + 5 ≤ st'.maxValueStack)
    (hdepth : st'.maxCallDepth = st.maxCallDepth) {s s' t : RunState σ}
    (hpermitted : ∀ u, Reaches host s u → ∀ callee, u.callee? = some callee →
      Permitted host callee)
    (h : Mirrors registry n st st' s t) (hreach : Reaches host s s') :
    ∃ t', Reaches host t t' ∧ Mirrors registry n st st' s' t' := by
  obtain ⟨k, rfl⟩ := hreach
  induction k with
  | zero => exact ⟨t, Reaches.refl t, h⟩
  | succ k ih =>
      obtain ⟨t', hreach, hmirrors⟩ := ih
      obtain ⟨t'', hstep, hmirrors⟩ := mirrors_step hn hroom hdepth (hpermitted _ ⟨k, rfl⟩) hmirrors
      rw [Function.iterate_succ_apply']
      exact ⟨t'', hreach.trans hstep, hmirrors⟩

end Steps

end RunState

end CallDecoration
