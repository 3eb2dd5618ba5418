/-
  CallDecoration.Proofs.Machine.Errors
  ──────────────────────────────────────
  **Where the errors of a run come from.**  An error is made by an instruction
  (`Arises`), by a call that is refused, or by a host function, and is then
  handed on.  The errors that tell that there is no instruction or no frame to
  go on with are made by instructions only, as long as the host's own functions
  do not make them up (`Host.Spares`); the functions of the library never do.
  So such an error is absent from a run if no instruction of the run fails with
  it (`unraised_of_not_arises`).
-/
import CallDecoration.Proofs.Machine.Moves

namespace CallDecoration

variable {σ : Type}

/-! ## §1. Host functions that do not make up errors. -/

/-- An answer that is no error of this sort. -/
def Lacks {α : Type} (E : RunError → Prop) (r : Except RunError α) : Prop :=
  ∀ e, r = .error e → ¬ E e

namespace Action

variable {α β : Type} {E : RunError → Prop}

/-- **An action that does not make up errors of a sort:** unless a call that it
makes gives it such an error, it does not end with one. -/
inductive Spares (E : RunError → Prop) : Action σ α → Prop where
  | done {r : Except RunError α} (h : Lacks E r) : Spares E (.done r)
  | call {callee : Value} {args : CallArgs} {next : Except RunError Value → Action σ α}
      (h : ∀ r, Lacks E r → Spares E (next r)) : Spares E (.call callee args next)
  | inspect {next : Gauge → Action σ α} (h : ∀ g, Spares E (next g)) : Spares E (.inspect next)
  | read {next : World σ → Action σ α} (h : ∀ w, Spares E (next w)) : Spares E (.read next)
  | write {w : World σ} {next : Action σ α} (h : Spares E next) : Spares E (.write w next)

namespace Spares

theorem result (x : α) : (Action.done (.ok x) : Action σ α).Spares E := by
  refine done fun e he => ?_
  cases he

theorem fail {e : RunError} (h : ¬ E e) : (Action.fail e : Action σ α).Spares E := by
  refine done fun e' he => ?_
  cases he
  exact h

theorem bind {a : Action σ α} {f : α → Action σ β} (ha : a.Spares E)
    (hf : ∀ x, (f x).Spares E) : (a >>= f).Spares E := by
  show (a.bind f).Spares E
  induction ha with
  | @done r h =>
      cases r with
      | ok x => exact hf x
      | error e => exact fail (h e rfl)
  | call h ih => exact call ih
  | inspect h ih => exact inspect ih
  | read h ih => exact read ih
  | write h ih => exact write ih

theorem world : (Action.world : Action σ (World σ)).Spares E :=
  read fun w => result w

theorem change (f : World σ → α × World σ) : (Action.change f).Spares E :=
  read fun w => write (result (f w).1)

theorem callValue (callee : Value) (args : CallArgs) :
    (Action.callValue callee args : Action σ Value).Spares E :=
  call fun _ hr => done hr

end Spares

end Action

/-- Host functions none of which makes up errors of this sort. -/
def Host.Spares (host : Host σ) (E : RunError → Prop) : Prop :=
  ∀ id args, (host id args).Spares E

section Library

variable {E : RunError → Prop}

theorem spares_resolve (a : Adapter Value) : (a.resolve : Action σ Value).Spares E := by
  unfold Adapter.resolve
  split
  · exact .result _
  · split
    · exact .callValue _ _
    · exact .result _

variable (hE : ∀ e, E e → e.isFault = true)
include hE

theorem spares_instrument (registry : RegistryId) (a : Adapter Value) (f : Function Value) :
    (f.instrument registry a : Action σ (Function Value)).Spares E := by
  unfold Function.instrument
  split
  · refine .fail fun he => ?_
    cases hE _ he
  · exact (Action.Spares.change _).bind fun _ => (Action.Spares.change _).bind fun _ => .result _

theorem spares_decorate (registry : RegistryId) (target : Value) (a : Adapter Value) :
    (decorate registry target a : Action σ Value).Spares E := by
  refine Action.Spares.world.bind fun w => ?_
  split
  · split
    · refine (spares_instrument hE registry a _).bind fun copy =>
        Action.Spares.world.bind fun w => ?_
      refine (spares_resolve a).bind fun wrapper => (Action.Spares.callValue _ _).bind fun r => ?_
      split
      · exact (Action.Spares.change _).bind fun _ => .result _
      · exact .result _
    · exact .result _
  · exact .result _

/-- **The library's own host functions make up no such errors,** so that none
does if the host's do not. -/
theorem spares_respond {host : Host σ} (hhost : host.Spares E) (n : Native Value)
    (args : CallArgs) : (n.respond host args).Spares E := by
  have hrefused : ∀ name problem, ¬ E (.badArguments name problem) := by
    intro name problem he
    cases hE _ he
  unfold Native.respond
  split
  · exact hhost _ _
  · unfold enterDecoration
    split
    · exact .fail (hrefused _ _)
    · exact .change _
  · unfold applyDecorator
    split
    · exact spares_decorate hE _ _ _
    · exact .fail (hrefused _ _)

end Library

namespace RunState

variable {host : Host σ} {s t : RunState σ} {E : RunError → Prop}

/-! ## §2. Errors of instructions. -/

/-- **An instruction of the run fails with this error.** -/
def Arises (host : Host σ) (s : RunState σ) (e : RunError) : Prop :=
  ∃ t, Reaches host s t ∧ t.focus = .bytecode ∧ (Machine.stepFrame t.machine).1 = .error e

/-- **Errors that tell of a missing instruction or frame:** they are not made
where an instruction is executed. -/
def Unexecuted (E : RunError → Prop) : Prop :=
  ∀ e, E e → e.isFault = true ∧ e ≠ .stackUnderflow

/-- Such an error is made where an instruction is looked for. -/
theorem stepFrame_unexecuted (hE : Unexecuted E) {m : Machine σ} {e : RunError} (he : E e)
    (h : (Machine.stepFrame m).1 = .error e) :
    (m.frames.items = [] ∧ e = .noActiveFrame)
      ∨ ∃ f fs, m.frames.items = f :: fs ∧ Machine.fetch f = .error e := by
  obtain ⟨hfault, hne⟩ := hE e he
  obtain ⟨vs, fs, st, w, rfl⟩ := Machine.exists_of m
  -- what follows the instruction does not matter, so let nothing wait for it
  have hfails : Machine.stepFrame (.of vs fs st w) = (.error e, (Machine.stepFrame _).2) :=
    Prod.ext h rfl
  have hmove : Move (fun _ _ => .done (.ok .nil)) ⟨.bytecode, [], .of vs fs st w⟩
      (step _ ⟨.bytecode, [], .of vs fs st w⟩) := move_bytecode
  rw [step_failed hfails] at hmove
  generalize (Machine.stepFrame (Machine.of vs fs st w)).2 = n at hmove
  cases hmove with
  | stops => exact Or.inl ⟨rfl, rfl⟩
  | unfetched hfetch => exact Or.inr ⟨_, _, rfl, hfetch⟩
  | fails hf hcause hheight =>
      rcases hcause with rfl | hcause
      · exact absurd rfl hne
      · rw [hcause] at hfault
        cases hfault
  | calls hf hcallee hheight hcall => cases hcall
  | returns hpending hheight hresume =>
      cases hresume
      cases hfault

/-! ## §3. What is done and what waits. -/

/-- **No such error is about:** none is being handed on, and neither what a host
function does nor what it will do with an answer makes one up. -/
structure Clear (E : RunError → Prop) (focus : Focus σ) (pending : List (Pending σ)) : Prop where
  acts : ∀ a, focus = .action a → a.Spares E
  answers : ∀ r, focus = .answer r → Lacks E r
  waits : ∀ next, .host next ∈ pending → ∀ r, Lacks E r → (next r).Spares E

variable {pending : List (Pending σ)} {first : Pending σ}

theorem Clear.code {focus : Focus σ} (h : Clear E focus pending) :
    Clear E .bytecode pending := by
  refine ⟨fun a ha => ?_, fun r hr => ?_, h.waits⟩
  · cases ha
  · cases hr

theorem Clear.act {focus : Focus σ} (h : Clear E focus pending) {a : Action σ Value}
    (ha : a.Spares E) : Clear E (.action a) pending := by
  refine ⟨fun a' ha' => ?_, fun r hr => ?_, h.waits⟩
  · cases ha'
    exact ha
  · cases hr

theorem Clear.answer {focus : Focus σ} (h : Clear E focus pending)
    {r : Except RunError Value} (hr : Lacks E r) : Clear E (.answer r) pending := by
  refine ⟨fun a ha => ?_, fun r' hr' => ?_, h.waits⟩
  · cases ha
  · cases hr'
    exact hr

theorem Clear.push {focus : Focus σ} (h : Clear E focus pending)
    (hfirst : ∀ next, first = .host next → ∀ r, Lacks E r → (next r).Spares E) :
    Clear E focus (first :: pending) := by
  refine ⟨h.acts, h.answers, fun next hmem => ?_⟩
  rcases List.mem_cons.mp hmem with heq | hmem
  · exact hfirst next heq.symm
  · exact h.waits next hmem

theorem Clear.pop {focus : Focus σ} (h : Clear E focus (first :: pending)) :
    Clear E focus pending :=
  ⟨h.acts, h.answers, fun next hmem => h.waits next (List.mem_cons_of_mem _ hmem)⟩

section Steps

variable (hE : Unexecuted E) (hhost : host.Spares E)
include hE

/-- An error that is no fault is none of these. -/
theorem lacks_of_isFault {α : Type} {r : Except RunError α}
    (h : ∀ e, r = .error e → e.isFault = false) : Lacks E r := by
  intro e he hmem
  have hfault := (hE e hmem).1
  rw [h e he] at hfault
  cases hfault

theorem Clear.resumes {focus : Focus σ} {vs : List Value} {fs : List Frame} {st : Settings}
    {w : World σ} {v : Value} (h : Resumes pending vs fs st w v t)
    (hs : Clear E focus pending) : Clear E t.focus t.pending := by
  cases h with
  | room => exact hs.code
  | full =>
      refine hs.answer (lacks_of_isFault hE fun e he => ?_)
      cases he
      rfl

include hhost

theorem Clear.opens {vs : List Value} {fs : List Frame} {st : Settings}
    {w : World σ} {callee : Value} {args : CallArgs}
    (h : Opens host pending vs fs st w callee args t) (hs : Clear E .bytecode pending) :
    Clear E t.focus t.pending := by
  cases h with
  | activates hcallee hslots =>
      refine hs.code.push fun next hnext => ?_
      cases hnext
  | acts => exact hs.act (spares_respond (fun e he => (hE e he).1) hhost _ _)
  | answers hr => exact hs.answer (lacks_of_isFault hE hr)

/-- **No step brings up such an error,** unless an instruction fails with it. -/
theorem Clear.move (h : Move host s t) (hs : Clear E s.focus s.pending)
    (hnot : s.focus = .bytecode → ∀ e, E e → (Machine.stepFrame s.machine).1 ≠ .error e) :
    Clear E t.focus t.pending := by
  -- an instruction that fails is excluded; all other moves hand on what there was
  cases h with
  | stops =>
      refine hs.answer fun e he hmem => ?_
      cases he
      exact hnot rfl _ hmem rfl
  | unfetched hfetch =>
      refine hs.answer fun e he hmem => ?_
      cases he
      exact hnot rfl _ hmem (congrArg Prod.fst (Machine.stepFrame_unfetched hfetch))
  | fails hf hcause hheight =>
      refine hs.answer fun e he hmem => ?_
      cases he
      rcases hcause with rfl | hcause
      · exact (hE _ hmem).2 rfl
      · have hfault := (hE _ hmem).1
        rw [hcause] at hfault
        cases hfault
  | advances => exact hs.code
  | enters => exact hs.code
  | calls hf hcallee hheight hcall =>
      refine Clear.opens hE hhost hcall (hs.code.push fun next hnext => ?_)
      cases hnext
  | leaves =>
      refine hs.pop.answer fun e he => ?_
      cases he
  | returns hpending hheight hresume => exact Clear.resumes hE hresume hs
  | done =>
      refine hs.answer ?_
      cases hs.acts _ rfl with
      | done hr => exact hr
  | requests hcall =>
      cases hs.acts _ rfl with
      | call hnext =>
          refine Clear.opens hE hhost hcall (hs.code.push fun next heq => ?_)
          cases heq
          exact hnext
  | inspects =>
      cases hs.acts _ rfl with
      | inspect hnext => exact hs.act (hnext _)
  | reads =>
      cases hs.acts _ rfl with
      | read hnext => exact hs.act (hnext _)
  | writes =>
      cases hs.acts _ rfl with
      | write hnext => exact hs.act hnext
  | stays => exact hs
  | resumes hresume => exact Clear.resumes hE hresume hs.pop
  | passes => exact hs.pop
  | hands => exact hs.pop
  | unwinds => exact hs.pop
  | continues => exact hs.pop.act (hs.waits _ List.mem_cons_self _ (hs.answers _ rfl))

end Steps

/-! ## §4. Errors that do not come up. -/

/-- **Errors of a sort do not come up in a run:** no instruction of it fails
with one, and nothing in it is answered with one either, if the host's own
functions do not make them up. -/
structure Unraised (host : Host σ) (s : RunState σ) (E : RunError → Prop) : Prop where
  arises : ∀ e, E e → ¬ Arises host s e
  answered : host.Spares E → ∀ t e, Reaches host s t → E e → t.focus ≠ .answer (.error e)

/-- **A run in which no instruction fails with such an error does without it.** -/
theorem unraised_of_not_arises {m : Machine σ} {callee : Value} {args : CallArgs}
    (hE : Unexecuted E) (h : ∀ e, E e → ¬ Arises host (ofCall host m callee args) e) :
    Unraised host (ofCall host m callee args) E where
  arises := h
  answered hhost t e hreach he hanswer := by
    have hstart :
        Clear E (ofCall host m callee args).focus (ofCall host m callee args).pending := by
      obtain ⟨vs, fs, st, w, rfl⟩ := Machine.exists_of m
      refine Clear.opens hE hhost (opens_enter callee args) ⟨?_, ?_, ?_⟩
      · intro a ha
        cases ha
      · intro r hr
        cases hr
      · intro next hmem
        cases hmem
    -- along the run, a state that is reached is clear
    have hclear : Reaches host (ofCall host m callee args) t ∧ Clear E t.focus t.pending := by
      refine @Reaches.preserves _ _ _ _
        (fun u => Reaches host (ofCall host m callee args) u ∧ Clear E u.focus u.pending)
        ?_ hreach ?_
      · intro u hu
        refine ⟨hu.1.next rfl, Clear.move hE hhost (move_step host u) hu.2 ?_⟩
        exact fun hfocus e he hfails => h e he ⟨u, hu.1, hfocus, hfails⟩
      · exact ⟨Reaches.refl _, hstart⟩
    exact hclear.2.answers _ hanswer e rfl he

end RunState

end CallDecoration
