/-
  CallDecoration.Proofs.Machine.Deep
  ──────────────────────────────────────
  **Properties that values pass on.**  A property is deep if plain data has it,
  and tuples and dictionaries have it exactly if all that is in them has it.
  Instructions, calls and constructors make values with such a property from
  values that have it.
-/
import CallDecoration.Proofs.Function.Parameters
import CallDecoration.Proofs.Machine.CallOperands
import CallDecoration.Proofs.Machine.Runs
import CallDecoration.Value.Construct
import Mathlib.Data.Option.Basic

namespace CallDecoration

variable {σ : Type}

/-! ## §1. Deep properties. -/

/-- **A property that goes down through tuples and dictionaries.** -/
structure Deep (P : Value → Prop) : Prop where
  nil : P .nil
  bool (b : Bool) : P (.bool b)
  int (n : Int64) : P (.int n)
  str (s : String) : P (.str s)
  tuple {items : List Value} : P (.tuple items) ↔ ∀ v ∈ items, P v
  dict {entries : List (String × Value)} : P (.dict entries) ↔ ∀ entry ∈ entries, P entry.2

/-- All arguments have a property. -/
structure CallArgs.All (P : Value → Prop) (args : CallArgs) : Prop where
  positional : ∀ v ∈ args.positional, P v
  keyword : ∀ entry ∈ args.keyword, P entry.2

theorem CallArgs.All.withReceiver {P : Value → Prop} {args : CallArgs} {receiver : Value}
    (hargs : args.All P) (hreceiver : P receiver) : (args.withReceiver receiver).All P := by
  refine ⟨?_, hargs.keyword⟩
  intro v hv
  rcases List.mem_cons.mp hv with rfl | hv
  · exact hreceiver
  · exact hargs.positional v hv

/-- All values in the tables of a function have a property. -/
structure Function.All (P : Value → Prop) (g : Function Value) : Prop where
  constants : ∀ (index : Nat) v, g.body.constants[index]? = some v → P v
  captures : ∀ (index : Nat) capture, g.captures[index]? = some capture → P capture.value
  defaults : ∀ v ∈ g.defaults, P v
  kwDefaults : ∀ entry ∈ g.kwDefaults, P entry.2

/-- All bound values have a property. -/
def World.All (P : Value → Prop) (w : World σ) : Prop :=
  ∀ scope name v, w.lookup scope name = some v → P v

/-- A value that is bound has the property as the others have it. -/
theorem World.All.bind {P : Value → Prop} {w : World σ} {x : Value} (hw : w.All P)
    (scope : ScopeId) (name : String) (hx : P x) : (w.bind scope name x).All P := by
  intro scope' name' v hv
  have hbound : Dict.get? ((Dict.get? (Dict.set w.scopes scope
      (Dict.set (w.bindings scope) name x)) scope').getD []) name' = some v := hv
  rw [Dict.get?_set] at hbound
  by_cases hscope : scope = scope'
  · subst hscope
    rw [if_pos rfl] at hbound
    change Dict.get? (Dict.set (w.bindings scope) name x) name' = some v at hbound
    rw [Dict.get?_set] at hbound
    split at hbound
    · cases hbound
      exact hx
    · exact hw _ _ v hbound
  · rw [if_neg hscope] at hbound
    exact hw scope' name' v hbound

namespace Deep

variable {P : Value → Prop} (hP : Deep P)

/-! ## §2. Calls. -/

section Calls

variable {callee : Value}

include hP

/-- **Arguments are made of operands.** -/
theorem collectArgs {shape : CallShape} {operands : List Value} {args : CallArgs}
    (hoperands : ∀ v ∈ operands, P v)
    (h : CallDecoration.collectArgs callee shape operands = .ok args) : args.All P := by
  obtain ⟨parts, left, rfl, -, -, rfl⟩ := exists_parts h
  have hparts : ∀ v ∈ parts.operands, P v := fun v hv => hoperands v (List.mem_append_left _ hv)
  unfold CallParts.operands at hparts
  simp only [List.forall_mem_append] at hparts
  obtain ⟨hpositional, hkeyword, hfurther, hentries⟩ := hparts
  refine ⟨List.forall_mem_append.mpr ⟨hpositional, ?_⟩, List.forall_mem_append.mpr ⟨?_, ?_⟩⟩
  · cases hitems : parts.further with
    | none => exact fun _ hv => absurd hv List.not_mem_nil
    | some items => exact hP.tuple.mp (hfurther (.tuple items) (by simp [hitems]))
  · intro entry hentry
    refine hkeyword entry.2 (List.mem_flatMap.mpr ⟨entry, hentry, ?_⟩)
    exact List.mem_cons_of_mem _ List.mem_cons_self
  · cases hdict : parts.entries with
    | none => exact fun _ hv => absurd hv List.not_mem_nil
    | some entries => exact hP.dict.mp (hentries (.dict entries) (by simp [hdict]))

/-- **A constructed value is made of the arguments.** -/
theorem construct {t : TypeObject} {args : CallArgs} {v : Value} (hargs : args.All P)
    (h : t.construct args = .ok v) : P v := by
  have hwith : ∀ v, P v → P (TypeObject.withEntries args.keyword v) := by
    intro v hv
    cases v with
    | dict entries =>
        refine hP.dict.mpr fun entry hentry => ?_
        rcases Dict.mem_merge hentry with hentry | hentry
        · exact hP.dict.mp hv entry hentry
        · exact hargs.keyword entry hentry
    | _ => exact hv
  have hempty : P t.empty := by
    cases t with
    | bool => exact hP.bool false
    | int => exact hP.int 0
    | str => exact hP.str ""
    | tuple => exact hP.tuple.mpr (by simp)
    | dict => exact hP.dict.mpr (by simp)
  -- a conversion answers plain data, its argument, or the names in it
  have hofValue : ∀ x v, P x → t.ofValue x = .ok v → P v := by
    intro x v hx hv
    unfold TypeObject.ofValue at hv
    split at hv
    · cases hv
      exact hP.bool _
    · cases hv
      exact hP.int _
    · cases hv
      exact hP.int _
    · unfold TypeObject.intOfText at hv
      split at hv
      · cases hv
        exact hP.int _
      · cases hv
    · cases hv
    · cases hv
      exact hP.str _
    · cases hv
      exact hP.str _
    · cases hv
      exact hx
    · cases hv
      refine hP.tuple.mpr fun item hitem => ?_
      obtain ⟨entry, _, rfl⟩ := List.mem_map.mp hitem
      exact hP.str _
    · cases hv
    · cases hv
      exact hx
    · cases hv
  unfold TypeObject.construct at h
  split at h
  · cases h
  · split at h
    · cases h
      exact hwith _ hempty
    · rename_i x hx
      obtain ⟨v', hvalue, rfl⟩ := map_eq_ok_iff.mp h
      refine hwith v' (hofValue x v' ?_ hvalue)
      exact hargs.positional x (by rw [hx]; exact List.mem_cons_self)
    · cases h

end Calls

/-! ## §3. Parameters. -/

section Parameters

variable {g : Function Value} {args : CallArgs}

theorem keywordFor? (hargs : args.All P) {slot : Nat} {name : String} {v : Value}
    (h : g.keywordFor? args slot name = some v) : P v := by
  unfold Function.keywordFor? at h
  split at h
  · exact hargs.keyword _ (Dict.mem_of_get? h)
  · cases h

/-- A positional parameter gets an argument or a default. -/
theorem positionalValue? (hg : g.All P) (hargs : args.All P) {slot : Nat} {name : String}
    {v : Value} (h : g.positionalValue? args slot name = some v) : P v := by
  unfold Function.positionalValue? at h
  rw [Option.orElse_eq_some, Option.orElse_eq_some] at h
  rcases h with hpositional | ⟨-, hkeyword | ⟨-, hdefault⟩⟩
  · exact hargs.positional v (List.mem_of_getElem? hpositional)
  · exact keywordFor? hargs hkeyword
  · unfold Function.defaultFor? at hdefault
    dsimp only at hdefault
    split at hdefault
    · exact hg.defaults v (List.mem_of_getElem? hdefault)
    · cases hdefault

/-- So does a keyword-only one. -/
theorem keywordOnlyValue? (hg : g.All P) (hargs : args.All P) {slot : Nat} {name : String}
    {v : Value} (h : g.keywordOnlyValue? args slot name = some v) : P v := by
  unfold Function.keywordOnlyValue? at h
  rw [Option.orElse_eq_some] at h
  rcases h with hkeyword | ⟨-, hdefault⟩
  · exact keywordFor? hargs hkeyword
  · exact hg.kwDefaults _ (Dict.mem_of_get? hdefault)

include hP

theorem collectedValues (hargs : args.All P) : ∀ v ∈ g.collectedValues args, P v := by
  intro v hv
  unfold Function.collectedValues at hv
  rcases List.mem_append.mp hv with hv | hv
  · split at hv
    · rw [List.mem_singleton.mp hv]
      exact hP.tuple.mpr fun x hx => hargs.positional x (List.mem_of_mem_drop hx)
    · cases hv
  · split at hv
    · rw [List.mem_singleton.mp hv]
      exact hP.dict.mpr fun entry hentry => hargs.keyword entry (List.mem_filter.mp hentry).1
    · cases hv

theorem parameterValues (hg : g.All P) (hargs : args.All P) {values : List Value}
    (h : g.parameterValues args = .ok values) : ∀ v ∈ values, P v := by
  obtain ⟨-, positional, keywordOnly, hpositional, hkeywordOnly, rfl⟩ :=
    Function.parameterValues_eq_ok.mp h
  rw [Function.positionalValues_eq] at hpositional
  rw [Function.keywordOnlyValues_eq] at hkeywordOnly
  intro v hv
  rw [List.mem_append, List.mem_append] at hv
  rcases hv with (hv | hv) | hv
  · obtain ⟨slot, name, hvalue⟩ := Function.of_mem_valuesFrom hpositional hv
    exact positionalValue? hg hargs hvalue
  · obtain ⟨slot, name, hvalue⟩ := Function.of_mem_valuesFrom hkeywordOnly hv
    exact keywordOnlyValue? hg hargs hvalue
  · exact hP.collectedValues hargs v hv

/-- **The slots of a new frame are made of arguments and defaults.** -/
theorem bindArguments (hg : g.All P) (hargs : args.All P) {locals : Array Value}
    (h : g.bindArguments args = .ok locals) : ∀ v ∈ locals, P v := by
  unfold Function.bindArguments at h
  split at h
  · cases h
  · rename_i values hvalues
    cases h
    intro v hv
    rw [List.mem_toArray, List.mem_append] at hv
    rcases hv with hv | hv
    · exact hP.parameterValues hg hargs hvalues v hv
    · rw [(List.mem_replicate.mp hv).2]
      exact hP.nil

end Parameters

/-! ## §4. Instructions. -/

section Instructions

variable {f : Frame} {w : World σ} {i : Instruction} {ops out : List Value}

theorem entriesOf {entries entries' : Dict String Value} {operands : List Value}
    (hentries : ∀ entry ∈ entries, P entry.2) (hoperands : ∀ v ∈ operands, P v)
    (h : Machine.entriesOf entries operands = .ok entries') : ∀ entry ∈ entries', P entry.2 := by
  induction entries, operands using Machine.entriesOf.induct with
  | case1 entries name value rest ih =>
      rw [Machine.entriesOf] at h
      refine ih ?_ (fun v hv => hoperands v (by simp [hv])) h
      intro entry hentry
      rcases Dict.mem_set hentry with hentry | rfl
      · exact hentries entry hentry
      · exact hoperands value (by simp)
  | case2 entries name value rest hname =>
      rw [Machine.entriesOf] at h
      · cases h
      · exact hname
  | case3 entries operands hpair hother =>
      rw [Machine.entriesOf] at h
      · cases h
        exact hentries
      · exact hpair
      · exact hother

include hP

theorem apply {op : BinaryOp} {a b v : Value} (ha : P a) (hb : P b) (h : op.apply a b = .ok v) :
    P v := by
  have hexact : ∀ n v, BinaryOp.exact n = .ok v → P v := by
    intro n v hn
    unfold BinaryOp.exact at hn
    split at hn
    · cases hn
      exact hP.int _
    · cases hn
  unfold BinaryOp.apply at h
  split at h
  · exact hexact _ _ h
  · cases h
    exact hP.str _
  · cases h
    refine hP.tuple.mpr fun x hx => ?_
    rcases List.mem_append.mp hx with hx | hx
    · exact hP.tuple.mp ha x hx
    · exact hP.tuple.mp hb x hx
  · exact hexact _ _ h
  · exact hexact _ _ h
  · cases h
    exact hP.bool _
  · cases h
    exact hP.bool _
  · cases h
    exact hP.bool _
  · cases h

theorem binary {op : BinaryOp} (hops : ∀ v ∈ ops, P v)
    (h : Instruction.binary op ops = .ok out) : ∀ v ∈ out, P v := by
  match ops with
  | [b, a] =>
      obtain ⟨value, happly, rfl⟩ := map_eq_ok_iff.mp h
      intro v hv
      rw [List.mem_singleton.mp hv]
      exact hP.apply (hops a (by simp)) (hops b (by simp)) happly
  | [] | [_] | _ :: _ :: _ :: _ => cases h

omit hP in
theorem entryOr {entry : Option Value} {e : RunError} (hentry : ∀ v, entry = some v → P v)
    (h : Instruction.entryOr entry e = .ok out) : ∀ v ∈ out, P v := by
  cases entry with
  | none => cases h
  | some value =>
      cases h
      intro v hv
      rw [List.mem_singleton.mp hv]
      exact hentry value rfl

/-- **What an instruction pushes is made of its operands, the slots and the
tables of its frame, and what is bound.** -/
theorem results (hf : f.function.All P) (hlocals : ∀ v ∈ f.locals, P v) (hw : w.All P)
    (hops : ∀ v ∈ ops, P v) (h : i.results f w ops = .ok out) : ∀ v ∈ out, P v := by
  have hone : ∀ {x : Value}, P x → ∀ v ∈ [x], P v := by
    intro x hx v hv
    rw [List.mem_singleton.mp hv]
    exact hx
  -- what is rearranged was there
  have hfrom : (∀ v ∈ out, v ∈ ops) → ∀ v ∈ out, P v := fun hmem v hv => hops v (hmem v hv)
  unfold Instruction.results at h
  cases i with
  | dup | swap | rot3 =>
      dsimp only at h
      split at h
      · cases h
        exact hfrom (by simp)
      · cases h
  | pushNil =>
      cases h
      exact hone hP.nil
  | pushTrue | pushFalse =>
      cases h
      exact hone (hP.bool _)
  | pushSmall n =>
      cases h
      exact hone (hP.int _)
  | pushConstant index => exact entryOr (hf.constants _) h
  | loadLocal slot => exact entryOr (fun v hv => hlocals v (Array.mem_of_getElem? hv)) h
  | storeLocal _ | storeGlobal _ =>
      dsimp only at h
      split at h
      · cases h
        simp
      · cases h
  | loadGlobal index =>
      simp only [Instruction.globalOf] at h
      split at h
      · exact entryOr (hw _ _) h
      · cases h
  | loadCapture index =>
      refine entryOr ?_ h
      intro v hv
      obtain ⟨capture, hcapture, rfl⟩ := Option.map_eq_some_iff.mp hv
      exact hf.captures _ capture hcapture
  | buildTuple count =>
      cases h
      exact hone (hP.tuple.mpr fun v hv => hops v (List.mem_reverse.mp hv))
  | buildDict count =>
      obtain ⟨entries, hentries, rfl⟩ := map_eq_ok_iff.mp h
      exact hone (hP.dict.mpr (entriesOf (by simp)
        (fun v hv => hops v (List.mem_reverse.mp hv)) hentries))
  | unpackSequence count =>
      simp only [Instruction.unpacked] at h
      split at h
      · rename_i items
        split at h
        · cases h
          intro v hv
          exact hP.tuple.mp (hops _ List.mem_cons_self) v (List.mem_reverse.mp hv)
        · cases h
      · cases h
      · cases h
  | add | sub | mul | lt | eq => exact hP.binary hops h
  | not =>
      dsimp only at h
      split at h
      · cases h
        exact hone (hP.bool _)
      · cases h
  | _ =>
      cases h
      simp

omit hP in
/-- The slots of a frame after an instruction. -/
theorem frameAfter (hlocals : ∀ v ∈ f.locals, P v) (hops : ∀ v ∈ ops, P v) :
    ∀ v ∈ (i.frameAfter f ops).locals, P v := by
  unfold Instruction.frameAfter
  split
  · rename_i slot x
    intro v hv
    rcases Array.mem_or_eq_of_mem_setIfInBounds hv with hv | rfl
    · exact hlocals v hv
    · exact hops _ (by simp)
  · exact hlocals
  · split <;> exact hlocals
  · exact hlocals

omit hP in
/-- What is bound after an instruction. -/
theorem worldAfter (hw : w.All P) (hops : ∀ v ∈ ops, P v) : (i.worldAfter f w ops).All P := by
  unfold Instruction.worldAfter
  split
  · split
    · exact hw.bind _ _ (hops _ List.mem_cons_self)
    · exact hw
  · exact hw

end Instructions

end Deep

end CallDecoration
