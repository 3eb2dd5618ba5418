/-
  CallDecoration.Proofs.Bytecode.ConstantPool
  ──────────────────────────────────────
  **What a built body holds of the constants that were put into it.**  The
  pool keeps the first of all equal constants, so the index that is handed out
  for a constant leads to the first constant that is equal to it
  (`Builder.constant_at_index`).  Equality forgets the order of keys, and that
  is what a pool can lose: every constant is kept as it is exactly if no two
  equal ones have their keys in different orders
  (`Builder.keepsConstants_iff`).
-/
import CallDecoration.Proofs.Bytecode.Building
import CallDecoration.Proofs.Value.Equality
import CallDecoration.Value.Display

namespace CallDecoration

namespace Builder

/-! ## §1. The pool finds the first of all equal constants. -/

section Pool

variable {V : Type} [BEq V]

/-- The constant that an operation puts into the pool. -/
def Op.constant? : Op V → Option V
  | addConstant value | emitConstant value => some value
  | _ => .none

/-- The constants that a sequence of operations puts into the pool, in order. -/
def constantsOf (ops : List (Op V)) : List V :=
  ops.filterMap Op.constant?

/-- An operation without a constant leaves the pool, and forgets no overflow. -/
theorem perform_without_constant {op : Op V} (hop : op.constant? = .none) (b : Builder V) :
    (op.perform b).constants = b.constants
      ∧ ((op.perform b).overflow = .none → b.overflow = .none) := by
  have hname : ∀ name, (b.addName name).2.constants = b.constants
      ∧ ((b.addName name).2.overflow = .none → b.overflow = .none) := by
    intro name
    unfold addName
    split
    · exact ⟨rfl, id⟩
    · split
      · exact ⟨rfl, id⟩
      · exact ⟨rfl, fun h => nomatch h⟩
  cases op with
  | addConstant value | emitConstant value => cases hop
  | addName name | emitLoadGlobal name | emitStoreGlobal name => exact hname name
  | setSignature _ | reserveLocals _ | emit _ | emitRaw _ | emitJump _ | patchJump _ =>
      exact ⟨rfl, id⟩

/-- An operation with a constant does to the pool what adding the constant
does. -/
theorem perform_with_constant {op : Op V} {value : V} (hop : op.constant? = some value)
    (b : Builder V) :
    (op.perform b).constants = (b.addConstant value).2.constants
      ∧ (op.perform b).overflow = (b.addConstant value).2.overflow := by
  cases op with
  | addConstant v | emitConstant v =>
      cases hop
      exact ⟨rfl, rfl⟩
  | _ => cases hop

/-- Adding a constant forgets no overflow. -/
theorem overflow_of_addConstant {value : V} {b : Builder V}
    (h : (b.addConstant value).2.overflow = .none) : b.overflow = .none := by
  unfold addConstant at h
  split at h
  · exact h
  · split at h
    · exact h
    · cases h

theorem overflow_of_perform {op : Op V} {b : Builder V} (h : (op.perform b).overflow = .none) :
    b.overflow = .none := by
  cases hop : op.constant? with
  | none => exact (perform_without_constant hop b).2 h
  | some value => exact overflow_of_addConstant ((perform_with_constant hop b).2 ▸ h)

theorem overflow_of_performAll {ops : List (Op V)} {b : Builder V}
    (h : (performAll ops b).overflow = .none) : b.overflow = .none := by
  induction ops generalizing b with
  | nil => exact h
  | cons op rest ih => exact overflow_of_perform (ih h)

/-- Nothing in the pool is ever moved. -/
theorem constants_prefix_perform (op : Op V) (b : Builder V) :
    b.constants.toList <+: (op.perform b).constants.toList := by
  cases hop : op.constant? with
  | none => exact ⟨[], by rw [List.append_nil, (perform_without_constant hop b).1]⟩
  | some value =>
      rw [(perform_with_constant hop b).1]
      unfold addConstant
      split
      · exact List.prefix_refl _
      · split
        · rw [Array.toList_push]
          exact List.prefix_append _ _
        · exact List.prefix_refl _

theorem constants_prefix_performAll (ops : List (Op V)) (b : Builder V) :
    b.constants.toList <+: (performAll ops b).constants.toList := by
  induction ops generalizing b with
  | nil => exact List.prefix_refl _
  | cons op rest ih => exact (constants_prefix_perform op b).trans (ih _)

/-- **A pool that answers for the constants `passed`:** a look-up in it finds what
a look-up among all of them finds. -/
structure Pooled (passed : List V) (b : Builder V) : Prop where
  size_le : b.constants.size ≤ maxTableSize
  find : ∀ value, b.constants.toList.find? (· == value) = passed.find? (· == value)

/-- A new builder has an empty pool. -/
theorem pooled_new (name : String) : Pooled [] (Builder.new (V := V) name) :=
  ⟨Nat.zero_le _, fun _ => rfl⟩

/-- A constant that is found gets the index of the entry that is found. -/
theorem addConstant_of_found {value stored : V} {b : Builder V}
    (hsize : b.constants.size ≤ maxTableSize)
    (h : b.constants.toList.find? (· == value) = some stored) :
    (b.addConstant value).2 = b
      ∧ b.constants[(b.addConstant value).1.toNat]? = some stored := by
  obtain ⟨hstored, i, hi, rfl, hbefore⟩ := List.find?_eq_some_iff_getElem.mp h
  have hi : i < b.constants.size := hi
  have hfound : b.constants.findIdx? (· == value) = some i := by
    refine Array.findIdx?_eq_some_iff_getElem.mpr ⟨hi, hstored, fun j hj heq => ?_⟩
    exact absurd (hbefore j hj) (by simp [heq])
  unfold addConstant
  rw [hfound]
  refine ⟨rfl, ?_⟩
  show b.constants[(UInt16.ofNat i).toNat]? = _
  rw [UInt16.toNat_ofNat_of_lt' (Nat.lt_of_lt_of_le hi hsize), Array.getElem?_eq_getElem hi]
  rfl

/-- A constant that is not found goes to the end, if there is room. -/
theorem addConstant_of_not_found {value : V} {b : Builder V}
    (h : b.constants.toList.find? (· == value) = none)
    (hok : (b.addConstant value).2.overflow = .none) :
    b.constants.size < maxTableSize
      ∧ (b.addConstant value).2.constants = b.constants.push value
      ∧ (b.addConstant value).1.toNat = b.constants.size := by
  have hnone : b.constants.findIdx? (· == value) = none := by
    refine Array.findIdx?_eq_none_iff.mpr fun x hx => ?_
    exact Bool.eq_false_iff.mpr (List.find?_eq_none.mp h x (Array.mem_toList_iff.mpr hx))
  unfold addConstant at hok ⊢
  rw [hnone] at hok ⊢
  by_cases hroom : b.constants.size < maxTableSize
  · rw [if_pos hroom]
    exact ⟨hroom, rfl, UInt16.toNat_ofNat_of_lt' hroom⟩
  · rw [if_neg hroom] at hok
    cases hok

variable [EquivBEq V]

/-- **Adding a constant keeps a pool answering,** and the index leads to what is
found for the constant. -/
theorem Pooled.addConstant {passed : List V} {b : Builder V} (h : Pooled passed b) {value : V}
    (hok : (b.addConstant value).2.overflow = .none) :
    Pooled (passed ++ [value]) (b.addConstant value).2
      ∧ (b.addConstant value).2.constants[(b.addConstant value).1.toNat]?
        = (passed ++ [value]).find? (· == value) := by
  cases hfind : b.constants.toList.find? (· == value) with
  | some stored =>
      obtain ⟨hsame, hindex⟩ := addConstant_of_found h.size_le hfind
      have hpassed : passed.find? (· == value) = some stored := h.find value ▸ hfind
      rw [hsame]
      refine ⟨⟨h.size_le, ?_⟩, ?_⟩
      · -- who looks for an equal constant finds one before the new one
        intro other
        rw [List.find?_append, h.find other]
        cases hother : passed.find? (· == other) with
        | some _ => rfl
        | none =>
            have hne : (value == other) = false := by
              refine Bool.eq_false_iff.mpr fun heq => ?_
              have hstored : (stored == value) = true := List.find?_some (p := (· == value)) hpassed
              exact List.find?_eq_none.mp hother stored (List.mem_of_find?_eq_some hpassed)
                (BEq.trans hstored heq)
            rw [List.find?_singleton, hne]
            rfl
      · rw [hindex, List.find?_append, hpassed]
        rfl
  | none =>
      obtain ⟨hroom, hpushed, hindex⟩ := addConstant_of_not_found hfind hok
      refine ⟨⟨?_, ?_⟩, ?_⟩
      · rw [hpushed, Array.size_push]
        exact hroom
      · intro other
        rw [hpushed, Array.toList_push, List.find?_append, List.find?_append, h.find other]
      · rw [hpushed, hindex, Array.getElem?_push_size, List.find?_append, ← h.find value, hfind,
          List.find?_singleton, BEq.rfl]
        rfl

theorem Pooled.perform {passed : List V} {b : Builder V} (h : Pooled passed b) {op : Op V}
    (hok : (op.perform b).overflow = .none) :
    Pooled (passed ++ op.constant?.toList) (op.perform b) := by
  cases hop : op.constant? with
  | none =>
      rw [Option.toList_none, List.append_nil]
      obtain ⟨hsame, -⟩ := perform_without_constant hop b
      exact ⟨hsame ▸ h.size_le, hsame ▸ h.find⟩
  | some value =>
      obtain ⟨hsame, hoverflow⟩ := perform_with_constant hop b
      have hadded := (h.addConstant (hoverflow ▸ hok)).1
      exact ⟨hsame ▸ hadded.size_le, hsame ▸ hadded.find⟩

/-- **Along a sequence of operations without an overflow** the pool answers for
all constants passed so far. -/
theorem Pooled.performAll {passed : List V} {b : Builder V} (h : Pooled passed b)
    {ops : List (Op V)} (hok : (performAll ops b).overflow = .none) :
    Pooled (passed ++ constantsOf ops) (performAll ops b) := by
  induction ops generalizing passed b with
  | nil =>
      rw [show constantsOf ([] : List (Op V)) = [] from rfl, List.append_nil]
      exact h
  | cons op rest ih =>
      have hone : (op.perform b).overflow = .none := overflow_of_performAll hok
      have hrest := ih (h.perform hone) hok
      have hconstants : constantsOf (op :: rest) = op.constant?.toList ++ constantsOf rest := by
        unfold constantsOf
        rw [List.filterMap_cons]
        cases op.constant? <;> rfl
      rw [hconstants, ← List.append_assoc]
      exact hrest

/-- The index that an operation gets for its constant after the operations `before`;
an operation that emits the constant puts it into the instruction. -/
def indexAt (name : String) (before : List (Op V)) (value : V) : UInt16 :=
  ((Builder.performAll before (Builder.new name)).addConstant value).1

/-- **The index of a constant leads to the first of all constants that equals
it.** -/
theorem constant_at_index {name : String} {before after : List (Op V)} {op : Op V} {value : V}
    {c : Chunk V}
    (hbuild : (Builder.performAll (before ++ op :: after) (Builder.new name)).build = .ok c)
    (hop : op.constant? = some value) :
    c.constants[(indexAt name before value).toNat]?
      = (constantsOf (before ++ op :: after)).find? (· == value) := by
  obtain ⟨hok, rfl⟩ := build_eq_ok hbuild
  have hsplit : Builder.performAll (before ++ op :: after) (Builder.new name)
      = Builder.performAll after (op.perform (Builder.performAll before (Builder.new name))) :=
    List.foldl_append
  rw [hsplit] at hok
  have hone := overflow_of_performAll hok
  have hpool : Pooled ([] ++ constantsOf before) (Builder.performAll before (Builder.new name)) :=
    (pooled_new name).performAll (overflow_of_perform hone)
  obtain ⟨hsame, hoverflow⟩ := perform_with_constant hop
    (Builder.performAll before (Builder.new name))
  obtain ⟨-, hindex⟩ := hpool.addConstant (hoverflow ▸ hone)
  rw [List.nil_append, ← hsame] at hindex
  -- the constant itself is there to be found, if no earlier one is
  obtain ⟨stored, hstored⟩ : ∃ stored, (constantsOf before ++ [value]).find? (· == value)
      = some stored := by
    refine Option.isSome_iff_exists.mp (List.find?_isSome.mpr ?_)
    exact ⟨value, List.mem_append_right _ (List.mem_singleton_self value), BEq.rfl⟩
  have hall : constantsOf (before ++ op :: after)
      = constantsOf before ++ [value] ++ constantsOf after := by
    unfold constantsOf
    rw [List.filterMap_append, List.filterMap_cons_some hop, List.append_cons]
  rw [hall, List.find?_append, hstored, hsplit]
  rw [hstored, ← Array.getElem?_toList] at hindex
  rw [← Array.getElem?_toList]
  obtain ⟨hlt, hget⟩ := List.getElem?_eq_some_iff.mp hindex
  rw [← hget]
  exact List.prefix_iff_getElem?.mp (constants_prefix_performAll after _) _ hlt

omit [BEq V] [EquivBEq V] in
/-- A constant that is passed is passed by some operation. -/
theorem mem_constantsOf {ops : List (Op V)} {value : V} (h : value ∈ constantsOf ops) :
    ∃ before op after, ops = before ++ op :: after ∧ op.constant? = some value := by
  obtain ⟨op, hmem, hop⟩ := List.mem_filterMap.mp h
  obtain ⟨before, after, rfl⟩ := List.append_of_mem hmem
  exact ⟨before, op, after, rfl, hop⟩

end Pool

end Builder

/-! ## §2. Constants that are kept as they are. -/

/-- **Values that a program cannot tell apart:** of the same kind, with the same
text, and with the keys of all dictionaries in the same order. -/
structure Value.Indistinguishable (v w : Value) : Prop where
  kind : v.kind = w.kind
  display : v.display = w.display
  keyOrder : v.keyOrder = w.keyOrder

theorem Value.Indistinguishable.refl (v : Value) : v.Indistinguishable v :=
  ⟨rfl, rfl, rfl⟩

namespace Builder

/-- **Every constant is kept as it is:** its index leads to a value that cannot
be told from it. -/
def KeepsConstants (name : String) (ops : List (Op Value)) (c : Chunk Value) : Prop :=
  ∀ before op after value, ops = before ++ op :: after → op.constant? = some value →
    ∃ stored, c.constants[(indexAt name before value).toNat]? = some stored
      ∧ stored.Indistinguishable value

/-- **Constants are kept exactly if equal ones have their keys in the same
order,** at every level. -/
theorem keepsConstants_iff {name : String} {ops : List (Op Value)} {c : Chunk Value}
    (hbuild : (performAll ops (Builder.new name)).build = .ok c)
    (hcoherent : ∀ v ∈ constantsOf ops, ∀ w ∈ constantsOf ops, v.Coherent w) :
    KeepsConstants name ops c
      ↔ (constantsOf ops).Pairwise fun v w => v == w → v.keyOrder = w.keyOrder := by
  constructor
  · intro hkeeps
    have hfirst : ∀ v ∈ constantsOf ops, ∃ stored,
        (constantsOf ops).find? (· == v) = some stored ∧ stored.Indistinguishable v := by
      intro v hv
      obtain ⟨before, op, after, rfl, hop⟩ := mem_constantsOf hv
      obtain ⟨stored, hstored, hsame⟩ := hkeeps before op after v rfl hop
      exact ⟨stored, (constant_at_index hbuild hop).symm.trans hstored, hsame⟩
    refine List.pairwise_of_forall_mem_list fun v hv w hw heq => ?_
    obtain ⟨stored, hv, hsame⟩ := hfirst v hv
    obtain ⟨stored', hw, hsame'⟩ := hfirst w hw
    -- equal constants are equal to the same constants, so they share their entry
    have hboth : (fun x : Value => x == v) = fun x => x == w := by
      funext x
      rw [Bool.eq_iff_iff]
      exact ⟨fun h => BEq.trans h heq, fun h => BEq.trans h (BEq.symm heq)⟩
    rw [hboth, hw] at hv
    cases hv
    exact hsame.keyOrder.symm.trans hsame'.keyOrder
  · rintro hpairs before op after value rfl hop
    have hall : constantsOf (before ++ op :: after)
        = constantsOf before ++ value :: constantsOf after := by
      unfold constantsOf
      rw [List.filterMap_append, List.filterMap_cons_some hop]
    refine ⟨value, ?_, .refl value⟩
    rw [constant_at_index hbuild hop, hall, List.find?_append]
    cases hfind : (constantsOf before).find? (· == value) with
    | none =>
        rw [List.find?_cons, BEq.rfl]
        rfl
    | some stored =>
        -- an earlier constant is taken; with the keys in the same order it is the same
        have hmem : stored ∈ constantsOf before := List.mem_of_find?_eq_some hfind
        have hequal : (stored == value) = true := List.find?_some (p := (· == value)) hfind
        rw [hall] at hpairs hcoherent
        have horder := (List.pairwise_append.mp hpairs).2.2 stored hmem value List.mem_cons_self
          hequal
        have hsame : stored = value := Value.eq_of_equal
          (hcoherent stored (List.mem_append_left _ hmem) value
            (List.mem_append_right _ List.mem_cons_self)) hequal horder
        rw [hsame]
        rfl

end Builder

/-! ## §3. Two dictionaries that differ in the order of their keys. -/

/-- A dictionary of two integers. -/
def twoKeys (k l : String) (m n : Int64) : Value :=
  .dict [(k, .int m), (l, .int n)]

/-- What is within such a dictionary. -/
theorem within_twoKeys {k l : String} {m n : Int64} {x : Value}
    (h : Value.Within x (twoKeys k l m n)) : x = twoKeys k l m n ∨ ∃ i, x = .int i := by
  cases h with
  | refl => exact Or.inl rfl
  | dict hmem h =>
      rcases List.mem_cons.mp hmem with rfl | hmem
      · cases h
        exact Or.inr ⟨m, rfl⟩
      · obtain rfl := List.mem_singleton.mp hmem
        cases h
        exact Or.inr ⟨n, rfl⟩

/-- Two such dictionaries are values of one program. -/
theorem coherent_twoKeys {k l k' l' : String} {m n m' n' : Int64} (h : k ≠ l) (h' : k' ≠ l') :
    (twoKeys k l m n).Coherent (twoKeys k' l' m' n') := by
  have hnodup : ∀ {k l : String} {m n : Int64} entries, k ≠ l →
      Value.Within (.dict entries) (twoKeys k l m n) → (Dict.keys entries).Nodup := by
    intro k l m n entries hne hin
    rcases within_twoKeys hin with heq | ⟨i, heq⟩
    · cases heq
      simpa [Dict.keys] using hne
    · cases heq
  refine ⟨fun entries => hnodup entries h, fun entries => hnodup entries h', ?_⟩
  intro x y hx hy hleaf heq
  rcases within_twoKeys hx with rfl | ⟨i, rfl⟩
  · cases hleaf
  · rcases within_twoKeys hy with rfl | ⟨j, rfl⟩
    · cases heq
    · rw [Value.equal, beq_iff_eq] at heq
      rw [heq]

/-- The steps of a body that pushes three dictionaries, of which the first and the
last are the same. -/
def repeatsDict : List (Builder.Op Value) :=
  [.emitConstant (twoKeys "a" "b" 1 2), .emit .pop, .emitConstant (twoKeys "b" "a" 1 2),
    .emit .pop, .emitConstant (twoKeys "a" "b" 1 2), .emit .return]

/-- The body keeps all three, in two entries. -/
theorem keepsConstants_iff_repeatsDict :
    ∃ c, (Builder.performAll repeatsDict (Builder.new "t")).build = .ok c
      ∧ c.constants = #[twoKeys "a" "b" 1 2, twoKeys "b" "a" 1 2]
      ∧ Builder.KeepsConstants "t" repeatsDict c := by
  have hbuild : (Builder.performAll repeatsDict (Builder.new "t")).build
      = .ok ⟨"t", encode [.pushConstant 0, .pop, .pushConstant 1, .pop, .pushConstant 0, .return],
        #[twoKeys "a" "b" 1 2, twoKeys "b" "a" 1 2], #[], Signature.none, 0⟩ := by cbv
  have hab : "a" ≠ "b" := by decide
  have hcoherent : ∀ v ∈ Builder.constantsOf repeatsDict,
      ∀ w ∈ Builder.constantsOf repeatsDict, v.Coherent w := by
    intro v hv w hw
    have hform : ∀ u ∈ Builder.constantsOf repeatsDict, ∃ k l, k ≠ l ∧ u = twoKeys k l 1 2 := by
      intro u hu
      simp only [Builder.constantsOf, repeatsDict, List.filterMap, Builder.Op.constant?,
        List.mem_cons, List.not_mem_nil, or_false] at hu
      rcases hu with rfl | rfl | rfl
      · exact ⟨"a", "b", hab, rfl⟩
      · exact ⟨"b", "a", hab.symm, rfl⟩
      · exact ⟨"a", "b", hab, rfl⟩
    obtain ⟨k, l, h, rfl⟩ := hform v hv
    obtain ⟨k', l', h', rfl⟩ := hform w hw
    exact coherent_twoKeys h h'
  refine ⟨_, hbuild, rfl, (Builder.keepsConstants_iff hbuild hcoherent).mpr ?_⟩
  have hdiffer : ¬ (twoKeys "a" "b" 1 2 == twoKeys "b" "a" 1 2) = true := by decide +kernel
  have hdiffer' : ¬ (twoKeys "b" "a" 1 2 == twoKeys "a" "b" 1 2) = true := by decide +kernel
  show List.Pairwise _ [twoKeys "a" "b" 1 2, twoKeys "b" "a" 1 2, twoKeys "a" "b" 1 2]
  simp [hdiffer, hdiffer']

/-- The steps of a body that pushes two dictionaries with the same entries in
different orders. -/
def reordersKeys : List (Builder.Op Value) :=
  [.emitConstant (twoKeys "a" "b" 1 2), .emit .pop, .emitConstant (twoKeys "b" "a" 2 1),
    .emit .return]

/-- The body is built, and pushes the first dictionary for the second as well. -/
theorem not_keepsConstants_reordersKeys :
    ∃ c, (Builder.performAll reordersKeys (Builder.new "t")).build = .ok c
      ∧ ¬ Builder.KeepsConstants "t" reordersKeys c := by
  have hbuild : (Builder.performAll reordersKeys (Builder.new "t")).build
      = .ok ⟨"t", encode [.pushConstant 0, .pop, .pushConstant 0, .return],
        #[twoKeys "a" "b" 1 2], #[], Signature.none, 0⟩ := by cbv
  refine ⟨_, hbuild, fun hkeeps => ?_⟩
  have hindex : Builder.indexAt "t" [.emitConstant (twoKeys "a" "b" 1 2), .emit .pop]
      (twoKeys "b" "a" 2 1) = 0 := by decide +kernel
  obtain ⟨stored, hstored, hsame⟩ := hkeeps [.emitConstant (twoKeys "a" "b" 1 2), .emit .pop] _
    [.emit .return] (twoKeys "b" "a" 2 1) rfl rfl
  rw [hindex] at hstored
  cases hstored
  have horder := hsame.keyOrder
  simp [twoKeys, Value.keyOrder, Value.entryOrders] at horder

end CallDecoration
