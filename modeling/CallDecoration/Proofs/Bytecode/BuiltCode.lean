/-
  CallDecoration.Proofs.Bytecode.BuiltCode
  ──────────────────────────────────────
  **A chunk holds what was emitted into it.**  Of an orderly sequence of
  operations without an overflow exactly the code that is not too long is
  built.  It decodes to the emitted instructions, and every index, slot and
  distance in it is good (`Builder.Orderly.holdsEmitted`).  The limit on the length
  is what makes the distances good: none is checked when it is written.
-/
import CallDecoration.Proofs.Bytecode.ConstantPool
import CallDecoration.Proofs.Bytecode.Emission
import Mathlib.Algebra.GroupWithZero.Nat

namespace CallDecoration

/-! ## §1. Where a forward jump lands. -/

/-- The size of the code that changes add. -/
def addedSize (changes : List CodeChange) : Nat :=
  (changes.map CodeChange.size).sum

theorem length_foldl_apply (changes : List CodeChange) (code : List UInt8) :
    (changes.foldl CodeChange.apply code).length = code.length + addedSize changes := by
  induction changes generalizing code with
  | nil => rfl
  | cons change later ih =>
      rw [List.foldl_cons, ih, CodeChange.length_apply, Nat.add_assoc]
      rfl

theorem addedSize_append (xs ys : List CodeChange) :
    addedSize (xs ++ ys) = addedSize xs + addedSize ys := by
  unfold addedSize
  rw [List.map_append, List.sum_append]

/-- A label lands where it is patched first. -/
theorem landing_of_not_mem {label : JumpLabel} {between : List CodeChange}
    (h : .patches label ∉ between) (offset : Nat) (later : List CodeChange) :
    landing label offset (between ++ .patches label :: later) = offset + addedSize between := by
  induction between generalizing offset with
  | nil => exact if_pos rfl
  | cons change rest ih =>
      rw [List.cons_append, landing_cons_of_ne fun heq => h (heq ▸ List.mem_cons_self),
        ih fun hmem => h (List.mem_cons_of_mem _ hmem), Nat.add_assoc]
      rfl

/-- A forward jump stands where it is opened, and goes where its label lands. -/
theorem InOrder.row_of_opens {begun : List Nat} {waiting : List JumpLabel} {offset : Nat}
    {before later : List CodeChange} {op : Opcode}
    (h : InOrder begun waiting offset (before ++ .opens op :: later)) :
    (offset + addedSize before,
        jumpOf op (landing ⟨offset + addedSize before + 1⟩
          (offset + addedSize before + jumpSize) later))
      ∈ rowsFrom offset (emitted offset (before ++ .opens op :: later)) := by
  induction before generalizing begun waiting offset with
  | nil => exact List.mem_cons_self
  | cons change rest ih =>
      have hsum : offset + addedSize (change :: rest) = offset + change.size + addedSize rest := by
        rw [Nat.add_assoc]
        rfl
      rw [hsum]
      cases h with
      | keeps hrest | patches _ _ hrest => exact ih hrest
      | writes _ _ hrest => exact List.mem_cons_of_mem _ (ih hrest)
      | opens hop hrest =>
          refine List.mem_cons_of_mem _ ?_
          rw [size_jumpOf hop]
          exact ih hrest

/-- In code that is not too long, the operand of a jump is its whole distance. -/
theorem distance_of_decodeAt {code : Array UInt8} {offset next target : Nat} {i : Instruction}
    (hfits : code.size ≤ maxCodeLength) (h : decodeAt code offset = .ok (i, next))
    (hjump : i.target? = some target) :
    wordDistance (wordOfBytes (byteAt code (offset + 1)) (byteAt code (offset + 2)))
      = (target : Int) - ((offset + jumpSize : Nat) : Int) := by
  obtain ⟨hwritten, hnext, hend⟩ := decodeAt_ok h
  obtain ⟨hbytes, hsize⟩ := bytes_of_target hjump offset
  -- both ends of the jump are within the code, so the distance fits a word
  have htarget : target < code.size := by
    cases i with
    | jump _ | jumpIfFalse _ =>
        cases hjump
        exact hwritten
    | _ => cases hjump
  have hsource : offset + jumpSize ≤ code.size := hsize ▸ hnext ▸ hend
  have hdrop := bytes_of_decodeAt h
  unfold jumpSize at hsource
  rw [hbytes, drop_eq_byteAt_cons (by omega), drop_eq_byteAt_cons (by omega),
    drop_eq_byteAt_cons (by omega)] at hdrop
  -- the two bytes behind the operation are the word that was written
  have hword : wordOfBytes (byteAt code (offset + 1)) (byteAt code (offset + 2))
      = distanceWord (offset + jumpSize) target := by
    obtain ⟨-, htail⟩ := List.cons.inj hdrop
    obtain ⟨hhigh, htail⟩ := List.cons.inj htail
    obtain ⟨hlow, -⟩ := List.cons.inj htail
    rw [hhigh, hlow, wordOfBytes_wordBytes]
  unfold maxCodeLength at hfits
  rw [hword, wordDistance_distanceWord (by unfold maxCodeLength jumpSize; omega)
    (by unfold maxCodeLength; omega)]

namespace Builder

/-! ## §2. The other tables. -/

section Tables

variable {V : Type} [BEq V]

/-- The name that an operation puts into the table of names. -/
def Op.name? : Op V → Option String
  | addName name | emitLoadGlobal name | emitStoreGlobal name => some name
  | _ => .none

/-- An operation without a name leaves the names. -/
theorem perform_without_name {op : Op V} (hop : op.name? = .none) (b : Builder V) :
    (op.perform b).names = b.names := by
  have hconstant : ∀ value, (b.addConstant value).2.names = b.names := by
    intro value
    unfold addConstant
    split
    · rfl
    · split <;> rfl
  cases op with
  | addConstant value | emitConstant value => exact hconstant value
  | addName _ | emitLoadGlobal _ | emitStoreGlobal _ => cases hop
  | setSignature _ | reserveLocals _ | emit _ | emitRaw _ | emitJump _ | patchJump _ => rfl

/-- An operation with a name does to the names what adding the name does. -/
theorem perform_with_name {op : Op V} {name : String} (hop : op.name? = some name)
    (b : Builder V) :
    (op.perform b).names = (b.addName name).2.names
      ∧ (op.perform b).overflow = (b.addName name).2.overflow := by
  cases op with
  | addName n | emitLoadGlobal n | emitStoreGlobal n =>
      cases hop
      exact ⟨rfl, rfl⟩
  | _ => cases hop

omit [BEq V] in
/-- **Adding a name** moves none, keeps the table in its bounds, and gives an index
that leads to the name, unless the table overflows. -/
theorem addName_names (name : String) {b : Builder V} (hsize : b.names.size ≤ maxTableSize) :
    b.names.toList <+: (b.addName name).2.names.toList
      ∧ (b.addName name).2.names.size ≤ maxTableSize
      ∧ ((b.addName name).2.overflow = .none →
          (b.addName name).2.names[(b.addName name).1.toNat]? = some name) := by
  unfold addName
  cases hfind : b.names.findIdx? (· == name) with
  | some i =>
      obtain ⟨hi, hname, -⟩ := Array.findIdx?_eq_some_iff_getElem.mp hfind
      refine ⟨List.prefix_refl _, hsize, fun _ => ?_⟩
      show b.names[(UInt16.ofNat i).toNat]? = some name
      rw [UInt16.toNat_ofNat_of_lt' (Nat.lt_of_lt_of_le hi hsize), Array.getElem?_eq_getElem hi,
        eq_of_beq hname]
  | none =>
      by_cases hroom : b.names.size < maxTableSize
      · dsimp only
        rw [if_pos hroom]
        refine ⟨?_, ?_, fun _ => ?_⟩
        · rw [Array.toList_push]
          exact List.prefix_append _ _
        · rw [Array.size_push]
          exact hroom
        · show (b.names.push name)[(UInt16.ofNat b.names.size).toNat]? = some name
          rw [UInt16.toNat_ofNat_of_lt' hroom, Array.getElem?_push_size]
      · dsimp only
        rw [if_neg hroom]
        exact ⟨List.prefix_refl _, hsize, fun h => nomatch h⟩

/-- No operation moves a name, or lets the table grow beyond its bounds. -/
theorem perform_names (op : Op V) {b : Builder V} (hsize : b.names.size ≤ maxTableSize) :
    b.names.toList <+: (op.perform b).names.toList
      ∧ (op.perform b).names.size ≤ maxTableSize := by
  cases hop : op.name? with
  | none =>
      rw [perform_without_name hop]
      exact ⟨List.prefix_refl _, hsize⟩
  | some name =>
      rw [(perform_with_name hop b).1]
      obtain ⟨hkept, hbound, -⟩ := addName_names name hsize
      exact ⟨hkept, hbound⟩

theorem performAll_names (ops : List (Op V)) {b : Builder V}
    (hsize : b.names.size ≤ maxTableSize) :
    b.names.toList <+: (performAll ops b).names.toList
      ∧ (performAll ops b).names.size ≤ maxTableSize := by
  induction ops generalizing b with
  | nil => exact ⟨List.prefix_refl _, hsize⟩
  | cons op rest ih =>
      obtain ⟨hkept, hbound⟩ := perform_names op hsize
      obtain ⟨hlater, hbound'⟩ := ih hbound
      exact ⟨hkept.trans hlater, hbound'⟩

theorem performAll_append (before after : List (Op V)) (b : Builder V) :
    performAll (before ++ after) b = performAll after (performAll before b) :=
  List.foldl_append

/-- The index that an operation gets for its name after the operations `before`. -/
def nameIndexAt (title : String) (before : List (Op V)) (name : String) : UInt16 :=
  ((performAll before (Builder.new title)).addName name).1

/-- **The index of a name leads to it.** -/
theorem name_at_index {title name : String} {before after : List (Op V)} {op : Op V}
    {c : Chunk V} (hbuild : (performAll (before ++ op :: after) (Builder.new title)).build = .ok c)
    (hop : op.name? = some name) :
    c.names[(nameIndexAt title before name).toNat]? = some name := by
  obtain ⟨hok, rfl⟩ := build_eq_ok hbuild
  rw [performAll_append] at hok ⊢
  have hbefore := (performAll_names before (b := Builder.new title) (Nat.zero_le _)).2
  obtain ⟨hsame, hoverflow⟩ := perform_with_name hop (performAll before (Builder.new title))
  -- the name is there when the operation is done, and no later operation moves it
  have hindex := (addName_names name hbefore).2.2
    (hoverflow ▸ overflow_of_performAll (b := op.perform _) hok)
  have hkept := (performAll_names after (perform_names op hbefore).2).1
  rw [← hsame, ← Array.getElem?_toList] at hindex
  obtain ⟨hlt, hget⟩ := List.getElem?_eq_some_iff.mp hindex
  show (performAll after _).names[_]? = _
  rw [← Array.getElem?_toList]
  exact (List.prefix_iff_getElem?.mp hkept _ hlt).trans (congrArg some hget)

/-- No operation takes local slots away. -/
theorem localCount_le_perform (op : Op V) (b : Builder V) :
    b.localCount ≤ (op.perform b).localCount := by
  cases op with
  | setSignature _ | reserveLocals _ | emit _ => exact Nat.le_max_left _ _
  | emitRaw _ | emitJump _ | patchJump _ => exact Nat.le_refl _
  | addConstant value => exact Nat.le_of_eq (addConstant_locals value b).2.symm
  | addName name => exact Nat.le_of_eq (addName_locals name b).2.symm
  | emitConstant value =>
      exact (addConstant_locals value b).2 ▸ (emit_locals _ (b.addConstant value).2).2
  | emitLoadGlobal name | emitStoreGlobal name =>
      exact (addName_locals name b).2 ▸ (emit_locals _ (b.addName name).2).2

theorem localCount_le_performAll (ops : List (Op V)) (b : Builder V) :
    b.localCount ≤ (performAll ops b).localCount := by
  induction ops generalizing b with
  | nil => exact Nat.le_refl _
  | cons op rest ih => exact Nat.le_trans (localCount_le_perform op b) (ih _)

/-- An operation that writes an instruction makes room for its local slot. -/
theorem localsOf_le_perform {op : Op V} {b : Builder V} {i : Instruction}
    (h : op.change b = .writes i) : localsOf i ≤ (op.perform b).localCount := by
  cases op with
  | emit j =>
      cases h
      exact Nat.le_max_right _ _
  | emitConstant _ | emitLoadGlobal _ | emitStoreGlobal _ =>
      cases h
      exact Nat.zero_le _
  | _ => cases h

/-- **There is a slot for each local that is used.** -/
theorem localsOf_le_performAll {ops : List (Op V)} {b : Builder V} {offset : Nat}
    {i : Instruction} (h : i ∈ emitted offset (changes b ops)) :
    localsOf i ≤ (performAll ops b).localCount := by
  induction ops generalizing b offset with
  | nil => cases h
  | cons op rest ih =>
      have hlater : ∀ {offset}, i ∈ emitted offset (changes (op.perform b) rest) →
          localsOf i ≤ (performAll (op :: rest) b).localCount := ih
      rw [changes] at h
      cases hchange : op.change b with
      | keeps | patches _ | appends _ =>
          rw [hchange] at h
          exact hlater h
      | writes j =>
          rw [hchange] at h
          rcases List.mem_cons.mp h with rfl | h
          · exact Nat.le_trans (localsOf_le_perform hchange) (localCount_le_performAll rest _)
          · exact hlater h
      | opens jumpOp =>
          rw [hchange] at h
          rcases List.mem_cons.mp h with rfl | h
          · unfold jumpOf
            split <;> exact Nat.zero_le _
          · exact hlater h

/-- The parameters that an operation declares. -/
def Op.signature? : Op V → Option Signature
  | setSignature sig => some sig
  | _ => .none

theorem perform_signature (op : Op V) (b : Builder V) :
    (op.perform b).signature = op.signature?.getD b.signature := by
  cases op with
  | addConstant value | emitConstant value => exact (addConstant_locals value b).1
  | addName name | emitLoadGlobal name | emitStoreGlobal name => exact (addName_locals name b).1
  | setSignature _ | reserveLocals _ | emit _ | emitRaw _ | emitJump _ | patchJump _ => rfl

/-- **The parameters are those that were declared last.** -/
theorem performAll_signature (ops : List (Op V)) (b : Builder V) :
    (performAll ops b).signature = ((ops.filterMap Op.signature?).getLast?).getD b.signature := by
  induction ops generalizing b with
  | nil => rfl
  | cons op rest ih =>
      show (performAll rest (op.perform b)).signature = _
      rw [ih, perform_signature, List.filterMap_cons]
      cases op.signature? with
      | none => rfl
      | some sig =>
          dsimp only
          rw [List.getLast?_cons]
          rfl

end Tables

/-! ## §3. Built code. -/

section Built

variable {V : Type} [BEq V]

theorem changes_append (before after : List (Op V)) (b : Builder V) :
    changes b (before ++ after) = changes b before ++ changes (performAll before b) after := by
  induction before generalizing b with
  | nil => rfl
  | cons op rest ih => exact congrArg (op.change b :: ·) (ih (op.perform b))

/-- The offset after a sequence of operations. -/
theorem offset_performAll (ops : List (Op V)) (b : Builder V) :
    (performAll ops b).offset = b.offset + addedSize (changes b ops) := by
  have hlength := congrArg List.length (performAll_code ops b)
  rw [length_foldl_apply, Array.length_toList, Array.length_toList] at hlength
  exact hlength

/-- A label that no operation patches, none of the changes patches. -/
theorem not_mem_changes {label : JumpLabel} {ops : List (Op V)} (h : .patchJump label ∉ ops)
    (b : Builder V) : .patches label ∉ changes b ops := by
  induction ops generalizing b with
  | nil => exact List.not_mem_nil
  | cons op rest ih =>
      intro hmem
      rcases List.mem_cons.mp hmem with heq | hmem
      · cases op with
        | patchJump other =>
            cases heq
            exact h List.mem_cons_self
        | _ => cases heq
      · exact ih (fun hrest => h (List.mem_cons_of_mem _ hrest)) _ hmem

/-- The builder of a chunk after some operations. -/
def after (title : String) (ops : List (Op V)) : Builder V :=
  performAll ops (Builder.new title)

/-- The instructions that are emitted into a new chunk, in order. -/
def emittedBy (title : String) (ops : List (Op V)) : List Instruction :=
  emitted 0 (changes (Builder.new title) ops)

/-- **The operations of a careful user:** calls have a shape that can be written,
jumps go back to emitted instructions, and every forward jump is patched once,
where another instruction follows. -/
def Orderly (title : String) (ops : List (Op V)) : Prop :=
  InOrder [] [] 0 (changes (Builder.new title) ops)

/-- **A chunk that holds what was emitted into it.** -/
structure HoldsEmitted (title : String) (ops : List (Op V)) (c : Chunk V) : Prop where
  /-- It decodes to the emitted instructions. -/
  decodes : decode c.code = .ok (rowsFrom 0 (emittedBy title ops))
  /-- A forward jump goes to the offset at which its label is patched. -/
  forward : ∀ before op between label later,
    ops = before ++ .emitJump op :: (between ++ .patchJump label :: later) →
    label = ((after title before).emitJump op).1 → .patchJump label ∉ between →
    ((after title before).offset,
        jumpOf op (after title (before ++ .emitJump op :: between)).offset)
      ∈ rowsFrom 0 (emittedBy title ops)
  /-- The operand of a jump is its distance, of which nothing is cut off. -/
  distance : ∀ offset i target, (offset, i) ∈ rowsFrom 0 (emittedBy title ops) →
    i.target? = some target →
    wordDistance (wordOfBytes (byteAt c.code (offset + 1)) (byteAt c.code (offset + 2)))
      = (target : Int) - ((offset + jumpSize : Nat) : Int)
  /-- The index of a constant leads to an equal one. -/
  constants : ∀ before op later value, ops = before ++ op :: later → op.constant? = some value →
    ∃ stored, c.constants[(indexAt title before value).toNat]? = some stored
      ∧ (stored == value) = true
  /-- The index of a name leads to it. -/
  names : ∀ before op later name, ops = before ++ op :: later → op.name? = some name →
    c.names[(nameIndexAt title before name).toNat]? = some name
  /-- Every local slot that is used is there. -/
  locals : ∀ slot, .loadLocal slot ∈ emittedBy title ops ∨ .storeLocal slot ∈ emittedBy title ops →
    slot.toNat < c.localCount
  /-- The parameters are those declared last, and there is a slot for each. -/
  parameters : c.signature = ((ops.filterMap Op.signature?).getLast?).getD Signature.none
    ∧ c.signature.slots ≤ c.localCount

/-- The code of an orderly sequence is the encoding of what was emitted, and this
is well formed unless it is too long. -/
theorem Orderly.code {title : String} {ops : List (Op V)} (h : Orderly title ops) :
    (after title ops).code = encode (emittedBy title ops)
      ∧ ((after title ops).code.size ≤ maxCodeLength → WellFormed (emittedBy title ops)) := by
  obtain ⟨hcode, hlands, hshapes⟩ := h.assembles (drafted_nil _) rfl
  have hfinished : finished [] 0 (changes (Builder.new title) ops) [] = emittedBy title ops := rfl
  rw [hfinished] at hcode hlands hshapes
  have hencoded : (after title ops).code = encode (emittedBy title ops) := by
    refine Array.toList_inj.mp ?_
    rw [after, performAll_code]
    exact hcode
  refine ⟨hencoded, fun hfits => ⟨hencoded ▸ hfits, hlands, fun shape hmem => ?_⟩⟩
  exact CallShape.isWritten_iff.mp (hshapes shape hmem)

/-- A forward jump in an orderly sequence goes to where its label is patched. -/
theorem Orderly.forward {title : String} {before between later : List (Op V)} {op : Opcode}
    {label : JumpLabel}
    (h : Orderly title (before ++ .emitJump op :: (between ++ .patchJump label :: later)))
    (hlabel : label = ((after title before).emitJump op).1)
    (hfirst : .patchJump label ∉ between) :
    ((after title before).offset,
        jumpOf op (after title (before ++ .emitJump op :: between)).offset)
      ∈ rowsFrom 0 (emittedBy title (before ++ .emitJump op :: (between ++ .patchJump label :: later)))
    := by
  subst hlabel
  have hstart : (after title before).offset = 0 + addedSize (changes (Builder.new title) before) :=
    offset_performAll before (Builder.new title)
  have hend : (after title (before ++ .emitJump op :: between)).offset
      = (after title before).offset + jumpSize
        + addedSize (changes ((Op.emitJump op).perform (after title before)) between) := by
    rw [after, offset_performAll, changes_append, addedSize_append, hstart, Nat.add_assoc,
      Nat.add_assoc]
    rfl
  -- nothing before the patch lets the label land, so it lands at the patch
  have hlands := fun rest => landing_of_not_mem
    (not_mem_changes hfirst ((Op.emitJump op).perform (after title before)))
    ((after title before).offset + jumpSize) rest
  unfold Orderly at h
  unfold emittedBy
  rw [changes_append, changes, changes_append, changes] at h ⊢
  have hrow := h.row_of_opens
  rw [← hstart] at hrow
  rw [hend, ← hlands]
  exact hrow

variable [EquivBEq V]

/-- **An orderly sequence without an overflow is built exactly if its code is not
too long,** and the chunk holds what was emitted into it. -/
theorem Orderly.holdsEmitted {title : String} {ops : List (Op V)} (h : Orderly title ops)
    (hroom : (after title ops).overflow = .none) :
    ((∃ c, (after title ops).build = .ok c) ↔ (after title ops).code.size ≤ maxCodeLength)
      ∧ ∀ c, (after title ops).build = .ok c → HoldsEmitted title ops c := by
  obtain ⟨hcode, hwell⟩ := h.code
  have hbuild : (∃ c, (after title ops).build = .ok c)
      ↔ (after title ops).code.size ≤ maxCodeLength := by
    unfold Builder.build
    rw [hroom]
    by_cases hfits : (after title ops).code.size ≤ maxCodeLength
    · exact ⟨fun _ => hfits, fun _ => ⟨_, if_pos hfits⟩⟩
    · refine ⟨?_, fun hok => absurd hok hfits⟩
      rintro ⟨c, hc⟩
      dsimp only at hc
      rw [if_neg hfits] at hc
      cases hc
  refine ⟨hbuild, fun c hc => ?_⟩
  have hfits := hbuild.mp ⟨c, hc⟩
  have hdecode := (hwell hfits).decode_encode
  rw [← hcode] at hdecode
  have hslots := slots_le_of_build hc
  have hparts := (build_eq_ok hc).2
  subst hparts
  refine
    { decodes := hdecode
      forward := ?forward
      distance := ?distance
      constants := ?constants
      names := ?names
      locals := ?locals
      parameters := ⟨performAll_signature ops (Builder.new title), hslots⟩ }
  case forward =>
    rintro before op between label later rfl hlabel hfirst
    exact h.forward hlabel hfirst
  case distance =>
    intro offset i target hrow hjump
    obtain ⟨_, _, next, -, hat, -⟩ := (rows_of_decode hdecode).split hrow
    exact distance_of_decodeAt hfits hat hjump
  case constants =>
    rintro before op later value rfl hop
    have hindex := constant_at_index hc hop
    have hpassed : value ∈ constantsOf (before ++ op :: later) :=
      List.mem_filterMap.mpr ⟨op, List.mem_append_right _ List.mem_cons_self, hop⟩
    -- the constant that is stored is the first one equal to this, be it an earlier or this itself
    obtain ⟨stored, hstored⟩ : ∃ stored,
        (constantsOf (before ++ op :: later)).find? (· == value) = some stored :=
      Option.isSome_iff_exists.mp (List.find?_isSome.mpr ⟨value, hpassed, BEq.rfl⟩)
    exact ⟨stored, hindex.trans hstored, List.find?_some (p := (· == value)) hstored⟩
  case names =>
    rintro before op later name rfl hop
    exact name_at_index hc hop
  case locals =>
    rintro slot (hused | hused)
    · exact localsOf_le_performAll hused
    · exact localsOf_le_performAll hused

end Built

/-! ## §4. Crossing jumps. -/

/-- A body with two forward jumps that cross, a jump back, a constant that is used
twice, a global and a local beyond the parameters. -/
def crossingJumps : List (Op Value) :=
  [.setSignature ⟨["x"], [], none, none⟩, .emitConstant (.int 7), .emitJump .jumpIfFalse,
    .emitJump .jump, .patchJump ⟨4⟩, .emit (.storeLocal 2), .emitLoadGlobal "g",
    .emitConstant (.int 7), .patchJump ⟨7⟩, .emit (.jump 0), .emit .return]

/-- It is orderly and is built. -/
theorem holdsEmitted_crossingJumps :
    Orderly "t" crossingJumps
      ∧ (after "t" crossingJumps).overflow = .none
      ∧ ∃ c, (after "t" crossingJumps).build = .ok c
        ∧ HoldsEmitted "t" crossingJumps c
        ∧ decode c.code = .ok [(0, .pushConstant 0), (3, .jumpIfFalse 9), (6, .jump 17),
          (9, .storeLocal 2), (11, .loadGlobal 0), (14, .pushConstant 0), (17, .jump 0),
          (20, .return)] := by
  have hchanges : changes (Builder.new "t") crossingJumps
      = [.keeps, .writes (.pushConstant 0), .opens .jumpIfFalse, .opens .jump, .patches ⟨4⟩,
        .writes (.storeLocal 2), .writes (.loadGlobal 0), .writes (.pushConstant 0), .patches ⟨7⟩,
        .writes (.jump 0), .writes .return] := by decide +kernel
  have horderly : Orderly "t" crossingJumps := by
    unfold Orderly
    rw [hchanges]
    refine .keeps <| .writes_plain rfl rfl <| .opens rfl <| .opens rfl <| .patches ?_ ?_ <|
      .writes_plain rfl rfl <| .writes_plain rfl rfl <| .writes_plain rfl rfl <| .patches ?_ ?_ <|
      .writes ?_ ?_ <| .writes_plain rfl rfl .done
    · decide
    · exact ⟨.writes .return, by decide, rfl⟩
    · decide
    · exact ⟨.writes .return, by decide, rfl⟩
    · intro shape hcall
      cases hcall
    · intro target hback
      cases hback
      decide
  have hroom : (after "t" crossingJumps).overflow = .none := by decide +kernel
  obtain ⟨hbuilt, hholds⟩ := horderly.holdsEmitted hroom
  obtain ⟨c, hc⟩ := hbuilt.mpr (by decide +kernel)
  refine ⟨horderly, hroom, c, hc, hholds c hc, ?_⟩
  rw [(hholds c hc).decodes, emittedBy, hchanges]
  rfl

end Builder

end CallDecoration
