/-
  CallDecoration.Proofs.Bytecode.Emission
  ──────────────────────────────────────
  **The code that a builder writes.**  Of an operation only what it does to the
  code matters here (`CodeChange`).  Instructions are appended as they are; a
  forward jump is appended with a placeholder, which is overwritten when its
  label is patched, with other labels open at that time, nested or crossing.
  Code with placeholders is itself the encoding of instructions: a placeholder
  is a jump to its own last byte.  So patching is retargeting
  (`encodeFrom_retargetAt`), and what is written in the end is the encoding of
  what was emitted (`InOrder.assembles`).
-/
import CallDecoration.Proofs.Bytecode.Building
import CallDecoration.Proofs.Bytecode.RoundTrip
import CallDecoration.Proofs.Instrumentation.Images

namespace CallDecoration

/-! ## §1. What an operation does to the code. -/

/-- A change of the code of a builder. -/
inductive CodeChange where
  | keeps
  /-- Appends an instruction. -/
  | writes (i : Instruction)
  /-- Appends a jump of operation `op` whose target follows later. -/
  | opens (op : Opcode)
  /-- Lets an open jump land at the end of the code. -/
  | patches (label : JumpLabel)
  /-- Appends bytes as they are. -/
  | appends (bytes : List UInt8)
  deriving DecidableEq

/-- The bytes with a word put at an index. -/
def putWord (index : Nat) (w : UInt16) (code : List UInt8) : List UInt8 :=
  (code.set index (UInt8.ofNat (w.toNat / 256))).set (index + 1) (UInt8.ofNat (w.toNat % 256))

namespace CodeChange

/-- By how many bytes the code grows. -/
def size : CodeChange → Nat
  | keeps | patches _ => 0
  | writes i => i.size
  | opens _ => jumpSize
  | appends bytes => bytes.length

/-- Whether an instruction begins at the present end of the code. -/
def emits : CodeChange → Bool
  | writes _ | opens _ => true
  | _ => false

/-- The code after a change. -/
def apply (code : List UInt8) : CodeChange → List UInt8
  | keeps => code
  | writes i => code ++ i.bytes code.length
  | opens op => code ++ [op.toByte, 0xFF, 0xFF]
  | patches label => putWord label.operand (distanceWord (label.operand + 2) code.length) code
  | appends bytes => code ++ bytes

theorem length_apply (code : List UInt8) (change : CodeChange) :
    (change.apply code).length = code.length + change.size := by
  cases change <;> simp [apply, size, putWord, jumpSize]

end CodeChange

namespace Builder

variable {V : Type} [BEq V]

/-- What an operation does to the code. -/
def Op.change (b : Builder V) : Op V → CodeChange
  | setSignature _ | reserveLocals _ | addConstant _ | addName _ => .keeps
  | emit i => .writes i
  | emitRaw bytes => .appends bytes
  | emitConstant value => .writes (.pushConstant (b.addConstant value).1)
  | emitLoadGlobal name => .writes (.loadGlobal (b.addName name).1)
  | emitStoreGlobal name => .writes (.storeGlobal (b.addName name).1)
  | emitJump op => .opens op
  | patchJump label => .patches label

/-- What a sequence of operations does to the code, one after the other. -/
def changes (b : Builder V) : List (Op V) → List CodeChange
  | [] => []
  | op :: later => op.change b :: changes (op.perform b) later

theorem addConstant_code (value : V) (b : Builder V) : (b.addConstant value).2.code = b.code := by
  unfold addConstant
  split
  · rfl
  · split <;> rfl

omit [BEq V] in
theorem addName_code (name : String) (b : Builder V) : (b.addName name).2.code = b.code := by
  unfold addName
  split
  · rfl
  · split <;> rfl

omit [BEq V] in
theorem emit_code (i : Instruction) (b : Builder V) :
    (b.emit i).code.toList = b.code.toList ++ i.bytes b.code.size := by
  show (b.code ++ i.bytes b.offset).toList = _
  simp [offset]

/-- An operation does to the code what its change says. -/
theorem perform_code (op : Op V) (b : Builder V) :
    (op.perform b).code.toList = (op.change b).apply b.code.toList := by
  cases op with
  | setSignature _ | reserveLocals _ => rfl
  | addConstant value => exact congrArg Array.toList (addConstant_code value b)
  | addName name => exact congrArg Array.toList (addName_code name b)
  | emit i => exact emit_code i b
  | emitConstant value =>
      show ((b.addConstant value).2.emit _).code.toList = _
      rw [emit_code, addConstant_code]
      rfl
  | emitLoadGlobal name | emitStoreGlobal name =>
      show ((b.addName name).2.emit _).code.toList = _
      rw [emit_code, addName_code]
      rfl
  | emitRaw bytes | emitJump op => exact Array.toList_appendList
  | patchJump label => simp [Op.perform, patchJump, Op.change, CodeChange.apply, putWord, offset]

/-- The code after a sequence of operations. -/
theorem performAll_code (ops : List (Op V)) (b : Builder V) :
    (performAll ops b).code.toList = (changes b ops).foldl CodeChange.apply b.code.toList := by
  induction ops generalizing b with
  | nil => rfl
  | cons op later ih =>
      show (performAll later (op.perform b)).code.toList
        = (changes (op.perform b) later).foldl CodeChange.apply ((op.change b).apply b.code.toList)
      rw [ih, perform_code]

end Builder

/-! ## §2. What is emitted. -/

/-- The jump of operation `op` to a target. -/
def jumpOf (op : Opcode) (target : Nat) : Instruction :=
  if op = .jumpIfFalse then .jumpIfFalse target else .jump target

/-- Where an open jump lands: the offset at which its label is patched. -/
def landing (label : JumpLabel) (offset : Nat) : List CodeChange → Nat
  | [] => offset
  | change :: later =>
      if change = .patches label then offset else landing label (offset + change.size) later

/-- **The instructions that are emitted,** in order; a forward jump goes to where
its label is patched. -/
def emitted (offset : Nat) : List CodeChange → List Instruction
  | [] => []
  | .writes i :: later => i :: emitted (offset + i.size) later
  | .opens op :: later =>
      jumpOf op (landing ⟨offset + 1⟩ (offset + jumpSize) later)
        :: emitted (offset + jumpSize) later
  | change :: later => emitted (offset + change.size) later

/-- **Changes that a careful user of a builder makes,** from code of a length on in
which instructions begin at the offsets `begun` and the labels `waiting` are
open. -/
inductive InOrder : (begun : List Nat) → (waiting : List JumpLabel) → (offset : Nat) →
    List CodeChange → Prop where
  /-- In the end no label is open. -/
  | done {begun : List Nat} {offset : Nat} : InOrder begun [] offset []
  | keeps {begun : List Nat} {waiting : List JumpLabel} {offset : Nat} {later : List CodeChange}
      (h : InOrder begun waiting offset later) : InOrder begun waiting offset (.keeps :: later)
  /-- A call has a shape that can be written, and a jump goes back to an
  instruction. -/
  | writes {begun : List Nat} {waiting : List JumpLabel} {offset : Nat} {later : List CodeChange}
      {i : Instruction} (hshape : ∀ shape, i = .call shape → shape.IsWritten)
      (hback : ∀ target, i.target? = some target → target ∈ begun)
      (h : InOrder (begun ++ [offset]) waiting (offset + i.size) later) :
      InOrder begun waiting offset (.writes i :: later)
  /-- A jump whose target follows later, under a label of its own. -/
  | opens {begun : List Nat} {waiting : List JumpLabel} {offset : Nat} {later : List CodeChange}
      {op : Opcode} (hop : op.isJump = true)
      (h : InOrder (begun ++ [offset]) (waiting ++ [⟨offset + 1⟩]) (offset + jumpSize) later) :
      InOrder begun waiting offset (.opens op :: later)
  /-- A label is patched once, where another instruction follows. -/
  | patches {begun : List Nat} {waiting : List JumpLabel} {offset : Nat} {later : List CodeChange}
      {label : JumpLabel} (hwaiting : label ∈ waiting) (hfollows : ∃ c ∈ later, c.emits = true)
      (h : InOrder begun (waiting.erase label) offset later) :
      InOrder begun waiting offset (.patches label :: later)

/-- An instruction that neither calls nor jumps may be written anywhere. -/
theorem InOrder.writes_plain {begun : List Nat} {waiting : List JumpLabel} {offset : Nat}
    {later : List CodeChange} {i : Instruction} (hshape : i.shape? = none)
    (htarget : i.target? = none)
    (h : InOrder (begun ++ [offset]) waiting (offset + i.size) later) :
    InOrder begun waiting offset (.writes i :: later) := by
  refine .writes ?_ ?_ h
  · rintro shape rfl
    cases hshape
  · intro target hback
    rw [htarget] at hback
    cases hback

theorem opcode_jumpOf {op : Opcode} (h : op.isJump = true) (target : Nat) :
    (jumpOf op target).opcode = op := by
  cases op with
  | jump | jumpIfFalse => rfl
  | _ => cases h

theorem target?_jumpOf (op : Opcode) (target : Nat) : (jumpOf op target).target? = some target := by
  unfold jumpOf
  split <;> rfl

theorem retarget_jumpOf (op : Opcode) (target other : Nat) :
    (jumpOf op target).retarget other = jumpOf op other := by
  unfold jumpOf
  split <;> rfl

theorem size_jumpOf {op : Opcode} (h : op.isJump = true) (target : Nat) :
    (jumpOf op target).size = jumpSize := by
  unfold Instruction.size
  rw [opcode_jumpOf h]
  cases op with
  | jump | jumpIfFalse => rfl
  | _ => cases h

/-- The bytes of a jump. -/
theorem bytes_of_target {i : Instruction} {t : Nat} (h : i.target? = some t) (offset : Nat) :
    i.bytes offset = i.opcode.toByte :: wordBytes (distanceWord (offset + jumpSize) t)
      ∧ i.size = jumpSize := by
  cases i with
  | jump _ | jumpIfFalse _ =>
      cases h
      exact ⟨rfl, rfl⟩
  | _ => cases h

/-- **A placeholder is a jump to its own last byte.** -/
theorem bytes_placeholder {op : Opcode} (h : op.isJump = true) (offset : Nat) :
    [op.toByte, 0xFF, 0xFF] = (jumpOf op (offset + 2)).bytes offset := by
  have hdistance : distanceWord (offset + jumpSize) (offset + 2) = 0xFFFF := by
    unfold distanceWord jumpSize
    have hback : ((offset + 2 : Nat) : Int) - ((offset + 3 : Nat) : Int) = -1 := by omega
    rw [hback]
    rfl
  rw [(bytes_of_target (target?_jumpOf op _) offset).1, opcode_jumpOf h, hdistance]
  rfl

/-! ## §3. Instructions revised in place. -/

theorem rowsFrom_append (offset : Nat) (xs ys : List Instruction) :
    rowsFrom offset (xs ++ ys)
      = rowsFrom offset xs ++ rowsFrom (offset + (encodeFrom 0 xs).length) ys := by
  induction xs generalizing offset with
  | nil => rfl
  | cons i rest ih =>
      have hsize : (encodeFrom 0 (i :: rest)).length = i.size + (encodeFrom 0 rest).length :=
        encode_cons_size i rest
      rw [List.cons_append, rowsFrom, rowsFrom, ih, hsize, Nat.add_assoc, List.cons_append]

theorem offset_lt_of_mem_rowsFrom {offset o : Nat} {i : Instruction} {xs : List Instruction}
    (h : (o, i) ∈ rowsFrom offset xs) :
    offset ≤ o ∧ o + i.size ≤ offset + (encodeFrom 0 xs).length := by
  obtain ⟨before, after, rfl, rfl⟩ := mem_rowsFrom.mp h
  have hbefore : (encode before).size = (encodeFrom 0 before).length := rfl
  rw [encodeFrom_append, List.length_append, encodeFrom, List.length_append,
    Instruction.bytes_length, hbefore]
  omega

/-- The instructions with each one revised, by its offset. -/
def revised (revise : Nat → Instruction → Instruction) (xs : List Instruction) :
    List Instruction :=
  (rowsFrom 0 xs).map fun row => revise row.1 row.2

section Revised

variable {revise : Nat → Instruction → Instruction}

/-- Revising instructions to ones of the same size leaves them where they are. -/
theorem rowsFrom_revised (hsize : ∀ o i, (revise o i).size = i.size) (xs : List Instruction) :
    rowsFrom 0 (revised revise xs) = (rowsFrom 0 xs).map fun row => (row.1, revise row.1 row.2) := by
  unfold revised
  generalize 0 = offset
  induction xs generalizing offset with
  | nil => rfl
  | cons i rest ih =>
      show (offset, revise offset i) :: rowsFrom (offset + (revise offset i).size) _ = _
      rw [hsize, ih]
      rfl

/-- The instructions that are revised to themselves stay. -/
theorem map_rowsFrom_of_same {offset : Nat} {xs : List Instruction}
    (h : ∀ o i, (o, i) ∈ rowsFrom offset xs → revise o i = i) :
    ((rowsFrom offset xs).map fun row => revise row.1 row.2) = xs := by
  rw [List.map_congr_left (g := Prod.snd) fun row hrow => h row.1 row.2 hrow]
  exact rowsFrom_instructions offset xs

theorem revised_concat (xs : List Instruction) (i : Instruction) :
    revised revise (xs ++ [i]) = revised revise xs ++ [revise (encodeFrom 0 xs).length i] := by
  unfold revised
  rw [rowsFrom_append, List.map_append, Nat.zero_add]
  rfl

theorem revised_congr {other : Nat → Instruction → Instruction} {xs : List Instruction}
    (h : ∀ o i, (o, i) ∈ rowsFrom 0 xs → revise o i = other o i) :
    revised revise xs = revised other xs :=
  List.map_congr_left fun row hrow => h row.1 row.2 hrow

theorem revised_revised {other : Nat → Instruction → Instruction}
    (hsize : ∀ o i, (revise o i).size = i.size) (xs : List Instruction) :
    revised other (revised revise xs) = revised (fun o i => other o (revise o i)) xs := by
  show (rowsFrom 0 (revised revise xs)).map _ = _
  rw [rowsFrom_revised hsize, List.map_map]
  rfl

end Revised

/-- The instruction under a label goes to another target. -/
def retargetAt (label : JumpLabel) (target : Nat) (o : Nat) (i : Instruction) : Instruction :=
  if label = ⟨o + 1⟩ then i.retarget target else i

/-- The instructions under the labels that are waiting go where these land. -/
def fillIn (waiting : List JumpLabel) (lands : JumpLabel → Nat) (o : Nat) (i : Instruction) :
    Instruction :=
  if ⟨o + 1⟩ ∈ waiting then i.retarget (lands ⟨o + 1⟩) else i

/-- A retargeted jump goes to the new target. -/
theorem Instruction.retarget_target? (target : Nat) (i : Instruction) :
    (i.retarget target).target? = i.target?.map fun _ => target := by
  cases i <;> rfl

/-- Only calls are retargeted to calls. -/
theorem Instruction.retarget_eq_call {target : Nat} {i : Instruction} {shape : CallShape}
    (h : i.retarget target = .call shape) : i = .call shape := by
  cases i with
  | jump _ | jumpIfFalse _ => cases h
  | _ => exact h

theorem size_retargetAt (label : JumpLabel) (target o : Nat) (i : Instruction) :
    (retargetAt label target o i).size = i.size := by
  unfold retargetAt
  split
  · exact i.retarget_size target
  · rfl

theorem retargetAt_of_ne {label : JumpLabel} {o : Nat} (h : label ≠ ⟨o + 1⟩) (target : Nat)
    (i : Instruction) : retargetAt label target o i = i :=
  if_neg h

/-- Where an instruction goes: to the new target under the label, and elsewhere to
its own. -/
theorem retargetAt_target? {label : JumpLabel} {target o t : Nat} {i : Instruction}
    (h : (retargetAt label target o i).target? = some t) :
    label = ⟨o + 1⟩ ∧ t = target ∨ label ≠ ⟨o + 1⟩ ∧ i.target? = some t := by
  unfold retargetAt at h
  split at h
  case isTrue hsame =>
    rw [Instruction.retarget_target?] at h
    obtain ⟨_, -, rfl⟩ := Option.map_eq_some_iff.mp h
    exact Or.inl ⟨hsame, rfl⟩
  case isFalse hne => exact Or.inr ⟨hne, h⟩

theorem retargetAt_eq_call {label : JumpLabel} {target o : Nat} {i : Instruction}
    {shape : CallShape} (h : retargetAt label target o i = .call shape) : i = .call shape := by
  unfold retargetAt at h
  split at h
  · exact Instruction.retarget_eq_call h
  · exact h

/-! ## §4. Patching is retargeting. -/

theorem putWord_append (xs ys : List UInt8) (k : Nat) (w : UInt16) :
    putWord (xs.length + k) w (xs ++ ys) = xs ++ putWord k w ys := by
  unfold putWord
  rw [List.set_append_right _ _ (Nat.le_add_right _ _), Nat.add_assoc,
    List.set_append_right _ _ (Nat.le_add_right _ _), Nat.add_sub_cancel_left,
    Nat.add_sub_cancel_left]

/-- A word put into the operand of a jump retargets it. -/
theorem putWord_jump {i : Instruction} {t : Nat} (hjump : i.target? = some t) (target offset : Nat)
    (rest : List UInt8) :
    putWord 1 (distanceWord (offset + jumpSize) target) (i.bytes offset ++ rest)
      = (i.retarget target).bytes offset ++ rest := by
  cases i with
  | jump _ | jumpIfFalse _ => rfl
  | _ => cases hjump

/-- **A label that is patched retargets the jump under it.** -/
theorem encodeFrom_retargetAt {o t : Nat} {i : Instruction} {xs : List Instruction}
    (hmem : (o, i) ∈ rowsFrom 0 xs) (hjump : i.target? = some t) (target : Nat) :
    encodeFrom 0 (revised (retargetAt ⟨o + 1⟩ target) xs)
      = putWord (o + 1) (distanceWord (o + 1 + 2) target) (encodeFrom 0 xs) := by
  obtain ⟨before, after, rfl, hoffset⟩ := mem_rowsFrom.mp hmem
  have hlength : o = (encodeFrom 0 before).length := by
    rw [hoffset, Nat.zero_add]
    rfl
  have hother : ∀ o' j, o' ≠ o → retargetAt ⟨o + 1⟩ target o' j = j := by
    intro o' j hne
    exact retargetAt_of_ne (fun heq => hne (by injection heq; omega)) target j
  -- no other row has the label, since all begin elsewhere
  have hbefore : ((rowsFrom 0 before).map fun row => retargetAt ⟨o + 1⟩ target row.1 row.2)
      = before := by
    refine map_rowsFrom_of_same fun o' j hrow => hother o' j ?_
    have hpos := j.size_pos
    have hrange := offset_lt_of_mem_rowsFrom hrow
    omega
  have hafter : ((rowsFrom (o + i.size) after).map fun row =>
      retargetAt ⟨o + 1⟩ target row.1 row.2) = after := by
    refine map_rowsFrom_of_same fun o' j hrow => hother o' j ?_
    have hpos := i.size_pos
    have hrange := offset_lt_of_mem_rowsFrom hrow
    omega
  have hrevised : revised (retargetAt ⟨o + 1⟩ target) (before ++ i :: after)
      = before ++ i.retarget target :: after := by
    unfold revised
    rw [rowsFrom_append, Nat.zero_add, ← hlength, List.map_append, hbefore, rowsFrom, List.map_cons,
      hafter]
    show before ++ retargetAt ⟨o + 1⟩ target o i :: after = _
    rw [retargetAt, if_pos rfl]
  rw [hrevised, encodeFrom_append, encodeFrom_append, Nat.zero_add, ← hlength, encodeFrom, encodeFrom,
    i.retarget_size, ← putWord_jump hjump, hlength]
  exact (putWord_append _ _ 1 _).symm

/-! ## §5. Code in the making. -/

/-- **Code in the making is the encoding of a draft,** whose open jumps go
nowhere in particular.  Every other jump goes to an instruction of the draft,
or to its end if an instruction follows. -/
structure Drafted (begun : List Nat) (waiting : List JumpLabel) (later : List CodeChange)
    (code : List UInt8) (draft : List Instruction) : Prop where
  encoded : encodeFrom 0 draft = code
  begins : (rowsFrom 0 draft).map Prod.fst = begun
  nodup : waiting.Nodup
  isOpen : ∀ label ∈ waiting, ∃ o i t,
    (o, i) ∈ rowsFrom 0 draft ∧ i.target? = some t ∧ label = ⟨o + 1⟩
  lands : ∀ o i t, (o, i) ∈ rowsFrom 0 draft → i.target? = some t →
    ⟨o + 1⟩ ∈ waiting ∨ t ∈ begun ∨ t = code.length ∧ ∃ c ∈ later, c.emits = true
  spreads : ∀ shape, .call shape ∈ draft → shape.IsWritten

/-- What a draft becomes in the end: its open jumps go where their labels are
patched, and the instructions that are emitted later follow. -/
def finished (waiting : List JumpLabel) (offset : Nat) (later : List CodeChange)
    (draft : List Instruction) : List Instruction :=
  revised (fillIn waiting fun label => landing label offset later) draft ++ emitted offset later

theorem rowsFrom_concat (xs : List Instruction) (i : Instruction) :
    rowsFrom 0 (xs ++ [i]) = rowsFrom 0 xs ++ [((encodeFrom 0 xs).length, i)] := by
  rw [rowsFrom_append, Nat.zero_add]
  rfl

theorem encodeFrom_concat (xs : List Instruction) (i : Instruction) :
    encodeFrom 0 (xs ++ [i]) = encodeFrom 0 xs ++ i.bytes (encodeFrom 0 xs).length := by
  rw [encodeFrom_append, Nat.zero_add, encodeFrom, encodeFrom, List.append_nil]

theorem landing_cons_of_ne {label : JumpLabel} {change : CodeChange}
    (h : change ≠ .patches label) (offset : Nat) (later : List CodeChange) :
    landing label offset (change :: later) = landing label (offset + change.size) later :=
  if_neg h

/-- A new draft is empty. -/
theorem drafted_nil (later : List CodeChange) : Drafted [] [] later [] [] :=
  ⟨rfl, rfl, List.nodup_nil, by simp, by simp [rowsFrom], by simp⟩

namespace Drafted

variable {begun : List Nat} {waiting : List JumpLabel} {later : List CodeChange}
  {code : List UInt8} {draft : List Instruction}

/-- A row of a draft is one that stands before the end of the code. -/
theorem lt_length {change : List CodeChange} (h : Drafted begun waiting change code draft)
    {o : Nat} {i : Instruction} (hrow : (o, i) ∈ rowsFrom 0 draft) : o < code.length := by
  have hrange := offset_lt_of_mem_rowsFrom hrow
  have hpos := i.size_pos
  rw [h.encoded] at hrange
  omega

/-- No open label belongs to the end of the code. -/
theorem not_mem_waiting (h : Drafted begun waiting later code draft) :
    ⟨code.length + 1⟩ ∉ waiting := by
  intro hmem
  obtain ⟨o, i, t, hrow, -, heq⟩ := h.isOpen _ hmem
  have hlt := h.lt_length hrow
  injection heq
  omega

/-- A change that emits nothing is done with as soon as its own lines are. -/
theorem passes {change : CodeChange} (h : Drafted begun waiting (change :: later) code draft)
    (hsilent : change.emits = false) : Drafted begun waiting later code draft := by
  refine { h with lands := fun o i t hrow ht => ?_ }
  rcases h.lands o i t hrow ht with hwaits | hbegun | ⟨hend, c, hc, hemits⟩
  · exact Or.inl hwaits
  · exact Or.inr (Or.inl hbegun)
  · refine Or.inr (Or.inr ⟨hend, c, ?_, hemits⟩)
    rcases List.mem_cons.mp hc with rfl | hc
    · rw [hsilent] at hemits
      cases hemits
    · exact hc

/-- **Another instruction at the end,** which may be open.  What went to the end
now goes to this instruction. -/
theorem concat {change : CodeChange} (h : Drafted begun waiting (change :: later) code draft)
    {i : Instruction} {opened : List JumpLabel}
    (hopened : opened = [] ∨ opened = [⟨code.length + 1⟩] ∧ ∃ t, i.target? = some t)
    (hlands : ∀ t, i.target? = some t → ⟨code.length + 1⟩ ∈ opened ∨ t ∈ begun)
    (hshape : ∀ shape, i = .call shape → shape.IsWritten) :
    Drafted (begun ++ [code.length]) (waiting ++ opened) later (code ++ i.bytes code.length)
      (draft ++ [i]) where
  encoded := by rw [encodeFrom_concat, h.encoded]
  begins := by rw [rowsFrom_concat, List.map_append, h.begins, h.encoded]; rfl
  nodup := by
    rcases hopened with rfl | ⟨rfl, -⟩
    · rw [List.append_nil]
      exact h.nodup
    · exact List.nodup_append.mpr ⟨h.nodup, List.pairwise_singleton _ _,
        fun a ha b hb hab => h.not_mem_waiting (List.mem_singleton.mp hb ▸ hab ▸ ha)⟩
  isOpen := by
    intro label hmem
    rw [rowsFrom_concat, h.encoded]
    rcases List.mem_append.mp hmem with hold | hnew
    · obtain ⟨o, j, t, hrow, ht, heq⟩ := h.isOpen label hold
      exact ⟨o, j, t, List.mem_append_left _ hrow, ht, heq⟩
    · -- only a jump opens a label, and its own
      rcases hopened with rfl | ⟨rfl, t, ht⟩
      · cases hnew
      · exact ⟨_, i, t, List.mem_append_right _ (List.mem_singleton_self _), ht,
          List.mem_singleton.mp hnew⟩
  lands := by
    intro o j t hrow ht
    rw [rowsFrom_concat, h.encoded] at hrow
    rcases List.mem_append.mp hrow with hold | hnew
    · -- the end of the code, where a jump may have landed, is now the new instruction
      rcases h.lands o j t hold ht with hwaits | hbegun | ⟨rfl, -⟩
      · exact Or.inl (List.mem_append_left _ hwaits)
      · exact Or.inr (Or.inl (List.mem_append_left _ hbegun))
      · exact Or.inr (Or.inl (List.mem_append_right _ (List.mem_singleton_self _)))
    · cases List.mem_singleton.mp hnew
      rcases hlands t ht with hopen | hbegun
      · exact Or.inl (List.mem_append_right _ hopen)
      · exact Or.inr (Or.inl (List.mem_append_left _ hbegun))
  spreads := by
    intro shape hmem
    rcases List.mem_append.mp hmem with hold | hnew
    · exact h.spreads shape hold
    · exact hshape shape (List.mem_singleton.mp hnew).symm

/-- **A label is patched.**  Its jump goes to the end of the code, where an
instruction follows. -/
theorem patch {label : JumpLabel} (h : Drafted begun waiting (.patches label :: later) code draft)
    (hwaiting : label ∈ waiting) (hfollows : ∃ c ∈ later, c.emits = true) :
    Drafted begun (waiting.erase label) later (CodeChange.apply code (.patches label))
      (revised (retargetAt label code.length) draft) := by
  -- the jump that waits under the label is the one that is overwritten
  obtain ⟨o, i, t, hrow, hjump, rfl⟩ := h.isOpen label hwaiting
  have hrows := rowsFrom_revised (size_retargetAt ⟨o + 1⟩ code.length) draft
  have hlength : (CodeChange.apply code (.patches ⟨o + 1⟩)).length = code.length :=
    CodeChange.length_apply code _
  refine
    { encoded := ?encoded
      begins := ?begins
      nodup := h.nodup.erase _
      isOpen := ?isOpen
      lands := ?lands
      spreads := ?spreads }
  case encoded =>
    rw [encodeFrom_retargetAt hrow hjump, h.encoded]
    rfl
  case begins =>
    rw [hrows, List.map_map]
    exact h.begins
  case isOpen =>
    intro other hmem
    obtain ⟨hne, hmem⟩ := (h.nodup.mem_erase_iff).mp hmem
    obtain ⟨o', j, t', hrow', hjump', rfl⟩ := h.isOpen other hmem
    refine ⟨o', j, t', ?_, hjump', rfl⟩
    rw [hrows]
    exact List.mem_map.mpr ⟨(o', j), hrow', Prod.ext rfl (retargetAt_of_ne hne.symm _ j)⟩
  case lands =>
    intro o' j' t' hrow' ht'
    rw [hrows] at hrow'
    obtain ⟨⟨o₀, j⟩, hold, heq⟩ := List.mem_map.mp hrow'
    cases heq
    rw [hlength]
    rcases retargetAt_target? ht' with ⟨-, rfl⟩ | ⟨hne, ht'⟩
    · exact Or.inr (Or.inr ⟨rfl, hfollows⟩)
    · rcases h.lands o₀ j t' hold ht' with hwaits | hbegun | ⟨hend, -⟩
      · exact Or.inl ((List.mem_erase_of_ne hne.symm).mpr hwaits)
      · exact Or.inr (Or.inl hbegun)
      · exact Or.inr (Or.inr ⟨hend, hfollows⟩)
  case spreads =>
    intro shape hmem
    obtain ⟨⟨o', j⟩, hold, heq⟩ := List.mem_map.mp hmem
    refine h.spreads shape ?_
    rw [← retargetAt_eq_call heq, ← rowsFrom_instructions 0 draft]
    exact List.mem_map_of_mem hold

end Drafted

/-! ## §6. What is written in the end. -/

/-- With no label open a draft is finished. -/
theorem finished_nil (offset : Nat) (draft : List Instruction) :
    finished [] offset [] draft = draft := by
  show revised _ draft ++ [] = draft
  rw [List.append_nil]
  exact map_rowsFrom_of_same fun o i _ => if_neg List.not_mem_nil

namespace Drafted

variable {begun : List Nat} {waiting : List JumpLabel} {later : List CodeChange}
  {code : List UInt8} {draft : List Instruction}

/-- An instruction that is not open stays as it is. -/
theorem finished_writes {i : Instruction}
    (h : Drafted begun waiting (.writes i :: later) code draft) :
    finished waiting code.length (.writes i :: later) draft
      = finished waiting (code.length + i.size) later (draft ++ [i]) := by
  have hclosed : ∀ lands, fillIn waiting lands code.length i = i :=
    fun _ => if_neg h.not_mem_waiting
  have hlands : (fun label => landing label code.length (.writes i :: later))
      = fun label => landing label (code.length + i.size) later :=
    funext fun label => landing_cons_of_ne (CodeChange.noConfusion) _ _
  unfold finished
  rw [hlands, revised_concat, h.encoded, hclosed, List.append_assoc, emitted]
  rfl

/-- An open jump goes where its label is patched. -/
theorem finished_opens {op : Opcode} (h : Drafted begun waiting (.opens op :: later) code draft)
    (target : Nat) :
    finished waiting code.length (.opens op :: later) draft
      = finished (waiting ++ [⟨code.length + 1⟩]) (code.length + jumpSize) later
        (draft ++ [jumpOf op target]) := by
  have hopen : ∀ lands, fillIn (waiting ++ [⟨code.length + 1⟩]) lands code.length (jumpOf op target)
      = jumpOf op (lands ⟨code.length + 1⟩) := by
    intro lands
    rw [fillIn, if_pos (List.mem_append_right _ (List.mem_singleton_self _)), retarget_jumpOf]
  -- the other jumps stand before this one, under other labels
  have hothers : revised (fillIn waiting fun label => landing label code.length (.opens op :: later))
        draft
      = revised (fillIn (waiting ++ [⟨code.length + 1⟩])
          fun label => landing label (code.length + jumpSize) later) draft := by
    refine revised_congr fun o i hrow => ?_
    have hlt := h.lt_length hrow
    have hne : (⟨o + 1⟩ : JumpLabel) ∉ [⟨code.length + 1⟩] := by
      intro hmem
      injection List.mem_singleton.mp hmem
      omega
    unfold fillIn
    simp only [List.mem_append, hne, or_false]
    rfl
  unfold finished
  rw [revised_concat, h.encoded, hopen, hothers, List.append_assoc, emitted]
  rfl

/-- A label that is patched lands at the end of the code. -/
theorem finished_patches {label : JumpLabel}
    (h : Drafted begun waiting (.patches label :: later) code draft) (hwaiting : label ∈ waiting) :
    finished waiting code.length (.patches label :: later) draft
      = finished (waiting.erase label) code.length later
        (revised (retargetAt label code.length) draft) := by
  unfold finished
  rw [revised_revised (size_retargetAt label code.length)]
  congr 1
  refine revised_congr fun o i _ => ?_
  unfold fillIn retargetAt
  dsimp only
  by_cases hsame : label = ⟨o + 1⟩
  · subst hsame
    have hhere : landing ⟨o + 1⟩ code.length (.patches ⟨o + 1⟩ :: later) = code.length := if_pos rfl
    rw [if_pos hwaiting, hhere, if_neg h.nodup.not_mem_erase, if_pos rfl]
  · have hne : CodeChange.patches label ≠ .patches ⟨o + 1⟩ :=
      fun heq => hsame (CodeChange.patches.inj heq)
    rw [if_neg hsame, landing_cons_of_ne hne]
    simp only [List.mem_erase_of_ne (Ne.symm hsame)]
    rfl

end Drafted

/-- **What an orderly builder writes.**  The code in the end is the encoding of the
finished draft, in which every jump goes to an instruction. -/
theorem InOrder.assembles {begun : List Nat} {waiting : List JumpLabel} {offset : Nat}
    {later : List CodeChange} (h : InOrder begun waiting offset later) {code : List UInt8}
    {draft : List Instruction} (hdraft : Drafted begun waiting later code draft)
    (hoffset : code.length = offset) :
    later.foldl CodeChange.apply code = encodeFrom 0 (finished waiting offset later draft)
      ∧ (∀ i ∈ finished waiting offset later draft, ∀ target, i.target? = some target →
          Begins (finished waiting offset later draft) target)
      ∧ ∀ shape, .call shape ∈ finished waiting offset later draft → shape.IsWritten := by
  -- on the changes that are left; the draft grows along, and stays what the code encodes
  induction h generalizing code draft with
  | done =>
      rw [finished_nil]
      refine ⟨hdraft.encoded.symm, ?_, hdraft.spreads⟩
      intro i hi target ht
      rw [← rowsFrom_instructions 0 draft] at hi
      obtain ⟨⟨o, _⟩, hrow, rfl⟩ := List.mem_map.mp hi
      rcases hdraft.lands o _ target hrow ht with hwaits | hbegun | ⟨-, c, hc, -⟩
      · cases hwaits
      · rw [← hdraft.begins] at hbegun
        obtain ⟨⟨_, j⟩, hrow', rfl⟩ := List.mem_map.mp hbegun
        exact begins_iff.mpr ⟨j, hrow'⟩
      · cases hc
  | keeps _ ih => exact ih (hdraft.passes rfl) hoffset
  | @writes _ _ _ _ i hshape hback _ ih =>
      subst hoffset
      have hnext := hdraft.concat (i := i) (Or.inl rfl) (fun t ht => Or.inr (hback t ht)) hshape
      rw [List.append_nil] at hnext
      rw [hdraft.finished_writes]
      exact ih hnext (CodeChange.length_apply code _)
  | @opens _ _ _ _ op hop _ ih =>
      subst hoffset
      have hjump := target?_jumpOf op (code.length + 2)
      -- the placeholder is taken for the jump that its bytes encode
      have hnext := hdraft.concat (i := jumpOf op (code.length + 2)) (Or.inr ⟨rfl, _, hjump⟩)
        (fun _ _ => Or.inl (List.mem_singleton_self _))
        (fun shape heq => by rw [heq] at hjump; cases hjump)
      rw [← bytes_placeholder hop] at hnext
      rw [hdraft.finished_opens (code.length + 2)]
      exact ih hnext (CodeChange.length_apply code _)
  | patches hwaiting hfollows _ ih =>
      subst hoffset
      rw [hdraft.finished_patches hwaiting]
      exact ih (hdraft.patch hwaiting hfollows) (CodeChange.length_apply code _)

end CallDecoration
