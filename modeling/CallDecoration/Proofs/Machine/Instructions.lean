/-
  CallDecoration.Proofs.Machine.Instructions
  ──────────────────────────────────────
  **What one instruction does, as a function of its operands.**  An
  instruction other than a call and a return takes a fixed number of values
  from the stack, and what it then does is told by three functions of those
  values, the running frame and the world: the values it pushes
  (`Instruction.results`), the frame it leaves (`Instruction.frameAfter`) and
  the world it leaves (`Instruction.worldAfter`).  None of them looks below
  the operands.  The four lemmas of §3 are all that other modules use of
  `Machine.execute` for these instructions.
-/
import CallDecoration.Proofs.Machine.Operations
import Mathlib.Data.List.Basic

namespace CallDecoration

/-! ## §1. Operands. -/

namespace Instruction

/-- How many values an instruction needs on the stack. -/
def operands : Instruction → Nat
  | pop | dup | storeLocal _ | storeGlobal _ | unpackSequence _ | not | jumpIfFalse _
  | .return => 1
  | swap | add | sub | mul | lt | eq => 2
  | rot3 => 3
  | buildTuple n => n.toNat
  | buildDict n => 2 * n.toNat
  | call shape => shape.slots + 1
  | _ => 0

/-- Whether an instruction neither calls nor returns. -/
def isPlain : Instruction → Bool
  | call _ | .return => false
  | _ => true

/-- The kinds of instructions. -/
theorem isPlain_or (i : Instruction) :
    i.isPlain = true ∨ i = .return ∨ ∃ shape, i = .call shape := by
  cases i with
  | «return» => exact Or.inr (Or.inl rfl)
  | call shape => exact Or.inr (Or.inr ⟨shape, rfl⟩)
  | _ => exact Or.inl rfl

/-- Whether an instruction applies an operator, which takes its operands one
by one. -/
def isOperator : Instruction → Bool
  | add | sub | mul | lt | eq => true
  | _ => false

/-- Whether an instruction puts its operands back in another order, for which
it needs no further room. -/
def rearranges : Instruction → Bool
  | swap | rot3 => true
  | _ => false

/-- Whether an instruction takes its operands, pushes what it makes of them and
does nothing else. -/
def computes : Instruction → Bool
  | pushNil | pushTrue | pushFalse | pushSmall _ | pushConstant _ | loadLocal _ | loadGlobal _
  | loadCapture _ | buildTuple _ | buildDict _ | unpackSequence _ | add | sub | mul | lt | eq
  | not => true
  | _ => false

/-! ## §2. Effects. -/

/-- An indexed table entry as a result. -/
def entryOr (entry : Option Value) (e : RunError) : Except RunError (List Value) :=
  match entry with
  | some value => .ok [value]
  | none => .error e

/-- The result of a binary operator, whose second operand is on top. -/
def binary (op : BinaryOp) : List Value → Except RunError (List Value)
  | [b, a] => (op.apply a b).map fun value => [value]
  | _ => .error .stackUnderflow

/-- The global of a frame's body at an index of its name table. -/
def globalOf (f : Frame) {σ : Type} (w : World σ) (index : UInt16) :
    Except RunError (List Value) :=
  match f.function.body.names[index.toNat]? with
  | some name => entryOr (w.lookup f.function.scope.id name) (.unboundGlobal name)
  | none => .error (.invalidName index)

/-- The items of a tuple that is to be unpacked, the last one on top. -/
def unpacked (count : UInt8) : List Value → Except RunError (List Value)
  | [.tuple items] =>
      if items.length = count.toNat then .ok items.reverse
      else
        .error (.raised ("cannot unpack " ++ Text.decimal items.length ++ " values into "
          ++ Text.decimal count.toNat))
  | [other] => .error (.typeMismatch [.tuple] other.kind)
  | _ => .error .stackUnderflow

/-- **The values that an instruction pushes,** top first, from its operands,
top first.  Operands that are not as many as the instruction needs count as
missing. -/
def results {σ : Type} (i : Instruction) (f : Frame) (w : World σ) (ops : List Value) :
    Except RunError (List Value) :=
  match i with
  | dup => match ops with
      | [x] => .ok [x, x]
      | _ => .error .stackUnderflow
  | swap => match ops with
      | [x, y] => .ok [y, x]
      | _ => .error .stackUnderflow
  | rot3 => match ops with
      | [x, y, z] => .ok [y, z, x]
      | _ => .error .stackUnderflow
  | pushNil => .ok [.nil]
  | pushTrue => .ok [.bool true]
  | pushFalse => .ok [.bool false]
  | pushSmall n => .ok [.int n.toInt64]
  | pushConstant index => entryOr f.function.body.constants[index.toNat]? (.invalidConstant index)
  | loadLocal slot => entryOr f.locals[slot.toNat]? (.invalidLocal slot)
  | storeLocal slot => if slot.toNat < f.locals.size then .ok [] else .error (.invalidLocal slot)
  | loadGlobal index => globalOf f w index
  | storeGlobal index =>
      if (f.function.body.names[index.toNat]?).isSome then .ok [] else .error (.invalidName index)
  | loadCapture index =>
      entryOr (f.function.captures[index.toNat]?.map Capture.value) (.invalidCapture index)
  | buildTuple _ => .ok [.tuple ops.reverse]
  | buildDict _ => (Machine.entriesOf [] ops.reverse).map fun entries => [.dict entries]
  | unpackSequence count => unpacked count ops
  | add => binary .add ops
  | sub => binary .sub ops
  | mul => binary .mul ops
  | lt => binary .lt ops
  | eq => binary .eq ops
  | not => match ops with
      | [x] => .ok [.bool !x.isTruthy]
      | _ => .error .stackUnderflow
  | _ => .ok []

/-- **The running frame after an instruction.** -/
def frameAfter (i : Instruction) (f : Frame) (ops : List Value) : Frame :=
  match i, ops with
  | storeLocal slot, [x] => { f with locals := f.locals.setIfInBounds slot.toNat x }
  | jump target, _ => { f with ip := target }
  | jumpIfFalse target, [x] => if x.isTruthy then f else { f with ip := target }
  | _, _ => f

/-- **The world after an instruction.** -/
def worldAfter {σ : Type} (i : Instruction) (f : Frame) (w : World σ) (ops : List Value) :
    World σ :=
  match i, ops with
  | storeGlobal index, [x] =>
      match f.function.body.names[index.toNat]? with
      | some name => w.bind f.function.scope.id name x
      | none => w
  | _, _ => w

@[simp] theorem frameAfter_base (i : Instruction) (f : Frame) (ops : List Value) :
    (i.frameAfter f ops).base = f.base := by
  unfold frameAfter
  split <;> first | rfl | (split <;> rfl)

@[simp] theorem frameAfter_function (i : Instruction) (f : Frame) (ops : List Value) :
    (i.frameAfter f ops).function = f.function := by
  unfold frameAfter
  split <;> first | rfl | (split <;> rfl)

/-- A frame goes on where it stands, or at the target of a jump. -/
theorem frameAfter_ip (i : Instruction) (f : Frame) (ops : List Value) :
    (i.frameAfter f ops).ip = f.ip ∨ i.target? = some (i.frameAfter f ops).ip := by
  unfold frameAfter
  split
  · exact Or.inl rfl
  · exact Or.inr rfl
  · split
    · exact Or.inl rfl
    · exact Or.inr rfl
  · exact Or.inl rfl

theorem target?_retarget {i : Instruction} {t : Nat} (h : i.target? = some t) (t' : Nat) :
    (i.retarget t').target? = some t' := by
  cases i with
  | jump | jumpIfFalse => rfl
  | _ => cases h

theorem frameAfter_of_computes {i : Instruction} (hi : i.computes = true) (f : Frame)
    (ops : List Value) : i.frameAfter f ops = f := by
  cases i with
  | storeLocal _ | jump _ | jumpIfFalse _ => cases hi
  | _ => rfl

theorem worldAfter_of_computes {σ : Type} {i : Instruction} (hi : i.computes = true) (f : Frame)
    (w : World σ) (ops : List Value) : i.worldAfter f w ops = w := by
  cases i with
  | storeGlobal _ => cases hi
  | _ => rfl

/-- What an instruction pushes does not depend on where it stands. -/
theorem results_ip {σ : Type} {i : Instruction} {f : Frame} {w : World σ} (n : Nat)
    (ops : List Value) : i.results { f with ip := n } w ops = i.results f w ops := by
  cases i <;> rfl

theorem worldAfter_ip {σ : Type} {i : Instruction} {f : Frame} {w : World σ} (n : Nat)
    (ops : List Value) : i.worldAfter { f with ip := n } w ops = i.worldAfter f w ops := by
  cases i <;> rfl

section Congruence

variable {σ : Type} {f f' : Frame} {w w' : World σ}

/-- What an instruction pushes depends on the tables, the scope and the locals
of its frame, and on the bindings of the world. -/
theorem results_congr {i : Instruction} (ops : List Value)
    (hconstants : f'.function.body.constants = f.function.body.constants)
    (hnames : f'.function.body.names = f.function.body.names)
    (hscope : f'.function.scope = f.function.scope) (hlocals : f'.locals = f.locals)
    (hscopes : w'.scopes = w.scopes)
    (hcapture : ∀ index, i = .loadCapture index →
      f'.function.captures[index.toNat]? = f.function.captures[index.toNat]?) :
    i.results f' w' ops = i.results f w ops := by
  have hlookup : ∀ scope name, w'.lookup scope name = w.lookup scope name := by
    intro scope name
    unfold World.lookup World.bindings
    rw [hscopes]
  cases i with
  | pushConstant index =>
      dsimp only [results]
      rw [hconstants]
  | loadLocal slot | storeLocal slot =>
      dsimp only [results]
      rw [hlocals]
  | loadGlobal index =>
      dsimp only [results, globalOf]
      simp only [hnames, hscope, hlookup]
  | storeGlobal index =>
      dsimp only [results]
      rw [hnames]
  | loadCapture index =>
      dsimp only [results]
      rw [hcapture index rfl]
  | _ => rfl

/-- What an instruction binds depends on the names and the scope of its
frame. -/
theorem worldAfter_congr {i : Instruction} (ops : List Value)
    (hnames : f'.function.body.names = f.function.body.names)
    (hscope : f'.function.scope = f.function.scope) (hscopes : w'.scopes = w.scopes) :
    (i.worldAfter f' w' ops).scopes = (i.worldAfter f w ops).scopes := by
  unfold worldAfter
  split
  · rw [hnames, hscope]
    split
    · show Dict.set w'.scopes _ (Dict.set ((Dict.get? w'.scopes _).getD []) _ _)
        = Dict.set w.scopes _ (Dict.set ((Dict.get? w.scopes _).getD []) _ _)
      rw [hscopes]
    · exact hscopes
  · exact hscopes

end Congruence

/-- **The same instruction, but for where it jumps:** it takes as many operands,
puts back the same and binds the same. -/
structure SameButTarget (i i' : Instruction) : Prop where
  isPlain : i'.isPlain = i.isPlain
  operands : i'.operands = i.operands
  rearranges : i'.rearranges = i.rearranges
  results : ∀ {σ : Type} (f : Frame) (w : World σ) (ops : List Value),
    i'.results f w ops = i.results f w ops
  worldAfter : ∀ {σ : Type} (f : Frame) (w : World σ) (ops : List Value),
    i'.worldAfter f w ops = i.worldAfter f w ops

theorem SameButTarget.refl (i : Instruction) : i.SameButTarget i :=
  ⟨rfl, rfl, rfl, fun _ _ _ => rfl, fun _ _ _ => rfl⟩

/-- Redirecting a jump changes only where it leads. -/
theorem SameButTarget.retarget (i : Instruction) (t : Nat) : i.SameButTarget (i.retarget t) := by
  cases i <;> exact ⟨rfl, rfl, rfl, fun _ _ _ => rfl, fun _ _ _ => rfl⟩

/-- Whether there is room for what an instruction pushes above `rest`. -/
def Fits (i : Instruction) (st : Settings) (rest out : List Value) : Prop :=
  out = [] ∨ i.rearranges = true ∨ rest.length + out.length ≤ st.maxValueStack

instance (i : Instruction) (st : Settings) (rest out : List Value) :
    Decidable (i.Fits st rest out) :=
  inferInstanceAs (Decidable (_ ∨ _ ∨ _))

/-- A rearrangement puts back as many values as it takes. -/
theorem length_of_rearranges {σ : Type} {i : Instruction} {f : Frame} {w : World σ}
    {ops out : List Value} (hi : i.rearranges = true) (hops : ops.length = i.operands)
    (hr : i.results f w ops = .ok out) : out.length = ops.length := by
  cases i with
  | swap =>
      obtain ⟨x, y, rfl⟩ := List.length_eq_two.mp hops
      cases hr
      rfl
  | rot3 =>
      obtain ⟨x, y, z, rfl⟩ := List.length_eq_three.mp hops
      cases hr
      rfl
  | _ => cases hi

/-- What an instruction computes needs room for all of it. -/
theorem fits_of_computes {i : Instruction} (hi : i.computes = true) {st : Settings}
    {rest out : List Value} :
    i.Fits st rest out ↔ out = [] ∨ rest.length + out.length ≤ st.maxValueStack := by
  have hrearr : i.rearranges = false := by
    cases i with
    | swap | rot3 => cases hi
    | _ => rfl
  unfold Fits
  rw [hrearr]
  simp

/-- The stack stays within the limit, or as high as it was. -/
theorem height_le_of_fits {σ : Type} {i : Instruction} {f : Frame} {w : World σ}
    {ops rest out : List Value} {st : Settings} (hops : ops.length = i.operands)
    (hr : i.results f w ops = .ok out) (hfits : i.Fits st rest out) :
    (out ++ rest).length ≤ max (ops ++ rest).length st.maxValueStack := by
  rw [List.length_append, List.length_append]
  rcases hfits with rfl | hrearr | hle
  · rw [List.length_nil]
    omega
  · rw [length_of_rearranges hrearr hops hr]
    omega
  · omega

end Instruction

/-- The function that a call of a value enters, with the arguments it gets:
none if the value is not run by bytecode. -/
def Value.entered? (callee : Value) (args : CallArgs) : Option (Function Value × CallArgs) :=
  match callee with
  | .function g => some (g, args)
  | .method m => some (m.function, args.withReceiver m.receiver)
  | _ => none

/-! ## §3. Execution. -/

namespace Machine

variable {σ : Type} {f : Frame} {fs : List Frame} {st : Settings} {w : World σ}
  {rest out : List Value} {e : RunError}

/-! ### Parts. -/

/-- Pushes what an instruction has come to, which is given top first, or fails. -/
def pushResults (r : Except RunError (List Value)) : Exec σ Unit := do
  pushAll (← ofExcept r).reverse

theorem pushResults_ok (hroom : out = [] ∨ rest.length + out.length ≤ st.maxValueStack) :
    pushResults (.ok out) (of rest fs st w) = (.ok (), of (out ++ rest) fs st w) := by
  have hpush : pushAll out.reverse (of rest fs st w)
      = (.ok (), of (out.reverse.reverse ++ rest) fs st w) := pushAll_of (by simpa using hroom)
  rw [List.reverse_reverse] at hpush
  exact hpush

/-- Without room for all the values, those for which there is room stay on the
stack. -/
theorem pushResults_full (hne : out ≠ []) (hroom : ¬ rest.length + out.length ≤ st.maxValueStack) :
    pushResults (.ok out) (of rest fs st w)
      = (.error .valueStackOverflow,
          of ((out.reverse.take (st.maxValueStack - rest.length)).reverse ++ rest) fs st w) :=
  pushAll_full (by simpa using hne) (by simpa using hroom)

theorem pushResults_error : pushResults (.error e) (of rest fs st w) = (.error e, of rest fs st w) :=
  rfl

theorem push_eq (v : Value) (m : Machine σ) : push v m = pushResults (.ok [v]) m := by
  show push v m = (push v >>= fun _ => pure () : Exec σ Unit) m
  rw [bind_pure_unit]

/-- Pushes an entry of a table, or fails. -/
def pushOr (entry : Option Value) (e : RunError) : Exec σ Unit :=
  match entry with
  | some value => push value
  | none => throw e

theorem pushOr_eq (entry : Option Value) (e : RunError) (m : Machine σ) :
    pushOr entry e m = pushResults (Instruction.entryOr entry e) m := by
  cases entry with
  | none => rfl
  | some value => exact push_eq value m

theorem loadCapture_eq (index : UInt16) :
    loadCapture index (of rest (f :: fs) st w)
      = pushOr (f.function.captures[index.toNat]?.map Capture.value) (.invalidCapture index)
          (of rest (f :: fs) st w) := by
  refine (bind_ok frame_of).trans ?_
  cases f.function.captures[index.toNat]? <;> rfl

theorem nameAt_of {index : UInt16} {name : String}
    (h : f.function.body.names[index.toNat]? = some name) :
    nameAt index (of rest (f :: fs) st w) = (.ok name, of rest (f :: fs) st w) := by
  show (match f.function.body.names[index.toNat]? with
    | some name => _
    | none => _ : Exec σ String) _ = _
  rw [h]
  rfl

theorem nameAt_missing {index : UInt16} (h : f.function.body.names[index.toNat]? = none) :
    nameAt index (of rest (f :: fs) st w)
      = (.error (.invalidName index), of rest (f :: fs) st w) := by
  show (match f.function.body.names[index.toNat]? with
    | some name => _
    | none => _ : Exec σ String) _ = _
  rw [h]
  rfl

theorem loadGlobal_eq (index : UInt16) :
    loadGlobal index (of rest (f :: fs) st w)
      = pushResults (Instruction.globalOf f w index) (of rest (f :: fs) st w) := by
  unfold Instruction.globalOf
  cases hname : f.function.body.names[index.toNat]? with
  | none => exact bind_error (nameAt_missing hname)
  | some name => exact (bind_ok (nameAt_of hname)).trans (pushOr_eq _ _ _)

theorem unpackSequence_eq (count : UInt8) (x : Value) :
    unpackSequence count (of (x :: rest) (f :: fs) st w)
      = pushResults (Instruction.unpacked count [x]) (of rest (f :: fs) st w) := by
  refine (bind_ok pop_of).trans ?_
  cases x with
  | tuple items =>
      show (if items.length = count.toNat then pushAll items else _ : Exec σ Unit) _
        = pushResults (if items.length = count.toNat then .ok items.reverse else .error _) _
      by_cases hcount : items.length = count.toNat
      · rw [if_pos hcount, if_pos hcount]
        show pushAll items _ = pushAll items.reverse.reverse _
        rw [List.reverse_reverse]
      · rw [if_neg hcount, if_neg hcount]
        rfl
  | _ => rfl

theorem operate_eq (op : BinaryOp) {ops : List Value} (hops : ops.length = 2) :
    operate op (of (ops ++ rest) (f :: fs) st w)
      = pushResults (Instruction.binary op ops) (of rest (f :: fs) st w) := by
  obtain ⟨b, a, rfl⟩ := List.length_eq_two.mp hops
  show (ofExcept (op.apply a b) >>= push : Exec σ Unit) (of rest (f :: fs) st w)
    = pushResults ((op.apply a b).map fun value => [value]) (of rest (f :: fs) st w)
  cases op.apply a b with
  | error e => rfl
  | ok value => exact push_eq value _

/-! ### One instruction. -/

/-- **An instruction that computes** takes its operands, pushes what it makes of
them and goes on. -/
theorem execute_computes {i : Instruction} {ops : List Value} (hi : i.computes = true)
    (hops : ops.length = i.operands) :
    execute i (of (ops ++ rest) (f :: fs) st w)
      = andAdvance (pushResults (i.results f w ops)) (of rest (f :: fs) st w) := by
  -- each case takes its operands off, which leaves to push what `results` says
  cases i with
  | pushNil | pushTrue | pushFalse | pushSmall _ =>
      obtain rfl := List.length_eq_zero_iff.mp hops
      exact andAdvance_congr (push_eq _ _)
  | pushConstant index | loadLocal slot =>
      obtain rfl := List.length_eq_zero_iff.mp hops
      exact andAdvance_congr (pushOr_eq _ _ _)
  | loadGlobal index =>
      obtain rfl := List.length_eq_zero_iff.mp hops
      exact andAdvance_congr (loadGlobal_eq index)
  | loadCapture index =>
      obtain rfl := List.length_eq_zero_iff.mp hops
      exact andAdvance_congr ((loadCapture_eq index).trans (pushOr_eq _ _ _))
  | buildTuple count => exact andAdvance_congr ((bind_ok (popMany_of hops)).trans (push_eq _ _))
  | buildDict count =>
      refine andAdvance_congr ((bind_ok (popMany_of hops)).trans ?_)
      dsimp only [Instruction.results]
      cases entriesOf [] ops.reverse with
      | error e => rfl
      | ok entries => exact push_eq _ _
  | unpackSequence count =>
      obtain ⟨x, rfl⟩ := List.length_eq_one_iff.mp hops
      exact andAdvance_congr (unpackSequence_eq count x)
  | add | sub | mul | lt | eq => exact andAdvance_congr (operate_eq _ hops)
  | not =>
      obtain ⟨x, rfl⟩ := List.length_eq_one_iff.mp hops
      exact andAdvance_congr ((bind_ok pop_of).trans (push_eq _ _))
  | _ => cases hi

/-- **An instruction whose results fit** takes its operands, pushes its
results and goes on. -/
theorem execute_ok {i : Instruction} {ops : List Value} (hi : i.isPlain = true)
    (hops : ops.length = i.operands) (hr : i.results f w ops = .ok out)
    (hroom : i.Fits st rest out) :
    execute i (of (ops ++ rest) (f :: fs) st w)
      = (.ok .advance, of (out ++ rest) (i.frameAfter f ops :: fs) st (i.worldAfter f w ops)) := by
  by_cases hcomputes : i.computes = true
  · rw [execute_computes hcomputes hops, hr, Instruction.frameAfter_of_computes hcomputes,
      Instruction.worldAfter_of_computes hcomputes]
    exact andAdvance_ok (pushResults_ok ((Instruction.fits_of_computes hcomputes).mp hroom))
  -- each other case names the operands, and takes the results apart
  cases i with
  | nop | synthetic =>
      obtain rfl := List.length_eq_zero_iff.mp hops
      cases hr
      rfl
  | pop =>
      obtain ⟨x, rfl⟩ := List.length_eq_one_iff.mp hops
      cases hr
      rfl
  | dup =>
      obtain ⟨x, rfl⟩ := List.length_eq_one_iff.mp hops
      cases hr
      have hlt : rest.length + 2 ≤ st.maxValueStack := by
        rcases hroom with hnil | hrearr | hle
        · cases hnil
        · cases hrearr
        · exact hle
      exact andAdvance_ok ((bind_ok top_of).trans (push_of hlt))
  | swap =>
      obtain ⟨x, y, rfl⟩ := List.length_eq_two.mp hops
      cases hr
      exact andAdvance_ok (rearrange_of rfl)
  | rot3 =>
      obtain ⟨x, y, z, rfl⟩ := List.length_eq_three.mp hops
      cases hr
      exact andAdvance_ok (rearrange_of rfl)
  | storeLocal slot =>
      obtain ⟨x, rfl⟩ := List.length_eq_one_iff.mp hops
      dsimp only [Instruction.results] at hr
      split at hr
      case isTrue hslot =>
        cases hr
        refine andAdvance_ok ?_
        show (if slot.toNat < f.locals.size then _ else _ : Exec σ Unit) (of rest (f :: fs) st w) = _
        rw [if_pos hslot]
        rfl
      case isFalse => cases hr
  | storeGlobal index =>
      obtain ⟨x, rfl⟩ := List.length_eq_one_iff.mp hops
      dsimp only [Instruction.results] at hr
      cases hname : f.function.body.names[index.toNat]? with
      | none =>
          rw [hname] at hr
          cases hr
      | some name =>
          rw [hname] at hr
          cases hr
          refine andAdvance_ok ((bind_ok pop_of).trans ((bind_ok (nameAt_of hname)).trans ?_))
          simp only [Instruction.worldAfter, hname]
          rfl
  | jump target =>
      obtain rfl := List.length_eq_zero_iff.mp hops
      cases hr
      rfl
  | jumpIfFalse target =>
      obtain ⟨x, rfl⟩ := List.length_eq_one_iff.mp hops
      cases hr
      refine andAdvance_ok ((bind_ok pop_of).trans ?_)
      simp only [Instruction.frameAfter]
      cases hx : x.isTruthy <;> rfl
  | «return» | call _ => cases hi
  | _ => exact absurd rfl hcomputes

/-- **An instruction whose results do not fit** fails with an overflow.  What
it leaves in place of its operands depends on how high the stack is, and not on
what lies there; it is no higher than the limit, or than the stack was. -/
theorem execute_full (fs : List Frame) {i : Instruction} {ops : List Value}
    (hi : i.isPlain = true)
    (hops : ops.length = i.operands) (hr : i.results f w ops = .ok out)
    (hroom : ¬ i.Fits st rest out) :
    ∃ junk, junk.length + rest.length ≤ max (ops.length + rest.length) st.maxValueStack
      ∧ ∀ below : List Value, below.length = rest.length → execute i (of (ops ++ below) (f :: fs) st w)
        = (.error .valueStackOverflow, of (junk ++ below) (f :: fs) st w) := by
  have hne : out ≠ [] := fun hnil => hroom (Or.inl hnil)
  by_cases hcomputes : i.computes = true
  · -- the values are pushed one by one, until there is no more room
    rw [Instruction.fits_of_computes hcomputes] at hroom
    refine ⟨(out.reverse.take (st.maxValueStack - rest.length)).reverse, ?_, ?_⟩
    · rw [List.length_reverse, List.length_take]
      omega
    · intro below hbelow
      rw [execute_computes hcomputes hops, hr, ← hbelow]
      exact andAdvance_error (pushResults_full hne (by rw [hbelow]; exact not_or.mp hroom |>.2))
  cases i with
  | dup =>
      obtain ⟨x, rfl⟩ := List.length_eq_one_iff.mp hops
      cases hr
      refine ⟨[x], Nat.le_max_left _ _, fun below hbelow => ?_⟩
      have hfull : ¬ below.length + 2 ≤ st.maxValueStack := by
        rw [hbelow]
        exact fun hle => hroom (Or.inr (Or.inr hle))
      exact andAdvance_error ((bind_ok top_of).trans (push_full hfull))
  | nop | synthetic | pop | jump _ | jumpIfFalse _ =>
      cases hr
      exact absurd rfl hne
  | swap | rot3 => exact absurd (Or.inr (Or.inl rfl)) hroom
  | storeLocal slot | storeGlobal index =>
      dsimp only [Instruction.results] at hr
      split at hr
      case isTrue =>
        cases hr
        exact absurd rfl hne
      case isFalse => cases hr
  | «return» | call _ => cases hi
  | _ => exact absurd rfl hcomputes

/-- **An instruction that fails** leaves what lies below its operands as it
was, and the frames and the world too. -/
theorem execute_error {i : Instruction} {ops : List Value} (hi : i.isPlain = true)
    (hops : ops.length = i.operands) (hr : i.results f w ops = .error e) :
    execute i (of (ops ++ rest) (f :: fs) st w) = (.error e, of rest (f :: fs) st w) := by
  by_cases hcomputes : i.computes = true
  · rw [execute_computes hcomputes hops, hr]
    exact andAdvance_error pushResults_error
  cases i with
  | nop | synthetic | pop | jump _ | jumpIfFalse _ => cases hr
  | dup =>
      obtain ⟨x, rfl⟩ := List.length_eq_one_iff.mp hops
      cases hr
  | swap =>
      obtain ⟨x, y, rfl⟩ := List.length_eq_two.mp hops
      cases hr
  | rot3 =>
      obtain ⟨x, y, z, rfl⟩ := List.length_eq_three.mp hops
      cases hr
  | storeLocal slot =>
      obtain ⟨x, rfl⟩ := List.length_eq_one_iff.mp hops
      dsimp only [Instruction.results] at hr
      split at hr
      case isTrue => cases hr
      case isFalse hslot =>
        cases hr
        refine andAdvance_error ?_
        show (if slot.toNat < f.locals.size then _ else _ : Exec σ Unit) (of rest (f :: fs) st w) = _
        rw [if_neg hslot]
        rfl
  | storeGlobal index =>
      obtain ⟨x, rfl⟩ := List.length_eq_one_iff.mp hops
      dsimp only [Instruction.results] at hr
      cases hname : f.function.body.names[index.toNat]? with
      | none =>
          rw [hname] at hr
          cases hr
          exact andAdvance_error ((bind_ok pop_of).trans (bind_error (nameAt_missing hname)))
      | some name =>
          rw [hname] at hr
          cases hr
  | «return» | call _ => cases hi
  | _ => exact absurd rfl hcomputes

/-! ### Missing operands. -/

theorem operate_short {op : BinaryOp} {vs : List Value} (h : vs.length < 2) :
    operate op (of vs (f :: fs) st w) = (.error .stackUnderflow, of [] (f :: fs) st w) := by
  match vs, h with
  | [], _ => rfl
  | [x], _ => rfl
  | _ :: _ :: _, h =>
      simp only [List.length_cons] at h
      omega

/-- **An instruction without its operands** fails with an underflow and leaves
the stack as it was, but an operator has taken the one value that there may be
before it fails. -/
theorem execute_short {i : Instruction} {vs : List Value} (h : vs.length < i.operands) :
    execute i (of vs (f :: fs) st w)
      = (.error .stackUnderflow, of (if i.isOperator then [] else vs) (f :: fs) st w) := by
  cases i with
  | nop | synthetic | jump _ | pushNil | pushTrue | pushFalse | pushSmall _ | pushConstant _
  | loadLocal _ | loadGlobal _ | loadCapture _ => exact absurd h (Nat.not_lt_zero _)
  | pop | dup | storeLocal _ | storeGlobal _ | unpackSequence _ | not | jumpIfFalse _
  | «return» =>
      obtain rfl := List.length_eq_zero_iff.mp (Nat.lt_one_iff.mp h)
      rfl
  | swap =>
      refine andAdvance_error (rearrange_short ?_)
      match vs, h with
      | [], _ => rfl
      | [x], _ => rfl
  | rot3 =>
      refine andAdvance_error (rearrange_short ?_)
      match vs, h with
      | [], _ => rfl
      | [x], _ => rfl
      | [x, y], _ => rfl
  | buildTuple count => exact andAdvance_error (bind_error (popMany_short h))
  | buildDict count => exact andAdvance_error (bind_error (popMany_short h))
  | add | sub | mul | lt | eq => exact andAdvance_error (operate_short h)
  | call shape => exact bind_error (popMany_short h)

/-! ## §4. Calls and returns. -/

variable {shape : CallShape} {callee : Value} {ops : List Value} {args : CallArgs}

/-- As many operands as are wanted, if they are on the stack. -/
theorem exists_taken {n : Nat} {vs : List Value} (h : ¬ vs.length < n) :
    ∃ ops rest, vs = ops ++ rest ∧ ops.length = n := by
  refine ⟨vs.take n, vs.drop n, (List.take_append_drop n vs).symm, ?_⟩
  rw [List.length_take]
  omega

/-- The operands of a call and its callee, if they are on the stack. -/
theorem exists_operands {vs : List Value} (h : ¬ vs.length < shape.slots + 1) :
    ∃ ops callee rest, vs = ops ++ callee :: rest ∧ ops.length = shape.slots := by
  obtain ⟨ops, rest, rfl, hops⟩ : ∃ ops rest, vs = ops ++ rest ∧ ops.length = shape.slots :=
    exists_taken (by omega)
  cases rest with
  | nil =>
      rw [List.append_nil] at h
      omega
  | cons callee rest => exact ⟨ops, callee, rest, rfl, hops⟩

/-- The operands of a call are taken together with the callee below them. -/
theorem popMany_call (hops : ops.length = shape.slots) :
    popMany (shape.slots + 1) (of (ops ++ callee :: rest) (f :: fs) st w)
      = (.ok (callee :: ops.reverse), of rest (f :: fs) st w) := by
  have hlen : (ops ++ [callee]).length = shape.slots + 1 := by simp [hops]
  have h : popMany (shape.slots + 1) (of (ops ++ [callee] ++ rest) (f :: fs) st w)
      = (.ok (ops ++ [callee]).reverse, of rest (f :: fs) st w) := popMany_of hlen
  rw [List.append_assoc, List.singleton_append] at h
  rw [h]
  simp

theorem execute_call_refused (hops : ops.length = shape.slots)
    (hargs : collectArgs callee shape ops.reverse = .error e) :
    execute (.call shape) (of (ops ++ callee :: rest) (f :: fs) st w)
      = (.error e, of rest (f :: fs) st w) := by
  refine (bind_ok (popMany_call hops)).trans ?_
  show (ofExcept (collectArgs callee shape ops.reverse) >>= _ : Exec σ Signal) _ = _
  rw [hargs]
  rfl

/-- **A call that is run by bytecode** takes callee and operands away and
enters the function. -/
theorem execute_call_entered {g : Function Value} {given : CallArgs}
    (hops : ops.length = shape.slots) (hargs : collectArgs callee shape ops.reverse = .ok args)
    (hcallee : callee.entered? args = some (g, given)) :
    execute (.call shape) (of (ops ++ callee :: rest) (f :: fs) st w)
      = andAdvance (enterFrame g given) (of rest (f :: fs) st w) := by
  refine (bind_ok (popMany_call hops)).trans ?_
  show (ofExcept (collectArgs callee shape ops.reverse) >>= _ : Exec σ Signal) _ = _
  rw [hargs]
  cases callee with
  | function _ | method _ =>
      cases hcallee
      rfl
  | _ => cases hcallee

/-- **Any other call** takes callee and operands away and is left to the
run. -/
theorem execute_call_external (hops : ops.length = shape.slots)
    (hargs : collectArgs callee shape ops.reverse = .ok args)
    (hcallee : callee.entered? args = none) :
    execute (.call shape) (of (ops ++ callee :: rest) (f :: fs) st w)
      = (.ok (.external callee args), of rest (f :: fs) st w) := by
  refine (bind_ok (popMany_call hops)).trans ?_
  show (ofExcept (collectArgs callee shape ops.reverse) >>= _ : Exec σ Signal) _ = _
  rw [hargs]
  cases callee with
  | function _ | method _ => cases hcallee
  | _ => rfl

/-- **A return** hands over the top value and cuts the stack back to the
height at which the frame was entered. -/
theorem execute_return {v : Value} {vs : List Value} :
    execute .return (of (v :: vs) (f :: fs) st w)
      = (.ok (.returned v), of (vs.drop (vs.length - f.base)) fs st w) :=
  bind_ok leaveFrame_of

end Machine

end CallDecoration
