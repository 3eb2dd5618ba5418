/-
  CallDecoration.Machine.Execute
  ──────────────────────────────────────
  **One instruction.**  The running frame's next instruction is decoded where
  it stands, the frame moves past it, and it is executed.  Calling a function
  enters its frame; calling anything else is left to the caller of this
  module, as is what happens to the result of a frame that ends.
-/
import CallDecoration.Machine.Basic
import CallDecoration.Machine.Operator
import CallDecoration.Machine.Operands

namespace CallDecoration

/-- How an instruction ends. -/
inductive Signal where
  /-- The running frame goes on. -/
  | advance
  /-- The running frame has ended with this result. -/
  | returned (result : Value)
  /-- A value that is not a bytecode function is called. -/
  | external (callee : Value) (args : CallArgs)

namespace Machine

variable {σ : Type}

/-! ## §1. Variables. -/

/-- Pushes a constant of the running body. -/
def pushConstant (index : UInt16) : Exec σ Unit := do
  match (← frame).function.body.constants[index.toNat]? with
  | some value => push value
  | none => throw (.invalidConstant index)

/-- Pushes a local slot. -/
def loadLocal (slot : UInt8) : Exec σ Unit := do
  match (← frame).locals[slot.toNat]? with
  | some value => push value
  | none => throw (.invalidLocal slot)

/-- Pops into a local slot. -/
def storeLocal (slot : UInt8) : Exec σ Unit := do
  let value ← pop
  let f ← frame
  if slot.toNat < f.locals.size then
    updateFrame fun f => { f with locals := f.locals.setIfInBounds slot.toNat value }
  else throw (.invalidLocal slot)

/-- The name of the running body at an index. -/
def nameAt (index : UInt16) : Exec σ String := do
  match (← frame).function.body.names[index.toNat]? with
  | some name => return name
  | none => throw (.invalidName index)

/-- Pushes the value bound to a name in the function's scope. -/
def loadGlobal (index : UInt16) : Exec σ Unit := do
  let name ← nameAt index
  let f ← frame
  match (← get).world.lookup f.function.scope.id name with
  | some value => push value
  | none => throw (.unboundGlobal name)

/-- Pops into a binding of the function's scope. -/
def storeGlobal (index : UInt16) : Exec σ Unit := do
  let value ← pop
  let name ← nameAt index
  let f ← frame
  modify fun m => { m with world := m.world.bind f.function.scope.id name value }

/-- Pushes a capture of the running function. -/
def loadCapture (index : UInt16) : Exec σ Unit := do
  match (← frame).function.captures[index.toNat]? with
  | some capture => push capture.value
  | none => throw (.invalidCapture index)

/-! ## §2. Aggregates. -/

/-- Packs the top `count` values into a tuple. -/
def buildTuple (count : UInt8) : Exec σ Unit := do
  push (.tuple (← popMany count.toNat))

/-- The dictionary of alternating names and values. -/
def entriesOf : Dict String Value → List Value → Except RunError (Dict String Value)
  | entries, .str name :: value :: rest => entriesOf (Dict.set entries name value) rest
  | _, name :: _ :: _ => .error (.typeMismatch [.str] name.kind)
  | entries, _ => .ok entries

/-- Packs the top `count` pairs of name and value into a dictionary. -/
def buildDict (count : UInt8) : Exec σ Unit := do
  let operands ← popMany (2 * count.toNat)
  push (.dict (← ofExcept (entriesOf [] operands)))

/-- Pops a tuple of exactly `count` items and pushes them, the first
deepest. -/
def unpackSequence (count : UInt8) : Exec σ Unit := do
  match ← pop with
  | .tuple items =>
      if items.length = count.toNat then pushAll items
      else
        throw (.raised ("cannot unpack " ++ Text.decimal items.length ++ " values into "
          ++ Text.decimal count.toNat))
  | other => throw (.typeMismatch [.tuple] other.kind)

/-! ## §3. Operators. -/

/-- Replaces the two top values by the result of an operator on them. -/
def operate (op : BinaryOp) : Exec σ Unit := do
  let b ← pop
  let a ← pop
  push (← ofExcept (op.apply a b))

/-! ## §4. Calls. -/

/-- **Calls the value below the operands.**  The arguments are collected
before the callee is looked at.  A method is its function with the receiver
put first. -/
def call (shape : CallShape) : Exec σ Signal := do
  match ← popMany (shape.slots + 1) with
  | [] => throw .stackUnderflow
  | callee :: operands => do
      let args ← ofExcept (collectArgs callee shape operands)
      match callee with
      | .function f => do
          enterFrame f args
          return .advance
      | .method m => do
          enterFrame m.function (args.withReceiver m.receiver)
          return .advance
      | _ => return .external callee args

/-! ## §5. One step. -/

/-- Runs an instruction for its effect on the running frame. -/
def andAdvance (effect : Exec σ Unit) : Exec σ Signal := do
  effect
  return .advance

/-- **Executes an instruction** behind which the running frame already
stands. -/
def execute : Instruction → Exec σ Signal
  | .nop => return .advance
  | .synthetic => return .advance
  | .pop => do
      let _ ← pop
      return .advance
  | .dup => andAdvance do push (← top)
  | .swap => andAdvance (rearrange Stack.swap?)
  | .rot3 => andAdvance (rearrange Stack.rotate3?)
  | .pushNil => andAdvance (push .nil)
  | .pushTrue => andAdvance (push (.bool true))
  | .pushFalse => andAdvance (push (.bool false))
  | .pushSmall n => andAdvance (push (.int n.toInt64))
  | .pushConstant index => andAdvance (pushConstant index)
  | .loadLocal slot => andAdvance (loadLocal slot)
  | .storeLocal slot => andAdvance (storeLocal slot)
  | .loadGlobal index => andAdvance (loadGlobal index)
  | .storeGlobal index => andAdvance (storeGlobal index)
  | .loadCapture index => andAdvance (loadCapture index)
  | .buildTuple count => andAdvance (buildTuple count)
  | .buildDict count => andAdvance (buildDict count)
  | .unpackSequence count => andAdvance (unpackSequence count)
  | .add => andAdvance (operate .add)
  | .sub => andAdvance (operate .sub)
  | .mul => andAdvance (operate .mul)
  | .lt => andAdvance (operate .lt)
  | .eq => andAdvance (operate .eq)
  | .not => andAdvance do push (.bool !(← pop).isTruthy)
  | .jump target => andAdvance (jumpTo target)
  | .jumpIfFalse target => andAdvance do
      if !(← pop).isTruthy then jumpTo target
  | .return => do
      let result ← leaveFrame
      return .returned result
  | .call shape => call shape

/-- The next instruction of a frame, and the offset behind it. -/
def fetch (f : Frame) : Except RunError (Instruction × Nat) :=
  if f.ip < f.function.body.code.size then
    match decodeAt f.function.body.code f.ip with
    | .ok fetched => .ok fetched
    | .error cause => .error (.decode cause)
  else .error .endOfCode

/-- **Executes the next instruction of the running frame.** -/
def stepFrame : Exec σ Signal := do
  let (i, next) ← ofExcept (fetch (← frame))
  jumpTo next
  execute i

end Machine

end CallDecoration
