/-
  CallDecoration.Machine.Basic
  ──────────────────────────────────────
  **The machine: one value stack, one stack of frames.**  All frames share
  the value stack; a frame remembers how high it was when the frame was
  entered.  Operations of the machine fail with an error and keep the state as
  they left it.
-/
import CallDecoration.Machine.World
import CallDecoration.Function.Binding
import CallDecoration.Settings
import CallDecoration.Stack

namespace CallDecoration

/-- The activation of a function. -/
structure Frame where
  function : Function Value
  /-- The offset of the next instruction. -/
  ip : Nat
  /-- The height of the value stack when the frame was entered. -/
  base : Nat
  /-- The local slots, parameters first. -/
  locals : Array Value

/-- The stacks, the settings and the world. -/
structure Machine (σ : Type) where
  stack : Stack Value
  frames : Stack Frame
  settings : Settings
  world : World σ

/-- An operation of the machine: an error keeps the state as it is then. -/
abbrev Exec (σ α : Type) := ExceptT RunError (StateM (Machine σ)) α

namespace Machine

variable {σ α : Type}

/-- A machine at rest. -/
def new (settings : Settings) (world : World σ) : Machine σ :=
  ⟨.empty, .empty, settings, world⟩

/-! ## §1. The value stack. -/

/-- Pushes a value, within the limit. -/
def push (value : Value) : Exec σ Unit := do
  let m ← get
  if m.stack.height < m.settings.maxValueStack then
    set { m with stack := m.stack.push value }
  else throw .valueStackOverflow

/-- Pops the top value. -/
def pop : Exec σ Value := do
  let m ← get
  match m.stack.pop? with
  | some (value, stack) => do
      set { m with stack := stack }
      return value
  | none => throw .stackUnderflow

/-- Pops the top `n` values, bottom first. -/
def popMany (n : Nat) : Exec σ (List Value) := do
  let m ← get
  match m.stack.popMany? n with
  | some (values, stack) => do
      set { m with stack := stack }
      return values
  | none => throw .stackUnderflow

/-- The top value, which stays. -/
def top : Exec σ Value := do
  match (← get).stack.top? with
  | some value => return value
  | none => throw .stackUnderflow

/-- Rearranges the stack; `none` means that it is not high enough. -/
def rearrange (f : Stack Value → Option (Stack Value)) : Exec σ Unit := do
  let m ← get
  match f m.stack with
  | some stack => set { m with stack := stack }
  | none => throw .stackUnderflow

/-- Pushes values one after the other. -/
def pushAll : List Value → Exec σ Unit
  | [] => return ()
  | value :: rest => do
      push value
      pushAll rest

/-! ## §2. Frames. -/

/-- The running frame. -/
def frame : Exec σ Frame := do
  match (← get).frames.top? with
  | some f => return f
  | none => throw .noActiveFrame

/-- Changes the running frame. -/
def updateFrame (f : Frame → Frame) : Exec σ Unit :=
  modify fun m => { m with frames := m.frames.modifyTop f }

/-- Continues the running frame at `offset`. -/
def jumpTo (offset : Nat) : Exec σ Unit :=
  updateFrame fun f => { f with ip := offset }

/-- Passes an answer on. -/
def ofExcept (answer : Except RunError α) : Exec σ α :=
  match answer with
  | .ok a => return a
  | .error e => throw e

/-- **Enters a function:** its arguments are bound and its frame becomes the
running one.  The depth is checked before the arguments are. -/
def enterFrame (f : Function Value) (args : CallArgs) : Exec σ Unit := do
  let m ← get
  if m.frames.height < m.settings.maxCallDepth then do
    let locals ← ofExcept (f.bindArguments args)
    set { m with frames := m.frames.push ⟨f, 0, m.stack.height, locals⟩ }
  else throw (.callDepthExceeded m.settings.maxCallDepth)

/-- **Leaves the running frame** with the top value as its result; whatever
else the frame left on the stack is dropped. -/
def leaveFrame : Exec σ Value := do
  let result ← pop
  let m ← get
  match m.frames.pop? with
  | some (f, frames) => do
      set { m with frames := frames, stack := m.stack.truncate f.base }
      return result
  | none => throw .noActiveFrame

/-- Drops all frames above the height `depth` and all values above the height
`height`. -/
def unwind (depth height : Nat) (m : Machine σ) : Machine σ :=
  { m with frames := m.frames.truncate depth, stack := m.stack.truncate height }

end Machine

end CallDecoration
