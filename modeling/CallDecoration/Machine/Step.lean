/-
  CallDecoration.Machine.Step
  ──────────────────────────────────────
  **Running.**  A state of a run is a machine together with what is being done
  now (`Focus`) and what waits for its answer (`Pending`, innermost first).
  Bytecode that calls bytecode adds a frame and nothing that waits; only a
  call made from outside the bytecode, by a host function or at the very
  start, begins an activation of its own.  One step is one instruction, one
  request of a host function, or one answer handed on; so every state that a
  host function could see is a state of the run.
-/
import CallDecoration.Value.Construct
import CallDecoration.Machine.Execute
import CallDecoration.Decoration.Decorate

namespace CallDecoration

variable {σ : Type}

/-! ## §1. States. -/

/-- What waits for an answer. -/
inductive Pending (σ : Type) where
  /-- A call instruction of the running frame, which pushes the answer. -/
  | operand
  /-- A call from outside, entered with `floor` frames and `base` values: it
  ends when the frames are back at `floor`, and on an error both stacks are
  cut back. -/
  | activation (floor base : Nat)
  /-- A host function. -/
  | host (next : Except RunError Value → Action σ Value)

/-- What is being done. -/
inductive Focus (σ : Type) where
  /-- The running frame executes. -/
  | bytecode
  /-- A host function acts. -/
  | action (a : Action σ Value)
  /-- An answer is handed to what waits for it. -/
  | answer (r : Except RunError Value)

/-- A state of a run. -/
structure RunState (σ : Type) where
  focus : Focus σ
  pending : List (Pending σ)
  machine : Machine σ

namespace RunState

/-! ## §2. Calling. -/

/-- Calls a function from outside: a new activation, unless its frame cannot
be entered. -/
def activate (f : Function Value) (args : CallArgs) (s : RunState σ) : RunState σ :=
  match Machine.enterFrame f args s.machine with
  | (.ok (), m) =>
      ⟨.bytecode,
        .activation s.machine.frames.height s.machine.stack.height :: s.pending, m⟩
  | (.error e, m) => ⟨.answer (.error e), s.pending, m⟩

/-- **Calls any value.** -/
def enter (host : Host σ) (callee : Value) (args : CallArgs) (s : RunState σ) : RunState σ :=
  match callee with
  | .function f => s.activate f args
  | .method m => s.activate m.function (args.withReceiver m.receiver)
  | .native n => { s with focus := .action (n.respond host args) }
  | .type t => { s with focus := .answer (t.construct args) }
  | other => { s with focus := .answer (.error (.notCallable other.kind)) }

/-! ## §3. Steps. -/

/-- Pushes an answer for the running frame, which then goes on. -/
def resume (value : Value) (s : RunState σ) : RunState σ :=
  match Machine.push value s.machine with
  | (.ok (), m) => ⟨.bytecode, s.pending, m⟩
  | (.error e, m) => ⟨.answer (.error e), s.pending, m⟩

/-- A frame has ended with a result: the activation ends with it if its last
frame is gone, else the calling frame gets the result. -/
def afterReturn (result : Value) (s : RunState σ) : RunState σ :=
  match s.pending with
  | .activation floor _ :: rest =>
      if s.machine.frames.height = floor then
        ⟨.answer (.ok result), rest, s.machine⟩
      else s.resume result
  | _ => s.resume result

/-- The running frame executes one instruction. -/
def stepBytecode (host : Host σ) (s : RunState σ) : RunState σ :=
  match Machine.stepFrame s.machine with
  | (.ok .advance, m) => { s with machine := m }
  | (.ok (.returned result), m) => afterReturn result { s with machine := m }
  | (.ok (.external callee args), m) =>
      enter host callee args ⟨.bytecode, .operand :: s.pending, m⟩
  | (.error e, m) => ⟨.answer (.error e), s.pending, m⟩

/-- What a host function sees of a machine. -/
def gauge (m : Machine σ) : Gauge :=
  ⟨m.frames.height, m.stack.height, m.settings⟩

/-- A host function makes one request. -/
def stepAction (host : Host σ) (a : Action σ Value) (s : RunState σ) : RunState σ :=
  match a with
  | .done r => { s with focus := .answer r }
  | .call callee args next =>
      enter host callee args { s with pending := .host next :: s.pending }
  | .inspect next => { s with focus := .action (next (gauge s.machine)) }
  | .read next => { s with focus := .action (next s.machine.world) }
  | .write world next =>
      { s with focus := .action next, machine := { s.machine with world := world } }

/-- An answer is handed to what waits for it.  An error ends an activation:
its frames and values are dropped and the error goes on. -/
def stepAnswer (r : Except RunError Value) (s : RunState σ) : RunState σ :=
  match s.pending, r with
  | [], _ => s
  | .operand :: rest, .ok value => resume value { s with pending := rest }
  | .operand :: rest, .error _ => { s with pending := rest }
  | .activation _ _ :: rest, .ok _ => { s with pending := rest }
  | .activation floor base :: rest, .error _ =>
      { s with pending := rest, machine := s.machine.unwind floor base }
  | .host next :: rest, r => { s with focus := .action (next r), pending := rest }

/-- **One step of a run.** -/
def step (host : Host σ) (s : RunState σ) : RunState σ :=
  match s.focus with
  | .bytecode => s.stepBytecode host
  | .action a => s.stepAction host a
  | .answer r => s.stepAnswer r

/-! ## §4. Runs. -/

/-- The answer of a run that has ended: it is handed on, and nothing waits. -/
def result? (s : RunState σ) : Option (Except RunError Value) :=
  match s.focus, s.pending with
  | .answer r, [] => some r
  | _, _ => none

/-- **Runs for at most `fuel` steps:** the answer and the machine it leaves,
or `none` if the run has not ended by then. -/
def run (host : Host σ) : (fuel : Nat) → RunState σ → Option (Except RunError Value × Machine σ)
  | 0, _ => none
  | fuel + 1, s =>
      match s.result? with
      | some r => some (r, s.machine)
      | none => run host fuel (s.step host)

/-- The state in which a call from outside begins. -/
def ofCall (host : Host σ) (m : Machine σ) (callee : Value) (args : CallArgs) : RunState σ :=
  enter host callee args ⟨.bytecode, [], m⟩

/-- The state in which a host action begins. -/
def ofAction (m : Machine σ) (a : Action σ Value) : RunState σ :=
  ⟨.action a, [], m⟩

end RunState

end CallDecoration
