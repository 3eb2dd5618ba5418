/-
  CallDecoration.Machine.Action
  ──────────────────────────────────────
  **What a host function can do.**  An action is a tree of requests to the
  machine: call a value and go on with its answer, result or error; look at
  the machine's gauges; read or replace the world.  It cannot touch the value
  stack or the frames.  Decorating is itself written as an action, so host
  functions of the library and of the host are run by one rule.
-/
import CallDecoration.Machine.World
import CallDecoration.Error
import CallDecoration.Settings

namespace CallDecoration

/-- What a host function can see of a machine. -/
structure Gauge where
  /-- How many frames are running. -/
  depth : Nat
  /-- How many values are on the stack. -/
  height : Nat
  settings : Settings
  deriving DecidableEq, Repr

/-- A computation of a host function that answers with an `α`. -/
inductive Action (σ α : Type) where
  /-- The answer. -/
  | done (answer : Except RunError α)
  /-- Calls a value, and goes on with its result or its error. -/
  | call (callee : Value) (args : CallArgs) (next : Except RunError Value → Action σ α)
  /-- Looks at the machine. -/
  | inspect (next : Gauge → Action σ α)
  /-- Reads the world. -/
  | read (next : World σ → Action σ α)
  /-- Replaces the world. -/
  | write (world : World σ) (next : Action σ α)

namespace Action

variable {σ α β : Type}

/-- Goes on with `f` from the answer of an action; an error ends it. -/
def bind : Action σ α → (α → Action σ β) → Action σ β
  | done (.ok a), f => f a
  | done (.error e), _ => done (.error e)
  | call callee args next, f => call callee args fun answer => (next answer).bind f
  | inspect next, f => inspect fun gauge => (next gauge).bind f
  | read next, f => read fun world => (next world).bind f
  | write world next, f => write world (next.bind f)

instance : Monad (Action σ) where
  pure a := done (.ok a)
  bind := bind

/-- Fails with an error. -/
def fail (e : RunError) : Action σ α :=
  done (.error e)

/-- Calls a value; its error becomes the error of the action. -/
def callValue (callee : Value) (args : CallArgs) : Action σ Value :=
  call callee args done

/-- Calls a value and answers with its result or its error. -/
def attempt (callee : Value) (args : CallArgs) : Action σ (Except RunError Value) :=
  call callee args fun answer => done (.ok answer)

/-- The world as it is. -/
def world : Action σ (World σ) :=
  read fun w => done (.ok w)

/-- Changes the world by `f` and answers with what `f` gives beside it. -/
def change (f : World σ → α × World σ) : Action σ α :=
  read fun w => write (f w).2 (done (.ok (f w).1))

/-- The gauges of the machine. -/
def gauge : Action σ Gauge :=
  inspect fun g => done (.ok g)

end Action

end CallDecoration
