/-
  CallDecoration.Host.Routine
  ──────────────────────────────────────
  **Ready-made host functions.**  A routine says what a host function answers;
  unless it is quiet, a call is also noted in a log before anything else
  happens.  The log is the state of the host.
-/
import CallDecoration.Decoration.Decorate

namespace CallDecoration

/-! ## §1. The log. -/

/-- One noted call. -/
structure LoggedCall where
  name : String
  args : CallArgs

/-- The noted calls, latest first. -/
abbrev CallLog := List LoggedCall

/-! ## §2. Routines. -/

/-- How a selected case ends. -/
inductive CaseOutcome where
  | value (v : Value)
  | raised (text : String)

/-- What a ready-made host function does. -/
inductive Routine where
  /-- Answers its first argument. -/
  | identity
  | constant (v : Value)
  /-- Answers its arguments: a tuple and a dictionary. -/
  | arguments
  | raised (text : String)
  /-- Calls a value with its own arguments. -/
  | forward (callee : Value)
  /-- Calls its first argument with the others, and answers how that ended:
  `kindOf` gives the word for the kind of an error. -/
  | attempt (kindOf : RunError → String)
  /-- Looks its first argument up by its transformation name. -/
  | select (cases : List (String × CaseOutcome))
  /-- Answers the depth and the height of the machine. -/
  | gauges
  /-- Binds a function to its first argument. -/
  | bind (f : Function Value)
  /-- Answers a copy of its first argument with an identity of its own, if
  that is a function. -/
  | clone

namespace Routine

variable {σ : Type}

/-- The first positional argument, nil if there is none. -/
def first (args : CallArgs) : Value :=
  args.positional.head?.getD .nil

/-- The answer to a call that was tried. -/
def outcome (kindOf : RunError → String) : Except RunError Value → Value
  | .ok result => .tuple [.str "ok", result]
  | .error e => .tuple [.str "err", .str (kindOf e), .str e.message]

/-- A natural number as a value. -/
def count (n : Nat) : Value :=
  .int (Int64.ofNat n)

/-- **What a routine does when it is called.** -/
def run (args : CallArgs) : Routine → Action σ Value
  | identity => return first args
  | constant v => return v
  | arguments => return .tuple [.tuple args.positional, .dict args.keyword]
  | raised text => Action.fail (.raised text)
  | forward callee => Action.callValue callee args
  | attempt kindOf =>
      match args.positional with
      | [] => Action.fail (.raised "try needs a callee")
      | callee :: rest => do
          return outcome kindOf (← Action.attempt callee ⟨rest, args.keyword⟩)
  | select cases =>
      match Dict.get? cases (first args).transformationName with
      | some (.value v) => return v
      | some (.raised text) => Action.fail (.raised text)
      | none => return first args
  | gauges => do
      let g ← Action.gauge
      return .tuple [count g.depth, count g.height]
  | bind f => Action.change (World.newMethod (first args) f)
  | clone =>
      match first args with
      | .function f => do
          let id ← Action.change World.freshFunction
          return .function { f with id := id }
      | other => return other

end Routine

/-! ## §3. A host with routines. -/

/-- A ready-made host function: its name in the log, whether calls of it are
noted, and what it does. -/
structure Stocked where
  name : String
  quiet : Bool
  routine : Routine

/-- Notes a call in the log. -/
def noteCall (name : String) (args : CallArgs) : Action CallLog Unit :=
  Action.change fun w => ((), { w with host := ⟨name, args⟩ :: w.host })

/-- What a ready-made host function does, with its note in the log. -/
def Stocked.respond (s : Stocked) (args : CallArgs) : Action CallLog Value := do
  if !s.quiet then noteCall s.name args
  s.routine.run args

/-- **The host that has these functions;** any other answers nil. -/
def Host.ofStock (stock : Dict ObjectId Stocked) : Host CallLog := fun id args =>
  match Dict.get? stock id with
  | some s => s.respond args
  | none => return .nil

end CallDecoration
