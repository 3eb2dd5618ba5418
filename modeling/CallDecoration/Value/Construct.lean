/-
  CallDecoration.Value.Construct
  ──────────────────────────────────────
  **Calling a type constructs a value of it.**  A type takes at most one
  positional argument, and only the dictionary type takes keywords.
-/
import CallDecoration.Text.WhiteSpace
import CallDecoration.Value.Display
import CallDecoration.Error

namespace CallDecoration

namespace TypeObject

/-- The integer that a string spells: white space at both ends is ignored. -/
def intOfText (s : String) : Except RunError Value :=
  match Text.readInt64? (Text.trim s.toList) with
  | some n => .ok (.int n)
  | none => .error (.badArguments "int" (.invalidLiteral s))

/-- The value of a type without an argument. -/
def empty : TypeObject → Value
  | bool => .bool false
  | int => .int 0
  | str => .str ""
  | tuple => .tuple []
  | dict => .dict []

/-- A value of a type from one argument. -/
def ofValue : TypeObject → Value → Except RunError Value
  | bool, v => .ok (.bool v.isTruthy)
  | int, .int n => .ok (.int n)
  | int, .bool b => .ok (.int (if b then 1 else 0))
  | int, .str s => intOfText s
  | int, v => .error (.typeMismatch [.int, .bool, .str] v.kind)
  | str, .str s => .ok (.str s)
  | str, v => .ok (.str v.display)
  | tuple, .tuple items => .ok (.tuple items)
  | tuple, .dict entries => .ok (.tuple (entries.map fun entry => .str entry.1))
  | tuple, v => .error (.typeMismatch [.tuple, .dict] v.kind)
  | dict, .dict entries => .ok (.dict entries)
  | dict, v => .error (.typeMismatch [.dict] v.kind)

/-- A value with keyword entries set in it: only a dictionary has room for
any. -/
def withEntries (keyword : Dict String Value) : Value → Value
  | .dict entries => .dict (Dict.merge entries keyword)
  | v => v

/-- **Constructs a value from the arguments of a call.** -/
def construct (t : TypeObject) (args : CallArgs) : Except RunError Value :=
  if t ≠ dict ∧ args.keyword ≠ [] then
    .error (.badArguments t.name .noKeywordsTaken)
  else
    match args.positional with
    | [] => .ok (withEntries args.keyword t.empty)
    | [v] => (t.ofValue v).map (withEntries args.keyword)
    | _ => .error (.badArguments t.name (.atMostOne args.positional.length))

end TypeObject

end CallDecoration
