/-
  CallDecoration.Bytecode.CallShape
  ──────────────────────────────────────
  **What lies on the stack above the callee of a call.**  Bottom to top: the
  positional arguments, a name and a value for each keyword argument, the
  tuple of further positional arguments if there is one, the dictionary of
  further keyword arguments if there is one.
-/
import CallDecoration.Bytecode.Opcode

namespace CallDecoration

/-- The operands of a call. -/
structure CallShape where
  /-- How many positional arguments are spelled out. -/
  positional : UInt8
  /-- How many keyword arguments are spelled out. -/
  keyword : UInt8
  /-- Whether a tuple of further positional arguments follows. -/
  varPositional : Bool
  /-- Whether a dictionary of further keyword arguments follows. -/
  varKeyword : Bool
  /-- Whether the call is written in the form that spells out no argument. -/
  expandable : Bool
  deriving DecidableEq, Repr, Inhabited

namespace CallShape

/-- `n` positional arguments and nothing else. -/
def plain (n : UInt8) : CallShape :=
  ⟨n, 0, false, false, false⟩

/-- One tuple of arguments, and a dictionary if `withKeywords`. -/
def spread (withKeywords : Bool) : CallShape :=
  ⟨0, 0, true, withKeywords, true⟩

/-- How many values lie between the callee and the call. -/
def slots (shape : CallShape) : Nat :=
  shape.positional.toNat + 2 * shape.keyword.toNat
    + shape.varPositional.toNat + shape.varKeyword.toNat

/-- The operation that calls with this shape. -/
def opcode (shape : CallShape) : Opcode :=
  if shape.expandable then .callEx
  else
    match shape.varPositional, shape.varKeyword with
    | false, false => .call
    | true, false => .callVar
    | false, true => .callKw
    | true, true => .callVarKw

end CallShape

end CallDecoration
