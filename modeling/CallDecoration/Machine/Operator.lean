/-
  CallDecoration.Machine.Operator
  ──────────────────────────────────────
  **Binary operators.**  Integer arithmetic is exact or fails; addition also
  joins strings and tuples, and the order also compares strings, character by
  character.  When the operands do not fit, the error names the kind of one of
  them.
-/
import CallDecoration.Error
import CallDecoration.Value.Equality

namespace CallDecoration

/-- The operators of two operands. -/
inductive BinaryOp where
  | add
  | sub
  | mul
  | lt
  | eq
  deriving DecidableEq, Repr

namespace BinaryOp

/-- The kinds of operands that an operator works on; equality takes any. -/
def operandKinds : BinaryOp → List Kind
  | add => [.int, .str, .tuple]
  | sub => [.int]
  | mul => [.int]
  | lt => [.int, .str]
  | eq => []

/-- An exact integer result, which has to fit. -/
def exact (n : Int) : Except RunError Value :=
  match Text.toInt64? n with
  | some r => .ok (.int r)
  | none => .error .arithmeticOverflow

/-- The error for operands that do not fit.  It names the second operand if
both are of one kind or the first is an integer or a string, and the first
operand otherwise. -/
def mismatch (op : BinaryOp) (a b : Value) : RunError :=
  let blamed :=
    if a.kind = b.kind ∨ a.kind = .int ∨ a.kind = .str then b.kind else a.kind
  .typeMismatch op.operandKinds blamed

/-- **The result of an operator on two operands.** -/
def apply : BinaryOp → Value → Value → Except RunError Value
  | add, .int x, .int y => exact (x.toInt + y.toInt)
  | add, .str x, .str y => .ok (.str (x ++ y))
  | add, .tuple x, .tuple y => .ok (.tuple (x ++ y))
  | sub, .int x, .int y => exact (x.toInt - y.toInt)
  | mul, .int x, .int y => exact (x.toInt * y.toInt)
  | lt, .int x, .int y => .ok (.bool (decide (x < y)))
  | lt, .str x, .str y => .ok (.bool (decide (x < y)))
  | eq, a, b => .ok (.bool (a.equal b))
  | op, a, b => .error (op.mismatch a b)

end BinaryOp

end CallDecoration
