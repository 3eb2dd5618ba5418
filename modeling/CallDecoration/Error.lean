/-
  CallDecoration.Error
  ──────────────────────────────────────
  **What can go wrong while code runs or is instrumented.**  An error is its
  cause; its wording is in one function for each type.  An error that was
  caused by another one tells that one's wording too.
-/
import CallDecoration.Text.Quoted
import CallDecoration.Value.Basic

namespace CallDecoration

/-! ## §1. Instrumenting a body. -/

/-- Why a body cannot be instrumented. -/
inductive InstrumentError where
  /-- The body does not decode. -/
  | decode (cause : DecodeError)
  /-- A marker is not followed by a call. -/
  | danglingMarker (offset : Nat)
  /-- A call has more operands than one tuple can be built of. -/
  | tooManySlots (offset slots : Nat)
  /-- The instrumented body outgrows the encoding. -/
  | codeTooLarge (length : Nat)
  /-- The capture table outgrows its index. -/
  | tooManyCaptures (count : Nat)
  deriving DecidableEq, Repr

namespace InstrumentError

/-- The text of an instrumentation error. -/
def message : InstrumentError → String
  | decode cause => "Cannot decode body: " ++ cause.message
  | danglingMarker offset =>
      "Synthetic marker at " ++ Text.hex 4 offset ++ " is not followed by a call"
  | tooManySlots offset slots =>
      "Call at " ++ Text.hex 4 offset ++ " has " ++ Text.decimal slots
        ++ " argument slots (max 255)"
  | codeTooLarge length =>
      "Rewritten body is " ++ Text.decimal length ++ " bytes (max "
        ++ Text.decimal maxCodeLength ++ ")"
  | tooManyCaptures count =>
      "Too many captures: " ++ Text.decimal count ++ " (max 65535)"

/-- The text of the error behind this one. -/
def causeMessage? : InstrumentError → Option String
  | decode cause => some cause.message
  | _ => none

end InstrumentError

/-! ## §2. Arguments that do not fit. -/

/-- Why a callable refuses its arguments. -/
inductive ArgumentProblem where
  | tooManyPositional (allowed given : Nat)
  | multipleValues (parameter : String)
  | unexpectedKeyword (name : String)
  | missingPositional (parameter : String)
  | missingKeywordOnly (parameter : String)
  /-- The same keyword was given twice in one call. -/
  | repeatedKeyword (name : String)
  | noKeywordsTaken
  | atMostOne (given : Nat)
  | exactlyOne (given : Nat)
  | invalidLiteral (text : String)
  | missingTransformation
  deriving DecidableEq, Repr

/-- The text of an argument problem, without the callable's name. -/
def ArgumentProblem.message : ArgumentProblem → String
  | tooManyPositional allowed given =>
      "takes " ++ Text.decimal allowed ++ " positional arguments but "
        ++ Text.decimal given ++ " were given"
  | multipleValues parameter => "got multiple values for argument '" ++ parameter ++ "'"
  | unexpectedKeyword name => "got an unexpected keyword argument '" ++ name ++ "'"
  | missingPositional parameter =>
      "missing required positional argument '" ++ parameter ++ "'"
  | missingKeywordOnly parameter =>
      "missing required keyword-only argument '" ++ parameter ++ "'"
  | repeatedKeyword name => "got multiple values for keyword argument '" ++ name ++ "'"
  | noKeywordsTaken => "takes no keyword arguments"
  | atMostOne given => "expected at most 1 argument, got " ++ Text.decimal given
  | exactlyOne given => "takes exactly one argument (" ++ Text.decimal given ++ " given)"
  | invalidLiteral text => "invalid literal " ++ Text.quote text
  | missingTransformation => "missing required argument 'transformation'"

/-! ## §3. Running code. -/

/-- Why a run fails. -/
inductive RunError where
  | stackUnderflow
  /-- The running body does not decode here. -/
  | decode (cause : DecodeError)
  | invalidConstant (index : UInt16)
  | invalidLocal (slot : UInt8)
  | invalidCapture (index : UInt16)
  | invalidName (index : UInt16)
  | unboundGlobal (name : String)
  /-- An operand is of none of the kinds that the operation takes. -/
  | typeMismatch (expected : List Kind) (got : Kind)
  | notCallable (kind : Kind)
  | badArguments (callee : String) (problem : ArgumentProblem)
  | arithmeticOverflow
  /-- Control ran past the end of the body. -/
  | endOfCode
  | noActiveFrame
  | callDepthExceeded (limit : Nat)
  | valueStackOverflow
  /-- Raised by a host function or by unpacking. -/
  | raised (text : String)
  /-- A function could not be instrumented. -/
  | instrument (cause : InstrumentError)
  deriving DecidableEq, Repr

/-- A choice of kinds in words: commas between all but the last two, which
`or` joins. -/
def Kind.choice : List Kind → String
  | [] => ""
  | [k] => k.name
  | [k, l] => k.name ++ " or " ++ l.name
  | k :: rest => k.name ++ ", " ++ choice rest

namespace RunError

/-- The text of a run error. -/
def message : RunError → String
  | stackUnderflow => "Stack underflow"
  | decode cause => "Decode error: " ++ cause.message
  | invalidConstant index => "Invalid constant index: " ++ Text.decimal index.toNat
  | invalidLocal slot => "Invalid local variable index: " ++ Text.decimal slot.toNat
  | invalidCapture index => "Invalid capture index: " ++ Text.decimal index.toNat
  | invalidName index => "Invalid name index: " ++ Text.decimal index.toNat
  | unboundGlobal name => "Name '" ++ name ++ "' is not defined"
  | typeMismatch expected got =>
      "Type error: expected " ++ Kind.choice expected ++ ", got " ++ got.name
  | notCallable kind => "'" ++ kind.name ++ "' object is not callable"
  | badArguments callee problem => callee ++ "() " ++ problem.message
  | arithmeticOverflow => "Arithmetic overflow"
  | endOfCode => "Instruction pointer out of bounds"
  | noActiveFrame => "No active frame"
  | callDepthExceeded limit =>
      "Maximum call depth exceeded (" ++ Text.decimal limit ++ ")"
  | valueStackOverflow => "Value stack overflow"
  | raised text => text
  | instrument cause => "Rewrite error: " ++ cause.message

/-- The text of the error behind this one. -/
def causeMessage? : RunError → Option String
  | decode cause => some cause.message
  | instrument cause => some cause.message
  | _ => none

end RunError

end CallDecoration
