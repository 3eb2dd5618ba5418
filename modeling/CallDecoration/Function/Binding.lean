/-
  CallDecoration.Function.Binding
  ──────────────────────────────────────
  **Binding the arguments of a call to parameters.**  A parameter takes the
  positional argument at its place, else the keyword argument of its name,
  else its default.  Surplus arguments go to the collecting parameters if
  there are such.  The first fault is reported in this order: too many
  positional arguments, keywords in the order of the call, positional
  parameters without a value, keyword-only parameters without a value.
-/
import CallDecoration.Error

namespace CallDecoration.Function

variable (f : Function Value) (args : CallArgs)

/-- The declared parameters. -/
abbrev signature : Signature :=
  f.body.signature

/-! ## §1. Faults of the call itself. -/

/-- What is wrong with one keyword argument: the parameter it names has been
given by position, or there is no such parameter and nothing collects
keywords. -/
def keywordProblem? (name : String) : Option ArgumentProblem :=
  match f.signature.keywordSlot? name with
  | some slot =>
      if slot < f.signature.positional.length ∧ slot < args.positional.length then
        some (.multipleValues name)
      else none
  | none =>
      if f.signature.varKeyword.isSome then none else some (.unexpectedKeyword name)

/-- The first thing wrong with the arguments, whatever the parameters lack. -/
def callProblem? : Option ArgumentProblem :=
  if f.signature.positional.length < args.positional.length
      ∧ f.signature.varPositional = none then
    some (.tooManyPositional f.signature.positional.length args.positional.length)
  else args.keyword.findSome? fun entry => f.keywordProblem? args entry.1

/-! ## §2. The value of a parameter. -/

/-- The keyword argument that belongs to the parameter `name` in `slot`.  Of
two parameters with one name the first takes it. -/
def keywordFor? (slot : Nat) (name : String) : Option Value :=
  if f.signature.keywordSlot? name = some slot then Dict.get? args.keyword name else none

/-- The default of a positional parameter: defaults belong to the trailing
ones. -/
def defaultFor? (slot : Nat) : Option Value :=
  let first := f.signature.positional.length - f.defaults.length
  if first ≤ slot then f.defaults[slot - first]? else none

/-- The values of the positional parameters `names`, which begin at `slot`. -/
def positionalValues (slot : Nat) :
    (names : List String) → Except ArgumentProblem (List Value)
  | [] => .ok []
  | name :: rest =>
      match args.positional[slot]? <|> f.keywordFor? args slot name <|> f.defaultFor? slot with
      | none => .error (.missingPositional name)
      | some value => (positionalValues (slot + 1) rest).map (value :: ·)

/-- The values of the keyword-only parameters `names`, which begin at
`slot`. -/
def keywordOnlyValues (slot : Nat) :
    (names : List String) → Except ArgumentProblem (List Value)
  | [] => .ok []
  | name :: rest =>
      match f.keywordFor? args slot name <|> Dict.get? f.kwDefaults name with
      | none => .error (.missingKeywordOnly name)
      | some value => (keywordOnlyValues (slot + 1) rest).map (value :: ·)

/-- The values of the collecting parameters: the positional arguments beyond
the parameters, and the keywords that name none. -/
def collectedValues : List Value :=
  (if f.signature.varPositional.isSome then
    [.tuple (args.positional.drop f.signature.positional.length)] else [])
  ++ (if f.signature.varKeyword.isSome then
    [.dict (args.keyword.filter fun entry =>
      (f.signature.keywordSlot? entry.1).isNone)] else [])

/-! ## §3. The local slots of a new frame. -/

/-- The values of all parameters, in slot order. -/
def parameterValues : Except ArgumentProblem (List Value) :=
  match f.callProblem? args with
  | some problem => .error problem
  | none => do
      let positional ← f.positionalValues args 0 f.signature.positional
      let keywordOnly ←
        f.keywordOnlyValues args f.signature.positional.length f.signature.keywordOnly
      return positional ++ keywordOnly ++ f.collectedValues args

/-- **The local slots with which a call begins:** the parameters, and nil in
every further slot of the body. -/
def bindArguments : Except RunError (Array Value) :=
  match f.parameterValues args with
  | .error problem => .error (.badArguments f.name problem)
  | .ok values =>
      .ok (values ++ List.replicate (f.body.localCount - values.length) Value.nil).toArray

end CallDecoration.Function
