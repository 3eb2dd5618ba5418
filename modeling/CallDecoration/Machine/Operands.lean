/-
  CallDecoration.Machine.Operands
  ──────────────────────────────────────
  **From the operands of a call to its arguments.**  The operands are read
  bottom to top.  Keyword names have to be strings, and no name may come
  twice, be it spelled out or in the dictionary.
-/
import CallDecoration.Error
import CallDecoration.Value.Display

namespace CallDecoration

/-- Adds a keyword argument, unless there is one of that name. -/
def addKeyword (callee : Value) (keyword : Dict String Value) (name : String)
    (value : Value) : Except RunError (Dict String Value) :=
  if Dict.contains keyword name then
    .error (.badArguments callee.display (.repeatedKeyword name))
  else .ok (Dict.set keyword name value)

/-- Adds the next `count` pairs of name and value; gives the operands that are
left. -/
def takeKeywords (callee : Value) :
    (count : Nat) → Dict String Value → List Value →
      Except RunError (Dict String Value × List Value)
  | 0, keyword, operands => .ok (keyword, operands)
  | count + 1, keyword, name :: value :: operands =>
      match name with
      | .str name => do
          let keyword ← addKeyword callee keyword name value
          takeKeywords callee count keyword operands
      | other => .error (.typeMismatch [.str] other.kind)
  | _ + 1, _, _ => .error .stackUnderflow

/-- Takes the tuple of further positional arguments, if the shape has one. -/
def takeTuple (present : Bool) (operands : List Value) :
    Except RunError (List Value × List Value) :=
  if present then
    match operands with
    | .tuple items :: rest => .ok (items, rest)
    | other :: _ => .error (.typeMismatch [.tuple] other.kind)
    | [] => .error .stackUnderflow
  else .ok ([], operands)

/-- Adds entries as keyword arguments, in order. -/
def addEntries (callee : Value) (keyword : Dict String Value) :
    List (String × Value) → Except RunError (Dict String Value)
  | [] => .ok keyword
  | (name, value) :: rest => do
      let keyword ← addKeyword callee keyword name value
      addEntries callee keyword rest

/-- Adds the dictionary of further keyword arguments, if the shape has one. -/
def takeDict (callee : Value) (present : Bool) (keyword : Dict String Value)
    (operands : List Value) : Except RunError (Dict String Value) :=
  if present then
    match operands with
    | .dict entries :: _ => addEntries callee keyword entries
    | other :: _ => .error (.typeMismatch [.dict] other.kind)
    | [] => .error .stackUnderflow
  else .ok keyword

/-- **The arguments that the operands of a call describe.** -/
def collectArgs (callee : Value) (shape : CallShape) (operands : List Value) :
    Except RunError CallArgs := do
  let explicit := operands.take shape.positional.toNat
  let operands := operands.drop shape.positional.toNat
  let (keyword, operands) ← takeKeywords callee shape.keyword.toNat [] operands
  let (further, operands) ← takeTuple shape.varPositional operands
  let keyword ← takeDict callee shape.varKeyword keyword operands
  return ⟨explicit ++ further, keyword⟩

end CallDecoration
