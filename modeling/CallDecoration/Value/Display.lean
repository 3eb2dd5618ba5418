/-
  CallDecoration.Value.Display
  ──────────────────────────────────────
  **Values as text.**  Strings are quoted, a tuple of one item keeps a comma,
  a dictionary lists its entries in order, and a callable shows what it is and
  its name; a function also shows its number.
-/
import CallDecoration.Value.Basic
import CallDecoration.Text.Quoted

namespace CallDecoration.Value

mutual

/-- The text of a value. -/
def display : Value → String
  | nil => "nil"
  | bool b => if b then "true" else "false"
  | int n => Text.decimal n.toInt
  | str s => Text.quote s
  | tuple items =>
      match items with
      | [item] => "(" ++ display item ++ ",)"
      | items => "(" ++ String.intercalate ", " (displayItems items) ++ ")"
  | dict entries =>
      "\x7b" ++ String.intercalate ", " (displayEntries entries) ++ "\x7d"
  | function f =>
      "<function " ++ f.name ++ " #" ++ Text.decimal f.id.number ++ ">"
  | native n => "<built-in function " ++ n.name ++ ">"
  | type t => "<type " ++ t.name ++ ">"
  | method m => "<bound method " ++ m.function.name ++ ">"
  | module scope => "<module " ++ scope.name ++ ">"

/-- The texts of the items of a tuple. -/
def displayItems : List Value → List String
  | [] => []
  | item :: rest => display item :: displayItems rest

/-- The texts of the entries of a dictionary. -/
def displayEntries : List (String × Value) → List String
  | [] => []
  | (key, value) :: rest =>
      (Text.quote key ++ ": " ++ display value) :: displayEntries rest

end

end CallDecoration.Value
