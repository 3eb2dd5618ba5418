/-
  CallDecoration.Value.Equality
  ──────────────────────────────────────
  **Equality of values.**  Data is equal when its contents are: tuples item
  by item, dictionaries when they have the same keys with equal values, in
  whatever order.  Callables and modules are equal when they are the same
  object.  Values of different kinds are never equal.
-/
import CallDecoration.Value.Basic

namespace CallDecoration

/-- Whether every key of `d` is a key of `e`. -/
def Dict.keysWithin {κ ν ρ : Type} [DecidableEq κ] (d : Dict κ ν) (e : Dict κ ρ) : Bool :=
  d.all fun entry => Dict.contains e entry.1

namespace Value

mutual

/-- Whether two values are equal. -/
def equal : Value → Value → Bool
  | nil, nil => true
  | bool a, bool b => a == b
  | int a, int b => a == b
  | str a, str b => a == b
  | tuple a, tuple b => itemsEqual a b
  | dict a, dict b => entriesEqual [] a b && Dict.keysWithin b a
  | function f, function g => f.id == g.id
  | native m, native n => m.id == n.id
  | type a, type b => a == b
  | method m, method n => m.id == n.id
  | module a, module b => a.id == b.id
  | _, _ => false

/-- Whether two lists are equal item by item. -/
def itemsEqual : List Value → List Value → Bool
  | [], [] => true
  | a :: as, b :: bs => equal a b && itemsEqual as bs
  | _, _ => false

/-- Whether every entry of the first list whose key is not in `seen`, and does
not occur earlier in the list, has an equal value in the second. -/
def entriesEqual (seen : List String) :
    List (String × Value) → List (String × Value) → Bool
  | [], _ => true
  | (key, value) :: rest, others =>
      (seen.contains key ||
        match Dict.get? others key with
        | some other => equal value other
        | none => false)
      && entriesEqual (key :: seen) rest others

end

instance : BEq Value := ⟨equal⟩

end Value

end CallDecoration
