/-
  CallDecoration.Signature
  ──────────────────────────────────────
  **Declared parameters.**  Parameters take the first local slots of a body,
  in this order: positional, keyword-only, the one that collects surplus
  positional arguments, the one that collects surplus keyword arguments.
-/

namespace CallDecoration

/-- The declared parameters of a body. -/
structure Signature where
  /-- Names of the positional parameters. -/
  positional : List String
  /-- Names of the parameters that are given by keyword only. -/
  keywordOnly : List String
  /-- Name of the parameter that collects surplus positional arguments. -/
  varPositional : Option String
  /-- Name of the parameter that collects surplus keyword arguments. -/
  varKeyword : Option String
  deriving DecidableEq, Repr

namespace Signature

/-- The signature without parameters. -/
def none : Signature :=
  ⟨[], [], .none, .none⟩

/-- How many local slots the parameters take. -/
def slots (sig : Signature) : Nat :=
  sig.positional.length + sig.keywordOnly.length
    + sig.varPositional.isSome.toNat + sig.varKeyword.isSome.toNat

/-- The slot of the first parameter called `name` that can be given by
keyword. -/
def keywordSlot? (sig : Signature) (name : String) : Option Nat :=
  (sig.positional ++ sig.keywordOnly).findIdx? (· == name)

end Signature

end CallDecoration
