/-
  CallDecoration.Decoration.Adapter
  ──────────────────────────────────────
  **Adapters: a transformation with its extra arguments.**  Resolving an
  adapter gives the one-argument wrapper that is applied to functions.  A
  resolved wrapper is kept; a failed resolution leaves nothing behind.
-/
import CallDecoration.Machine.Action

namespace CallDecoration.Adapter

variable {σ : Type}

/-- An adapter that has not been resolved. -/
def new (transformation : Value) (extras : List Value) (kwExtras : Dict String Value) :
    Adapter Value :=
  ⟨transformation, extras, kwExtras, none⟩

/-- The name that histories record. -/
def identifier (a : Adapter Value) : String :=
  a.transformation.transformationName

/-- The name of the adapter's entry in a capture table. -/
def bindingName (a : Adapter Value) : String :=
  a.identifier ++ "_adapter"

/-- Whether there are extra arguments of either sort. -/
def hasExtras (a : Adapter Value) : Bool :=
  !a.extras.isEmpty || !a.kwExtras.isEmpty

/-- **Transformation, extras and extra keywords as one value,** which
instrumented calls unpack. -/
def asTuple (a : Adapter Value) : Value :=
  .tuple [a.transformation, .tuple a.extras, .dict a.kwExtras]

/-- **The wrapper:** the one kept from before, else the transformation itself
without extras, else what the transformation answers to them. -/
def resolve (a : Adapter Value) : Action σ Value :=
  match a.wrapper? with
  | some wrapper => pure wrapper
  | none =>
      if a.hasExtras then Action.callValue a.transformation ⟨a.extras, a.kwExtras⟩
      else pure a.transformation

/-- The adapter with its wrapper kept, unless one was kept before. -/
def keep (wrapper : Value) (a : Adapter Value) : Adapter Value :=
  { a with wrapper? := some (a.wrapper?.getD wrapper) }

/-- The adapter after a resolution with this answer: a failure changes
nothing. -/
def afterResolve (a : Adapter Value) : Except RunError Value → Adapter Value
  | .ok wrapper => a.keep wrapper
  | .error _ => a

end CallDecoration.Adapter
