/-
  CallDecoration.Decoration.Decorate
  ──────────────────────────────────────
  **Decorating a function recursively.**  Decorating makes an instrumented
  copy of the function, in which every call first decorates its callee in the
  same way, and applies the wrapper to the copy.  So transformations follow
  the calls that are really made.  A function that carries the transformation
  already, and a value that is not a function, comes back as it is.
-/
import CallDecoration.Decoration.Adapter
import CallDecoration.Instrumentation.Pass
import CallDecoration.Function.Binding

namespace CallDecoration

variable {σ : Type}

/-- The name of the entry point, as a host function and in capture tables. -/
def entryPointName : String := "apply_recursive"

/-! ## §1. The instrumented copy. -/

/-- The capture slots that an instrumented copy of a function uses: the two
behind its own captures, if both have a 16-bit index. -/
def Function.freshSlots? (f : Function Value) : Option CaptureSlots :=
  if f.captures.size + 1 ≤ 65535 then
    some ⟨UInt16.ofNat f.captures.size, UInt16.ofNat (f.captures.size + 1)⟩
  else none

/-- The body of an instrumented copy of a function, with the function's own
signature. -/
def Function.instrumentedBody (f : Function Value) :
    Except InstrumentError (Chunk Value) :=
  match f.freshSlots? with
  | none => .error (.tooManyCaptures (f.captures.size + 2))
  | some slots =>
      (f.body.instrument slots).outcome.map fun body => body.withSignature f.signature

/-- A copy of a function with another identity, another body, and the entry
point and the adapter behind its captures. -/
def Function.copyWith (f : Function Value) (id : FunctionId) (body : Chunk Value)
    (entry : Value) (a : Adapter Value) : Function Value :=
  { f with
    id := id
    body := body
    captures := (f.captures.push ⟨entryPointName, entry⟩).push ⟨a.bindingName, a.asTuple⟩ }

/-- A new host function that is the entry point for a registry. -/
def World.newEntryPoint (registry : RegistryId) (w : World σ) : Value × World σ :=
  w.newNative entryPointName (.entryPoint registry)

/-- A new decorator for a registry, under the transformation's name. -/
def World.newDecorator (registry : RegistryId) (transformation : Value)
    (extras : List Value) (kwExtras : Dict String Value) (w : World σ) : Value × World σ :=
  w.newNative transformation.transformationName
    (.decorator registry (Adapter.new transformation extras kwExtras))

/-- **The instrumented copy of a function.**  If the body cannot be
instrumented, no identity is used up. -/
def Function.instrument (registry : RegistryId) (a : Adapter Value) (f : Function Value) :
    Action σ (Function Value) :=
  match f.instrumentedBody with
  | .error e => Action.fail (.instrument e)
  | .ok body => do
      let entry ← Action.change (World.newEntryPoint registry)
      let id ← Action.change World.freshFunction
      return f.copyWith id body entry a

/-! ## §2. Decorating. -/

/-- Decorates an eligible function.  The history it gets is its own, as it is
before the wrapper runs, extended by the transformation; it is recorded for
whatever function the wrapper answers. -/
def decorateFunction (registry : RegistryId) (f : Function Value) (a : Adapter Value) :
    Action σ Value := do
  let copy ← f.instrument registry a
  let world ← Action.world
  let history := ((world.registry registry).historyOf f.id).extend a.identifier
  let wrapper ← a.resolve
  let result ← Action.callValue wrapper (CallArgs.one (.function copy))
  match result with
  | .function wrapped => do
      let _ ← Action.change (World.recordHistory registry wrapped.id history)
      return result
  | _ => return result

/-- **Decorates a value,** if it is eligible. -/
def decorate (registry : RegistryId) (target : Value) (a : Adapter Value) :
    Action σ Value := do
  let world ← Action.world
  if (world.registry registry).isEligible target a.identifier then
    match target with
    | .function f => decorateFunction registry f a
    | _ => return target
  else return target

/-! ## §3. The library's own host functions. -/

/-- What the entry point does: its first argument is the transformation, the
others are extra arguments, and the answer is the decorator. -/
def enterDecoration (registry : RegistryId) (args : CallArgs) : Action σ Value :=
  match args.positional with
  | [] => Action.fail (.badArguments entryPointName .missingTransformation)
  | transformation :: extras =>
      Action.change (World.newDecorator registry transformation extras args.keyword)

/-- What a decorator does: it decorates its single argument. -/
def applyDecorator (name : String) (registry : RegistryId) (a : Adapter Value)
    (args : CallArgs) : Action σ Value :=
  match args.positional, args.keyword with
  | [target], [] => decorate registry target a
  | _, _ =>
      Action.fail (.badArguments name
        (.exactlyOne (args.positional.length + args.keyword.length)))

/-- What each host function of the host's own does. -/
abbrev Host (σ : Type) := ObjectId → CallArgs → Action σ Value

/-- **What a call of a host function does.** -/
def Native.respond (host : Host σ) (n : Native Value) (args : CallArgs) : Action σ Value :=
  match n.role with
  | .host => host n.id args
  | .entryPoint registry => enterDecoration registry args
  | .decorator registry a => applyDecorator n.name registry a args

end CallDecoration
