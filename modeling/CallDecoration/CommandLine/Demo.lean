/-
  CallDecoration.CommandLine.Demo
  ──────────────────────────────────────
  **The demonstration.**  A chain of functions, each of which calls the next
  and the last of which answers the length of the chain, is decorated at its
  first link with a transformation that counts what it is applied to, and then
  called.
-/
import CallDecoration.Bytecode.Builder
import CallDecoration.Function.Listing
import CallDecoration.Machine.Step

namespace CallDecoration.Demo

/-! ## §1. The chain. -/

/-- The name of a link. -/
def linkName (index : Nat) : String :=
  "link_" ++ Text.decimal index

/-- The code of a link: it calls the next one, or answers the length if it is
the last. -/
def linkCode (depth index : Nat) : Builder Value :=
  let fresh : Builder Value := Builder.new (linkName index)
  let answering :=
    if index + 1 < depth then
      (fresh.emitLoadGlobal (linkName (index + 1))).emit (.call (CallShape.plain 0))
    else fresh.emit (.pushSmall (Int8.ofNat depth))
  answering.emit .return

/-- The body of a link: what its code builds. -/
def linkBody (depth index : Nat) : Chunk Value :=
  let b := linkCode depth index
  ⟨b.name, b.code, b.constants, b.names, b.signature, b.localCount⟩

/-- Makes a link and binds it in its scope. -/
def addLink {σ : Type} (scope : ScopeRef) (depth index : Nat) (w : World σ) : World σ :=
  let (id, w) := w.freshFunction
  let f : Function Value :=
    ⟨id, linkName index, linkBody depth index, scope, [], [], #[]⟩
  w.bind scope.id f.name (.function f)

/-- Makes all links of a chain, the first link first. -/
def addLinks {σ : Type} (scope : ScopeRef) (depth : Nat) (w : World σ) : World σ :=
  (List.range depth).foldl (fun w index => addLink scope depth index w) w

/-! ## §2. The counting transformation. -/

/-- The name of the transformation. -/
def counterName : String := "count_calls"

/-- The host of the demonstration: its one function answers its first argument
and notes the name of it.  The names noted so far are the state. -/
def host : Host (List String) := fun _ args => do
  let target := args.positional.head?.getD .nil
  let _ ← Action.change fun w =>
    ((), { w with host := w.host ++ [target.transformationName] })
  return target

/-- The line about one application, counted from 1. -/
def applicationLine (index : Nat) (name : String) : String :=
  "  [" ++ Text.decimal (index + 1) ++ "] wrapping " ++ name ++ "\n"

/-- The lines about the applications from number `start` on. -/
def applicationLines (start : Nat) (names : List String) : String :=
  String.join ((names.drop start).mapIdx fun i name => applicationLine (start + i) name)

/-! ## §3. The two calls. -/

/-- What the demonstration begins with: the machine, the decorator, the first
link and the registry. -/
structure Setup where
  machine : Machine (List String)
  decorator : Value
  entry : Value
  registry : RegistryId

/-- Sets up a chain of `depth` links. -/
def setup (settings : Settings) (depth : Nat) : Setup :=
  let (scope, w) := (World.new ([] : List String)).newScope "demo"
  let w := addLinks scope depth w
  let entry := (w.lookup scope.id (linkName 0)).getD .nil
  let (counter, w) := w.newNative counterName .host
  let (registry, w) := w.newRegistry
  let (decorator, w) := w.newDecorator registry counter [] []
  ⟨Machine.new settings w, decorator, entry, registry⟩

/-- More steps than a chain of `depth` links takes. -/
def fuel (depth : Nat) : Nat :=
  1000 * (depth + 1)

/-- Calls a value on a machine. -/
def call (depth : Nat) (m : Machine (List String)) (callee : Value) (args : CallArgs) :
    Option (Except RunError Value × Machine (List String)) :=
  (RunState.ofCall host m callee args).run host (fuel depth)

/-! ## §4. The report. -/

/-- What a program leaves: its exit code and its two outputs. -/
structure Output where
  code : Nat
  stdout : String
  stderr : String
  deriving DecidableEq, Repr

/-- The output of a demonstration that ended with an error. -/
def failed (stdout : String) (e : RunError) : Output :=
  ⟨1, stdout, "Error: " ++ e.message ++ "\n"⟩

/-- The output of a demonstration that took more steps than it may. -/
def unfinished (stdout : String) : Output :=
  ⟨1, stdout, "Error: too many steps\n"⟩

/-- The listing of the decorated function, if it is asked for. -/
def listingText (disassemble : Bool) (decorated : Value) : String :=
  match disassemble, decorated with
  | true, .function f => "\n" ++ f.disassemble ++ "\n"
  | _, _ => ""

/-- The lines about the result. -/
def resultLines (registry : RegistryId) (decorated result : Value)
    (w : World (List String)) : String :=
  let history :=
    match decorated with
    | .function f => (w.registry registry).historyOf f.id
    | _ => .empty
  "\nresult:       " ++ result.display
    ++ "\napplications: " ++ Text.decimal w.host.length
    ++ "\nhistory:      " ++ history.display ++ "\n"

/-- The second call: the decorated first link is called. -/
def runDecorated (depth : Nat) (registry : RegistryId) (stdout : String)
    (decorated : Value) (m : Machine (List String)) : Output :=
  let before := m.world.host.length
  match call depth m decorated .none with
  | none => unfinished stdout
  | some (answer, m) =>
      let stdout := stdout ++ applicationLines before m.world.host
      match answer with
      | .error e => failed stdout e
      | .ok result => ⟨0, stdout ++ resultLines registry decorated result m.world, ""⟩

/-- **Runs the demonstration.** -/
def run (settings : Settings) (depth : Nat) (disassemble : Bool) : Output :=
  let s := setup settings depth
  let stdout := "Decorating " ++ linkName 0 ++ ":\n"
  match call depth s.machine s.decorator (CallArgs.one s.entry) with
  | none => unfinished stdout
  | some (answer, m) =>
      let stdout := stdout ++ applicationLines 0 m.world.host
      match answer with
      | .error e => failed stdout e
      | .ok decorated =>
          let stdout := stdout ++ listingText disassemble decorated
            ++ "Running " ++ linkName 0 ++ ":\n"
          runDecorated depth s.registry stdout decorated m

end CallDecoration.Demo
