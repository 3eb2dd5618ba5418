/-
  CallDecoration.Machine.World
  ──────────────────────────────────────
  **The world outside the stacks of a machine.**  It holds the bindings of
  every scope, every registry of histories, the next free identities, which
  functions are gone, and a state of the host's own.
-/
import CallDecoration.Decoration.Registry

namespace CallDecoration

/-- Scopes, registries, identities and the state `σ` of the host. -/
structure World (σ : Type) where
  /-- The bindings of each scope; a scope without an entry has none. -/
  scopes : Dict ScopeId (Dict String Value)
  /-- The registries; one without an entry is empty. -/
  registries : Dict RegistryId Registry
  /-- The functions that are gone. -/
  dropped : List FunctionId
  nextFunction : Nat
  nextObject : Nat
  nextScope : Nat
  nextRegistry : Nat
  host : σ

namespace World

variable {σ : Type}

/-- A world in which nothing has been made; functions are numbered from 1. -/
def new (host : σ) : World σ :=
  ⟨[], [], [], 1, 0, 0, 0, host⟩

/-! ## §1. Identities. -/

/-- The identity of the next function. -/
def freshFunction (w : World σ) : FunctionId × World σ :=
  (⟨w.nextFunction⟩, { w with nextFunction := w.nextFunction + 1 })

/-- The identity of the next host function or bound method. -/
def freshObject (w : World σ) : ObjectId × World σ :=
  (⟨w.nextObject⟩, { w with nextObject := w.nextObject + 1 })

/-- A new scope without bindings. -/
def newScope (name : String) (w : World σ) : ScopeRef × World σ :=
  (⟨⟨w.nextScope⟩, name⟩, { w with nextScope := w.nextScope + 1 })

/-- A new registry without entries. -/
def newRegistry (w : World σ) : RegistryId × World σ :=
  (⟨w.nextRegistry⟩, { w with nextRegistry := w.nextRegistry + 1 })

/-- A new host function. -/
def newNative (name : String) (role : NativeRole Value) (w : World σ) : Value × World σ :=
  let (id, w) := w.freshObject
  (.native ⟨id, name, role⟩, w)

/-- A new bound method. -/
def newMethod (receiver : Value) (f : Function Value) (w : World σ) : Value × World σ :=
  let (id, w) := w.freshObject
  (.method ⟨id, receiver, f⟩, w)

/-- A function is gone. -/
def drop (f : FunctionId) (w : World σ) : World σ :=
  { w with dropped := f :: w.dropped }

/-- Whether a function is alive. -/
def isLive (w : World σ) (f : FunctionId) : Bool :=
  !w.dropped.contains f

/-! ## §2. Scopes. -/

/-- The bindings of a scope. -/
def bindings (w : World σ) (scope : ScopeId) : Dict String Value :=
  (Dict.get? w.scopes scope).getD []

/-- Gives a scope other bindings. -/
def setBindings (scope : ScopeId) (bound : Dict String Value) (w : World σ) : World σ :=
  { w with scopes := Dict.set w.scopes scope bound }

/-- The value bound to a name. -/
def lookup (w : World σ) (scope : ScopeId) (name : String) : Option Value :=
  Dict.get? (w.bindings scope) name

/-- Binds a name, in place of an earlier binding. -/
def bind (scope : ScopeId) (name : String) (value : Value) (w : World σ) : World σ :=
  w.setBindings scope (Dict.set (w.bindings scope) name value)

/-- Removes a binding. -/
def unbind (scope : ScopeId) (name : String) (w : World σ) : World σ :=
  w.setBindings scope (Dict.erase (w.bindings scope) name)

/-- Removes every binding of a scope. -/
def clear (scope : ScopeId) (w : World σ) : World σ :=
  w.setBindings scope []

/-- The bindings of a scope, sorted by name. -/
def sortedBindings (w : World σ) (scope : ScopeId) : List (String × Value) :=
  (w.bindings scope).mergeSort fun a b => decide (a.1 ≤ b.1)

/-- The bound names of a scope, sorted. -/
def names (w : World σ) (scope : ScopeId) : List String :=
  (w.sortedBindings scope).map Prod.fst

/-! ## §3. Registries. -/

/-- The contents of a registry. -/
def registry (w : World σ) (id : RegistryId) : Registry :=
  (Dict.get? w.registries id).getD .empty

/-- Gives a registry other contents. -/
def setRegistry (id : RegistryId) (r : Registry) (w : World σ) : World σ :=
  { w with registries := Dict.set w.registries id r }

/-- Records the history of a function and gives the one recorded before. -/
def recordHistory (id : RegistryId) (f : FunctionId) (h : History) (w : World σ) :
    Option History × World σ :=
  let (previous, r) := (w.registry id).record w.isLive f h
  (previous, w.setRegistry id r)

/-- Removes the entries of functions that are gone. -/
def pruneRegistry (id : RegistryId) (w : World σ) : Nat × World σ :=
  let (removed, r) := (w.registry id).prune w.isLive
  (removed, w.setRegistry id r)

end World

end CallDecoration
