/-
  CallDecoration.Value.Basic
  ──────────────────────────────────────
  **Runtime values.**  Data (nil, booleans, integers, strings, tuples,
  dictionaries) is given by its contents.  Functions, host functions and bound
  methods are immutable, so a value holds them whole; each carries the number
  under which it was made, which is its identity.  A module is a reference to
  a scope, whose bindings live in the world.
-/
import CallDecoration.Bytecode.Chunk
import CallDecoration.Dict

namespace CallDecoration

/-! ## §1. Identities. -/

/-- The identity of a function; functions are numbered from 1 as they are
made, and a number is never used twice. -/
structure FunctionId where
  number : Nat
  deriving DecidableEq, Repr

/-- The identity of a host function or a bound method. -/
structure ObjectId where
  number : Nat
  deriving DecidableEq, Repr

/-- The identity of a scope. -/
structure ScopeId where
  number : Nat
  deriving DecidableEq, Repr

/-- The identity of a registry of histories. -/
structure RegistryId where
  number : Nat
  deriving DecidableEq, Repr

/-- A scope, by its identity and its name. -/
structure ScopeRef where
  id : ScopeId
  name : String
  deriving DecidableEq, Repr

/-! ## §2. Kinds and type objects. -/

/-- The kinds of values. -/
inductive Kind where
  | nil
  | bool
  | int
  | str
  | tuple
  | dict
  | function
  | native
  | type
  | method
  | module
  deriving DecidableEq, Repr

/-- The name of a kind, as messages use it. -/
def Kind.name : Kind → String
  | nil => "nil"
  | bool => "bool"
  | int => "int"
  | str => "str"
  | tuple => "tuple"
  | dict => "dict"
  | function => "function"
  | native => "builtin_function"
  | type => "type"
  | method => "method"
  | module => "module"

/-- The types that can be called to construct values. -/
inductive TypeObject where
  | bool
  | int
  | str
  | tuple
  | dict
  deriving DecidableEq, Repr

/-- The name of a type. -/
def TypeObject.name : TypeObject → String
  | bool => "bool"
  | int => "int"
  | str => "str"
  | tuple => "tuple"
  | dict => "dict"

/-! ## §3. Callables, over the type of values. -/

/-- An entry of a capture table. -/
structure Capture (V : Type) where
  name : String
  value : V

/-- A bytecode function. -/
structure Function (V : Type) where
  id : FunctionId
  name : String
  body : Chunk V
  /-- The scope in which the body resolves its free names. -/
  scope : ScopeRef
  /-- Defaults of the trailing positional parameters. -/
  defaults : List V
  /-- Defaults of keyword-only parameters. -/
  kwDefaults : List (String × V)
  captures : Array (Capture V)

/-- A transformation with the extra arguments it is registered with.  With
extra arguments it is a factory: calling it with them once gives the wrapper
that is applied to functions.  Without, it is the wrapper itself. -/
structure Adapter (V : Type) where
  transformation : V
  extras : List V
  kwExtras : List (String × V)
  /-- The wrapper, once it has been resolved. -/
  wrapper? : Option V

/-- What a host function does when it is called. -/
inductive NativeRole (V : Type) where
  /-- Behaves as the host defines it. -/
  | host
  /-- Turns a transformation and its extra arguments into a decorator that
  uses the registry. -/
  | entryPoint (registry : RegistryId)
  /-- Decorates its single argument. -/
  | decorator (registry : RegistryId) (adapter : Adapter V)

/-- A host function. -/
structure Native (V : Type) where
  id : ObjectId
  name : String
  role : NativeRole V

/-- A function whose first argument is fixed. -/
structure BoundMethod (V : Type) where
  id : ObjectId
  receiver : V
  function : Function V

/-! ## §4. Values. -/

/-- A runtime value. -/
inductive Value where
  | nil
  | bool (b : Bool)
  | int (n : Int64)
  | str (s : String)
  | tuple (items : List Value)
  | dict (entries : List (String × Value))
  | function (f : Function Value)
  | native (n : Native Value)
  | type (t : TypeObject)
  | method (m : BoundMethod Value)
  | module (scope : ScopeRef)

instance : Inhabited Value := ⟨.nil⟩

namespace Value

/-- The kind of a value. -/
def kind : Value → Kind
  | nil => .nil
  | bool _ => .bool
  | int _ => .int
  | str _ => .str
  | tuple _ => .tuple
  | dict _ => .dict
  | function _ => .function
  | native _ => .native
  | type _ => .type
  | method _ => .method
  | module _ => .module

/-- Whether a value counts as true.  Nil, zero and whatever is empty count as
false; callables and modules count as true. -/
def isTruthy : Value → Bool
  | nil => false
  | bool b => b
  | int n => n != 0
  | str s => !s.isEmpty
  | tuple items => !items.isEmpty
  | dict entries => !entries.isEmpty
  | _ => true

/-- Whether a value can be called. -/
def isCallable : Value → Bool
  | function _ | native _ | type _ | method _ => true
  | _ => false

/-- The name under which a transformation is known: of a callable its own
name, of any other value the name of its kind. -/
def transformationName : Value → String
  | function f => f.name
  | native n => n.name
  | method m => m.function.name
  | type t => t.name
  | v => v.kind.name

end Value

/-! ## §5. Arguments. -/

/-- The arguments of one call. -/
structure CallArgs where
  positional : List Value
  keyword : Dict String Value

namespace CallArgs

/-- No arguments. -/
def none : CallArgs :=
  ⟨[], []⟩

/-- A single positional argument. -/
def one (value : Value) : CallArgs :=
  ⟨[value], []⟩

/-- The arguments with a receiver put first. -/
def withReceiver (receiver : Value) (args : CallArgs) : CallArgs :=
  ⟨receiver :: args.positional, args.keyword⟩

end CallArgs

end CallDecoration
