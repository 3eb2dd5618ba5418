/-
  CallDecoration.Bytecode.Assembly
  ──────────────────────────────────────
  **Symbolic code.**  An assembly lists instructions together with constants,
  names and labels.  A jump to a label that has been placed is emitted as it
  is; a jump to one still to come stays open and is patched where the label is
  placed.
-/
import CallDecoration.Bytecode.Builder
import CallDecoration.Dict

namespace CallDecoration

/-- One item of symbolic code. -/
inductive CodeItem (V : Type) where
  /-- An instruction as it stands. -/
  | instruction (i : Instruction)
  /-- A constant, pushed. -/
  | pushed (value : V)
  /-- A constant that is only put into the pool. -/
  | pooled (value : V)
  | loadGlobal (name : String)
  | storeGlobal (name : String)
  /-- A name that is only put into the table. -/
  | named (name : String)
  | raw (bytes : List UInt8)
  | label (name : String)
  /-- A jump to a label, taken always or on a false value. -/
  | goto (onFalse : Bool) (name : String)
  | repeated (count : Nat) (items : List (CodeItem V))

/-- A body in symbolic form. -/
structure Assembly (V : Type) where
  name : String
  signature : Option Signature
  locals : Nat
  items : List (CodeItem V)

/-- The builder with the labels placed so far and the jumps that wait for the
others. -/
structure Assembler (V : Type) where
  builder : Builder V
  placed : Dict String Nat
  waiting : List (String × JumpLabel)

namespace Assembler

variable {V : Type}

/-- Applies `f` to the builder. -/
def onBuilder (f : Builder V → Builder V) (a : Assembler V) : Assembler V :=
  { a with builder := f a.builder }

/-- Places a label here: the jumps that wait for it land here. -/
def place (name : String) (a : Assembler V) : Assembler V :=
  let landing := a.waiting.filter (·.1 == name)
  { builder := landing.foldl (fun b entry => b.patchJump entry.2) a.builder
    placed := Dict.set a.placed name a.builder.offset
    waiting := a.waiting.filter (·.1 != name) }

/-- Emits a jump to a label. -/
def goto (onFalse : Bool) (name : String) (a : Assembler V) : Assembler V :=
  match Dict.get? a.placed name with
  | some target =>
      a.onBuilder (·.emit (if onFalse then .jumpIfFalse target else .jump target))
  | none =>
      let (label, b) := a.builder.emitJump (if onFalse then .jumpIfFalse else .jump)
      { a with builder := b, waiting := a.waiting ++ [(name, label)] }

mutual

/-- Emits one item. -/
def emit [BEq V] (item : CodeItem V) (a : Assembler V) : Assembler V :=
  match item with
  | .instruction i => a.onBuilder (·.emit i)
  | .pushed value => a.onBuilder (·.emitConstant value)
  | .pooled value => a.onBuilder fun b => (b.addConstant value).2
  | .loadGlobal name => a.onBuilder (·.emitLoadGlobal name)
  | .storeGlobal name => a.onBuilder (·.emitStoreGlobal name)
  | .named name => a.onBuilder fun b => (b.addName name).2
  | .raw bytes => a.onBuilder (·.emitRaw bytes)
  | .label name => a.place name
  | .goto onFalse name => a.goto onFalse name
  | .repeated count items => Nat.repeat (emitAll items) count a

/-- Emits items in order. -/
def emitAll [BEq V] (items : List (CodeItem V)) (a : Assembler V) : Assembler V :=
  match items with
  | [] => a
  | item :: rest => emitAll rest (emit item a)

end

end Assembler

/-- **Assembles a body into a chunk.** -/
def Assembly.build {V : Type} [BEq V] (source : Assembly V) :
    Except BuildError (Chunk V) :=
  let fresh : Builder V := Builder.new source.name
  let declared :=
    match source.signature with
    | some sig => fresh.setSignature sig
    | none => fresh
  let start : Assembler V := ⟨declared.reserveLocals source.locals, [], []⟩
  (Assembler.emitAll source.items start).builder.build

end CallDecoration
