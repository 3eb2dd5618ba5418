/-
  CallDecoration.Bytecode.Builder
  ──────────────────────────────────────
  **Building chunks.**  A builder collects code and tables.  Constants and
  names are shared: adding an equal one gives the index of the first.  The
  first table that outgrows its 16-bit index is remembered and reported when
  the chunk is built, before the size of the code is looked at.
-/
import CallDecoration.Bytecode.Chunk

namespace CallDecoration

/-- Why a chunk cannot be built. -/
inductive BuildError where
  | tooManyConstants
  | tooManyNames
  | codeTooLarge (length : Nat)
  deriving DecidableEq, Repr

/-- The largest number of entries in a table with 16-bit indices. -/
def maxTableSize : Nat := 65536

/-- The text of a building error. -/
def BuildError.message : BuildError → String
  | tooManyConstants =>
      "Too many constants in chunk (max " ++ Text.decimal maxTableSize ++ ")"
  | tooManyNames =>
      "Too many names in chunk (max " ++ Text.decimal maxTableSize ++ ")"
  | codeTooLarge length =>
      "Chunk is " ++ Text.decimal length ++ " bytes (max "
        ++ Text.decimal maxCodeLength ++ ")"

/-- A chunk under construction. -/
structure Builder (V : Type) where
  name : String
  code : Array UInt8
  constants : Array V
  names : Array String
  signature : Signature
  localCount : Nat
  /-- The first table that outgrew its index. -/
  overflow : Option BuildError

/-- A jump whose target is not known yet: the offset of its operand. -/
structure JumpLabel where
  operand : Nat
  deriving DecidableEq, Repr

namespace Builder

variable {V : Type}

/-- Nothing emitted yet. -/
def new (name : String) : Builder V :=
  ⟨name, #[], #[], #[], Signature.none, 0, none⟩

/-- The offset at which the next instruction begins. -/
def offset (b : Builder V) : Nat :=
  b.code.size

/-- Makes room for at least `count` local slots. -/
def reserveLocals (count : Nat) (b : Builder V) : Builder V :=
  { b with localCount := max b.localCount count }

/-- Declares the parameters and makes room for them. -/
def setSignature (sig : Signature) (b : Builder V) : Builder V :=
  { b with signature := sig, localCount := max b.localCount sig.slots }

/-- Appends bytes as they are. -/
def emitRaw (bytes : List UInt8) (b : Builder V) : Builder V :=
  { b with code := b.code ++ bytes }

/-- The local slots an instruction needs. -/
def localsOf : Instruction → Nat
  | .loadLocal slot => slot.toNat + 1
  | .storeLocal slot => slot.toNat + 1
  | _ => 0

/-- Appends one instruction and makes room for the local slot it uses. -/
def emit (i : Instruction) (b : Builder V) : Builder V :=
  emitRaw (i.bytes b.offset) (reserveLocals (localsOf i) b)

/-- Remembers an overflow, unless there was one before. -/
def noteOverflow (e : BuildError) (b : Builder V) : Builder V :=
  { b with overflow := some (b.overflow.getD e) }

/-- **Adds a constant** unless an equal one is there, and gives its index.
After an overflow the index is the largest one and means nothing. -/
def addConstant [BEq V] (value : V) (b : Builder V) : UInt16 × Builder V :=
  match b.constants.findIdx? (· == value) with
  | some i => (UInt16.ofNat i, b)
  | none =>
      if b.constants.size < maxTableSize then
        (UInt16.ofNat b.constants.size, { b with constants := b.constants.push value })
      else (65535, noteOverflow .tooManyConstants b)

/-- **Adds a name** unless it is there, and gives its index, with overflow as
for constants. -/
def addName (name : String) (b : Builder V) : UInt16 × Builder V :=
  match b.names.findIdx? (· == name) with
  | some i => (UInt16.ofNat i, b)
  | none =>
      if b.names.size < maxTableSize then
        (UInt16.ofNat b.names.size, { b with names := b.names.push name })
      else (65535, noteOverflow .tooManyNames b)

/-- Adds a constant and emits the instruction that pushes it. -/
def emitConstant [BEq V] (value : V) (b : Builder V) : Builder V :=
  let (index, b) := b.addConstant value
  b.emit (.pushConstant index)

/-- Emits the load of a global. -/
def emitLoadGlobal (name : String) (b : Builder V) : Builder V :=
  let (index, b) := b.addName name
  b.emit (.loadGlobal index)

/-- Emits the store to a global. -/
def emitStoreGlobal (name : String) (b : Builder V) : Builder V :=
  let (index, b) := b.addName name
  b.emit (.storeGlobal index)

/-- Emits a jump of operation `op` whose target follows later. -/
def emitJump (op : Opcode) (b : Builder V) : JumpLabel × Builder V :=
  (⟨b.offset + 1⟩, b.emitRaw [op.toByte, 0xFF, 0xFF])

/-- Lets an open jump land at the present end of the code. -/
def patchJump (label : JumpLabel) (b : Builder V) : Builder V :=
  let distance := distanceWord (label.operand + 2) b.offset
  { b with
    code := (b.code.setIfInBounds label.operand (UInt8.ofNat (distance.toNat / 256)))
      |>.setIfInBounds (label.operand + 1) (UInt8.ofNat (distance.toNat % 256)) }

/-- **The finished chunk,** or why there is none. -/
def build (b : Builder V) : Except BuildError (Chunk V) :=
  match b.overflow with
  | some e => .error e
  | none =>
      if b.code.size ≤ maxCodeLength then
        .ok ⟨b.name, b.code, b.constants, b.names, b.signature, b.localCount⟩
      else .error (.codeTooLarge b.code.size)

end Builder

end CallDecoration
