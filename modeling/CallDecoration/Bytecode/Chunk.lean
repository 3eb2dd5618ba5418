/-
  CallDecoration.Bytecode.Chunk
  ──────────────────────────────────────
  **Chunks: the bodies of functions.**  A chunk is encoded code with the
  tables that its instructions index.  The type of the constants is a
  parameter, because values in turn hold functions and these hold chunks.
-/
import CallDecoration.Bytecode.Codec
import CallDecoration.Signature

namespace CallDecoration

/-- The largest body whose jumps all fit in a signed 16-bit distance. -/
def maxCodeLength : Nat := 32767

/-- The body of a function. -/
structure Chunk (V : Type) where
  /-- The name that the listing shows. -/
  name : String
  /-- The encoded instructions. -/
  code : Array UInt8
  /-- The constants that `pushConstant` indexes. -/
  constants : Array V
  /-- The names that `loadGlobal` and `storeGlobal` index. -/
  names : Array String
  /-- The declared parameters. -/
  signature : Signature
  /-- How many local slots a frame has, parameters included. -/
  localCount : Nat

namespace Chunk

variable {V : Type}

/-- The chunk with other declared parameters; the local slots grow to hold
them. -/
def withSignature (c : Chunk V) (sig : Signature) : Chunk V :=
  { c with signature := sig, localCount := max c.localCount sig.slots }

/-- The decoded body. -/
def instructions (c : Chunk V) : Except DecodeError (List (Nat × Instruction)) :=
  decode c.code

/-- The shapes of all calls of the body, in code order. -/
def callSites (c : Chunk V) : Except DecodeError (List CallShape) :=
  c.instructions.map fun body => body.filterMap fun entry => entry.2.shape?

end Chunk

end CallDecoration
