/-
  CallDecoration.Bytecode.Codec
  ──────────────────────────────────────
  **Instructions as bytes.**  An instruction is its operation byte and its
  operands; two-byte operands have the high byte first.  A jump is written as
  the signed 16-bit distance from its own end to its target, of which the low
  16 bits are kept.

  Decoding one instruction (`decodeAt`) checks that it is complete, that its
  operands are meaningful and that a jump stays inside the code.  Decoding a
  whole body (`decode`) also demands that every jump lands where an
  instruction begins.
-/
import CallDecoration.Bytecode.Instruction

namespace CallDecoration

/-! ## §1. What can be wrong with code. -/

/-- Why bytes are not instructions. -/
inductive DecodeError where
  /-- The byte names no operation. -/
  | invalidOpcode (offset : Nat) (byte : UInt8)
  /-- The code ends before the instruction does. -/
  | truncated (offset : Nat) (opcode : Opcode)
  /-- The operand has no meaning for the operation. -/
  | invalidOperand (offset : Nat) (opcode : Opcode) (operand : UInt8)
  /-- The jump leaves the code. -/
  | jumpOutOfRange (offset : Nat) (target : Int)
  /-- The jump lands inside an instruction. -/
  | misalignedJump (offset target : Nat)
  deriving DecidableEq, Repr

/-- The text of a decoding error. -/
def DecodeError.message : DecodeError → String
  | invalidOpcode offset byte =>
      "Invalid opcode 0x" ++ Text.hex 2 byte.toNat ++ " at " ++ Text.hex 4 offset
  | truncated offset opcode =>
      "Truncated " ++ opcode.mnemonic ++ " at " ++ Text.hex 4 offset
  | invalidOperand offset opcode operand =>
      "Invalid operand " ++ Text.decimal operand.toNat ++ " for " ++ opcode.mnemonic
        ++ " at " ++ Text.hex 4 offset
  | jumpOutOfRange offset target =>
      "Jump at " ++ Text.hex 4 offset ++ " targets " ++ Text.decimal target
        ++ " outside the body"
  | misalignedJump offset target =>
      "Jump at " ++ Text.hex 4 offset ++ " targets " ++ Text.hex 4 target
        ++ ", which is not an instruction boundary"

/-! ## §2. Words and distances. -/

/-- The two bytes of a word, high byte first. -/
def wordBytes (w : UInt16) : List UInt8 :=
  [UInt8.ofNat (w.toNat / 256), UInt8.ofNat (w.toNat % 256)]

/-- The word of two bytes, high byte first. -/
def wordOfBytes (high low : UInt8) : UInt16 :=
  UInt16.ofNat (256 * high.toNat + low.toNat)

/-- The low 16 bits of the distance from `source` to `target`. -/
def distanceWord (source target : Nat) : UInt16 :=
  UInt16.ofNat (((target : Int) - (source : Int)) % 65536).toNat

/-- The signed distance that a word stands for. -/
def wordDistance (w : UInt16) : Int :=
  Int.bmod w.toNat 65536

/-- The encoded size of a jump. -/
def jumpSize : Nat := 3

/-! ## §3. Encoding. -/

/-- The operand bytes of an instruction that begins at `offset`. -/
def Instruction.operandBytes (offset : Nat) : Instruction → List UInt8
  | pushSmall n => [n.toUInt8]
  | loadLocal n | storeLocal n | buildTuple n | buildDict n | unpackSequence n => [n]
  | pushConstant i | loadGlobal i | storeGlobal i | loadCapture i => wordBytes i
  | jump t | jumpIfFalse t => wordBytes (distanceWord (offset + jumpSize) t)
  | call shape =>
      if shape.expandable then [if shape.varKeyword then 1 else 0]
      else [shape.positional, shape.keyword]
  | _ => []

/-- The bytes of an instruction that begins at `offset`. -/
def Instruction.bytes (offset : Nat) (i : Instruction) : List UInt8 :=
  i.opcode.toByte :: i.operandBytes offset

/-- The bytes of instructions laid out one after the other from `offset`. -/
def encodeFrom (offset : Nat) : List Instruction → List UInt8
  | [] => []
  | i :: rest => i.bytes offset ++ encodeFrom (offset + i.size) rest

/-- **The bytes of an instruction list laid out from offset zero.** -/
def encode (instructions : List Instruction) : Array UInt8 :=
  (encodeFrom 0 instructions).toArray

/-! ## §4. Decoding one instruction. -/

/-- The target of a jump at `offset`, in code of `length` bytes, from its two
operand bytes. -/
def jumpTarget (offset length : Nat) (b₀ b₁ : UInt8) : Except DecodeError Nat :=
  let target : Int := ((offset + jumpSize : Nat) : Int) + wordDistance (wordOfBytes b₀ b₁)
  if 0 ≤ target ∧ target < length then .ok target.toNat
  else .error (.jumpOutOfRange offset target)

/-- The instruction of an operation at `offset`, in code of `length` bytes,
from the two bytes that follow; an operation with fewer operand bytes ignores
the others. -/
def Instruction.ofOperands (offset length : Nat) (b₀ b₁ : UInt8) :
    Opcode → Except DecodeError Instruction
  | .nop => .ok .nop
  | .pop => .ok .pop
  | .dup => .ok .dup
  | .swap => .ok .swap
  | .rot3 => .ok .rot3
  | .pushNil => .ok .pushNil
  | .pushTrue => .ok .pushTrue
  | .pushFalse => .ok .pushFalse
  | .pushSmall => .ok (.pushSmall b₀.toInt8)
  | .pushConstant => .ok (.pushConstant (wordOfBytes b₀ b₁))
  | .loadLocal => .ok (.loadLocal b₀)
  | .storeLocal => .ok (.storeLocal b₀)
  | .loadGlobal => .ok (.loadGlobal (wordOfBytes b₀ b₁))
  | .storeGlobal => .ok (.storeGlobal (wordOfBytes b₀ b₁))
  | .loadCapture => .ok (.loadCapture (wordOfBytes b₀ b₁))
  | .buildTuple => .ok (.buildTuple b₀)
  | .buildDict => .ok (.buildDict b₀)
  | .unpackSequence => .ok (.unpackSequence b₀)
  | .add => .ok .add
  | .sub => .ok .sub
  | .mul => .ok .mul
  | .lt => .ok .lt
  | .eq => .ok .eq
  | .not => .ok .not
  | .jump => (jumpTarget offset length b₀ b₁).map .jump
  | .jumpIfFalse => (jumpTarget offset length b₀ b₁).map .jumpIfFalse
  | .return => .ok .return
  | .call => .ok (.call ⟨b₀, b₁, false, false, false⟩)
  | .callVar => .ok (.call ⟨b₀, b₁, true, false, false⟩)
  | .callKw => .ok (.call ⟨b₀, b₁, false, true, false⟩)
  | .callVarKw => .ok (.call ⟨b₀, b₁, true, true, false⟩)
  | .callEx =>
      if b₀ = 0 then .ok (.call (CallShape.spread false))
      else if b₀ = 1 then .ok (.call (CallShape.spread true))
      else .error (.invalidOperand offset .callEx b₀)
  | .synthetic => .ok .synthetic

/-- The byte at `offset`, zero outside the code. -/
def byteAt (code : Array UInt8) (offset : Nat) : UInt8 :=
  (code[offset]?).getD 0

/-- **Decodes the instruction at `offset`,** together with the offset that
follows it.  Beyond the end of the code it reports an incomplete `nop`. -/
def decodeAt (code : Array UInt8) (offset : Nat) :
    Except DecodeError (Instruction × Nat) :=
  match code[offset]? with
  | none => .error (.truncated offset .nop)
  | some byte =>
      match Opcode.ofByte? byte with
      | none => .error (.invalidOpcode offset byte)
      | some op =>
          let next := offset + 1 + op.immediateSize
          if next ≤ code.size then
            (Instruction.ofOperands offset code.size
              (byteAt code (offset + 1)) (byteAt code (offset + 2)) op).map (·, next)
          else .error (.truncated offset op)

/-! ## §5. Decoding a body. -/

/-- The instructions from `offset` to the end of the code, each with its
offset.  Every instruction takes a byte at least, so as many steps as there
are bytes are enough. -/
def decodeFrom (code : Array UInt8) :
    (steps offset : Nat) → Except DecodeError (List (Nat × Instruction))
  | 0, _ => .ok []
  | steps + 1, offset =>
      if offset < code.size then
        match decodeAt code offset with
        | .error e => .error e
        | .ok (i, next) =>
            match decodeFrom code steps next with
            | .error e => .error e
            | .ok rest => .ok ((offset, i) :: rest)
      else .ok []

/-- Whether an instruction with offset `target` is in the list. -/
def beginsAt (body : List (Nat × Instruction)) (target : Nat) : Bool :=
  body.any fun entry => entry.1 == target

/-- The first jump of `entries`, with its target, that lands where no
instruction of `body` begins. -/
def misaligned? (body entries : List (Nat × Instruction)) : Option (Nat × Nat) :=
  match entries with
  | [] => none
  | (offset, i) :: rest =>
      match i.target? with
      | some target =>
          if beginsAt body target then misaligned? body rest else some (offset, target)
      | none => misaligned? body rest

/-- **Decodes a whole body** into its instructions and their offsets, in code
order. -/
def decode (code : Array UInt8) : Except DecodeError (List (Nat × Instruction)) :=
  match decodeFrom code code.size 0 with
  | .error e => .error e
  | .ok body =>
      match misaligned? body body with
      | some (offset, target) => .error (.misalignedJump offset target)
      | none => .ok body

end CallDecoration
