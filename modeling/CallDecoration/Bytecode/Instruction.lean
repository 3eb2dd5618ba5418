/-
  CallDecoration.Bytecode.Instruction
  ──────────────────────────────────────
  **Instructions: an operation with its operands.**  A jump holds the
  absolute byte offset of its target; everything else about an instruction
  does not depend on where it stands.
-/
import CallDecoration.Bytecode.CallShape
import CallDecoration.Text.Hex
import CallDecoration.Text.Integer

namespace CallDecoration

/-- One decoded instruction. -/
inductive Instruction where
  | nop
  | pop
  | dup
  | swap
  | rot3
  | pushNil
  | pushTrue
  | pushFalse
  | pushSmall (value : Int8)
  | pushConstant (index : UInt16)
  | loadLocal (slot : UInt8)
  | storeLocal (slot : UInt8)
  | loadGlobal (index : UInt16)
  | storeGlobal (index : UInt16)
  | loadCapture (index : UInt16)
  | buildTuple (count : UInt8)
  | buildDict (count : UInt8)
  | unpackSequence (count : UInt8)
  | add
  | sub
  | mul
  | lt
  | eq
  | not
  | jump (target : Nat)
  | jumpIfFalse (target : Nat)
  | return
  | call (shape : CallShape)
  | synthetic
  deriving DecidableEq, Repr, Inhabited

namespace Instruction

/-- The operation of an instruction. -/
def opcode : Instruction → Opcode
  | nop => .nop
  | pop => .pop
  | dup => .dup
  | swap => .swap
  | rot3 => .rot3
  | pushNil => .pushNil
  | pushTrue => .pushTrue
  | pushFalse => .pushFalse
  | pushSmall _ => .pushSmall
  | pushConstant _ => .pushConstant
  | loadLocal _ => .loadLocal
  | storeLocal _ => .storeLocal
  | loadGlobal _ => .loadGlobal
  | storeGlobal _ => .storeGlobal
  | loadCapture _ => .loadCapture
  | buildTuple _ => .buildTuple
  | buildDict _ => .buildDict
  | unpackSequence _ => .unpackSequence
  | add => .add
  | sub => .sub
  | mul => .mul
  | lt => .lt
  | eq => .eq
  | not => .not
  | jump _ => .jump
  | jumpIfFalse _ => .jumpIfFalse
  | .return => .return
  | call shape => shape.opcode
  | synthetic => .synthetic

/-- **The encoded size in bytes,** which depends on the operation alone. -/
def size (i : Instruction) : Nat :=
  1 + i.opcode.immediateSize

/-- The target of a jump. -/
def target? : Instruction → Option Nat
  | jump t => some t
  | jumpIfFalse t => some t
  | _ => none

/-- The instruction with `t` as its target, if it is a jump. -/
def retarget (t : Nat) : Instruction → Instruction
  | jump _ => jump t
  | jumpIfFalse _ => jumpIfFalse t
  | i => i

/-- The shape of a call. -/
def shape? : Instruction → Option CallShape
  | call shape => some shape
  | _ => none

/-- The operands as listings show them, with a blank in front of each. -/
def operandText : Instruction → String
  | pushSmall n => " " ++ Text.decimal n.toInt
  | pushConstant i | loadGlobal i | storeGlobal i | loadCapture i =>
      " #" ++ Text.decimal i.toNat
  | loadLocal n | storeLocal n | buildTuple n | buildDict n | unpackSequence n =>
      " " ++ Text.decimal n.toNat
  | jump t | jumpIfFalse t => " -> " ++ Text.hex 4 t
  | call shape =>
      if shape.expandable then
        " kwargs=" ++ (if shape.varKeyword then "true" else "false")
      else
        " pos=" ++ Text.decimal shape.positional.toNat
          ++ " kw=" ++ Text.decimal shape.keyword.toNat
  | _ => ""

/-- The instruction as listings show it. -/
def text (i : Instruction) : String :=
  i.opcode.mnemonic ++ i.operandText

end Instruction

end CallDecoration
