/-
  CallDecoration.Bytecode.Opcode
  ──────────────────────────────────────
  **The operation codes.**  Each has one byte, a mnemonic and a number of
  operand bytes.  The bytes leave gaps: a byte outside the table names no
  operation.
-/

namespace CallDecoration

/-- The operations of the machine. -/
inductive Opcode where
  | nop
  | pop
  | dup
  | swap
  | rot3
  | pushNil
  | pushTrue
  | pushFalse
  | pushSmall
  | pushConstant
  | loadLocal
  | storeLocal
  | loadGlobal
  | storeGlobal
  | loadCapture
  | buildTuple
  | buildDict
  | unpackSequence
  | add
  | sub
  | mul
  | lt
  | eq
  | not
  | jump
  | jumpIfFalse
  | return
  | call
  | callVar
  | callKw
  | callVarKw
  | callEx
  | synthetic
  deriving DecidableEq, Repr, Inhabited

namespace Opcode

/-- Every operation, in the order of the bytes. -/
def all : List Opcode :=
  [nop, pop, dup, swap, rot3,
   pushNil, pushTrue, pushFalse, pushSmall, pushConstant,
   loadLocal, storeLocal, loadGlobal, storeGlobal, loadCapture,
   buildTuple, buildDict, unpackSequence,
   add, sub, mul, lt, eq, not,
   jump, jumpIfFalse, .return,
   call, callVar, callKw, callVarKw, callEx,
   synthetic]

/-- The byte of an operation.  The high digit groups them: stack, values,
variables, aggregates, arithmetic and comparison, control, calls, marks. -/
def toByte : Opcode → UInt8
  | nop => 0x00
  | pop => 0x01
  | dup => 0x02
  | swap => 0x03
  | rot3 => 0x04
  | pushNil => 0x10
  | pushTrue => 0x11
  | pushFalse => 0x12
  | pushSmall => 0x13
  | pushConstant => 0x14
  | loadLocal => 0x20
  | storeLocal => 0x21
  | loadGlobal => 0x22
  | storeGlobal => 0x23
  | loadCapture => 0x24
  | buildTuple => 0x30
  | buildDict => 0x31
  | unpackSequence => 0x32
  | add => 0x40
  | sub => 0x41
  | mul => 0x42
  | lt => 0x43
  | eq => 0x44
  | not => 0x45
  | jump => 0x50
  | jumpIfFalse => 0x51
  | .return => 0x52
  | call => 0x60
  | callVar => 0x61
  | callKw => 0x62
  | callVarKw => 0x63
  | callEx => 0x64
  | synthetic => 0xF0

/-- The operation of a byte, if the byte names one. -/
def ofByte? (byte : UInt8) : Option Opcode :=
  all.find? fun op => op.toByte == byte

/-- How many operand bytes follow the operation. -/
def immediateSize : Opcode → Nat
  | pushSmall | loadLocal | storeLocal | buildTuple | buildDict | unpackSequence
  | callEx => 1
  | pushConstant | loadGlobal | storeGlobal | loadCapture | jump | jumpIfFalse
  | call | callVar | callKw | callVarKw => 2
  | _ => 0

/-- The name that listings and messages use. -/
def mnemonic : Opcode → String
  | nop => "nop"
  | pop => "pop"
  | dup => "dup"
  | swap => "swap"
  | rot3 => "rot3"
  | pushNil => "push_nil"
  | pushTrue => "push_true"
  | pushFalse => "push_false"
  | pushSmall => "push_long_small"
  | pushConstant => "push_const"
  | loadLocal => "load_local"
  | storeLocal => "store_local"
  | loadGlobal => "load_global"
  | storeGlobal => "store_global"
  | loadCapture => "load_capture"
  | buildTuple => "build_tuple"
  | buildDict => "build_dict"
  | unpackSequence => "unpack_sequence"
  | add => "add"
  | sub => "sub"
  | mul => "mul"
  | lt => "lt"
  | eq => "eq"
  | not => "not"
  | jump => "jump"
  | jumpIfFalse => "jump_if_false"
  | .return => "return"
  | call => "call"
  | callVar => "call_var"
  | callKw => "call_kw"
  | callVarKw => "call_var_kw"
  | callEx => "call_ex"
  | synthetic => "synthetic"

/-- Whether the operation may continue at a target of its own. -/
def isJump : Opcode → Bool
  | jump | jumpIfFalse => true
  | _ => false

/-- Whether the operation calls a value. -/
def isCall : Opcode → Bool
  | call | callVar | callKw | callVarKw | callEx => true
  | _ => false

/-- Whether the operation ends its frame. -/
def isTerminator : Opcode → Bool
  | .return => true
  | _ => false

end Opcode

end CallDecoration
