/-
  CallDecoration.Instrumentation.Expansion
  ──────────────────────────────────────
  **The code put in place of a call.**  Before the call itself, the callee is
  handed to a decorator.  With `n` operands the stack goes through

    callee, operands              at the call
    callee, packed                build_tuple n
    packed, callee                swap
    packed, callee, entry         load_capture entry
    packed, callee, entry, adapter    load_capture adapter
    packed, callee, entry, w, extras, keywords    unpack_sequence 3
    packed, callee, decorator     synthetic; call_var_kw 1 0
    packed, decorator, callee     swap
    packed, wrapped               synthetic; call 1 0
    wrapped, packed               swap
    wrapped, operands             unpack_sequence n

  and then the call runs as before.  The two inserted calls carry the
  `synthetic` mark, by which later passes know them.
-/
import CallDecoration.Bytecode.Instruction

namespace CallDecoration

/-- Where an instrumented function keeps the entry point and the adapter. -/
structure CaptureSlots where
  entry : UInt16
  adapter : UInt16
  deriving DecidableEq, Repr

/-- The shape of the call to the entry point: a transformation, its extra
arguments as a tuple, its extra keywords as a dictionary. -/
def entryCall : CallShape :=
  ⟨1, 0, true, true, false⟩

/-- The shape of the call that decorates the callee. -/
def decorateCall : CallShape :=
  CallShape.plain 1

/-- The largest number of operands that one tuple can be built of. -/
def maxSlots : Nat := 255

namespace CaptureSlots

/-- The instructions put before a call with `n` operands. -/
def inserted (slots : CaptureSlots) (n : UInt8) : List Instruction :=
  [.buildTuple n,
   .swap,
   .loadCapture slots.entry,
   .loadCapture slots.adapter,
   .unpackSequence 3,
   .synthetic,
   .call entryCall,
   .swap,
   .synthetic,
   .call decorateCall,
   .swap,
   .unpackSequence n]

/-- **The expansion of a call:** the inserted instructions and the call. -/
def expansion (slots : CaptureSlots) (shape : CallShape) : List Instruction :=
  slots.inserted (UInt8.ofNat shape.slots) ++ [.call shape]

end CaptureSlots

end CallDecoration
