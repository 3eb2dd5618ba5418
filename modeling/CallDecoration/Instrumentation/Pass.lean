/-
  CallDecoration.Instrumentation.Pass
  ──────────────────────────────────────
  **The instrumentation pass.**  A body is decoded, every instruction is
  replaced by its image, jumps are redirected to the images of their targets,
  and the result is encoded again.  The image of a call is its expansion; a
  call behind a `synthetic` mark, and every other instruction, is its own
  image.  A jump to an expanded call lands at the start of its expansion.

  The pass keeps name, constants, names and local slots.  It leaves the
  signature empty; whoever builds a function from the result declares it
  again.
-/
import CallDecoration.Instrumentation.Expansion
import CallDecoration.Error

namespace CallDecoration

/-! ## §1. Counting. -/

/-- What a pass did. -/
structure Tally where
  /-- Calls that were expanded. -/
  instrumented : Nat
  /-- Marked calls that were left alone. -/
  skipped : Nat
  /-- Growth of the code. -/
  bytesAdded : Nat
  deriving DecidableEq, Repr

namespace Tally

/-- Nothing done. -/
def zero : Tally :=
  ⟨0, 0, 0⟩

/-- One more call expanded. -/
def countInstrumented (t : Tally) : Tally :=
  { t with instrumented := t.instrumented + 1 }

/-- One more marked call left alone. -/
def countSkipped (t : Tally) : Tally :=
  { t with skipped := t.skipped + 1 }

end Tally

/-! ## §2. Images. -/

/-- An instruction's image, with the offset the instruction had. -/
abbrev Image := Nat × List Instruction

/-- **The images of the instructions of a body,** in code order, with the
counts that `tally` is raised by; on failure, the counts up to the instruction
that fails. -/
def images (slots : CaptureSlots) (tally : Tally) :
    List (Nat × Instruction) → Tally × Except InstrumentError (List Image)
  | [] => (tally, .ok [])
  | (offset, .synthetic) :: (callOffset, .call shape) :: rest =>
      let (counts, result) := images slots tally.countSkipped rest
      (counts, result.map fun later =>
        (offset, [.synthetic]) :: (callOffset, [.call shape]) :: later)
  | (offset, .synthetic) :: _ => (tally, .error (.danglingMarker offset))
  | (offset, .call shape) :: rest =>
      if shape.slots ≤ maxSlots then
        let (counts, result) := images slots tally.countInstrumented rest
        (counts, result.map fun later => (offset, slots.expansion shape) :: later)
      else (tally, .error (.tooManySlots offset shape.slots))
  | (offset, i) :: rest =>
      let (counts, result) := images slots tally rest
      (counts, result.map fun later => (offset, [i]) :: later)

/-! ## §3. Where images begin. -/

/-- The encoded size of an instruction list. -/
def codeSize : List Instruction → Nat
  | [] => 0
  | i :: rest => i.size + codeSize rest

/-- For each image, the offset its instruction had and the offset at which the
image begins when the images are laid out from `start`. -/
def relocations (start : Nat) : List Image → List (Nat × Nat)
  | [] => []
  | (offset, code) :: rest => (offset, start) :: relocations (start + codeSize code) rest

/-- An instruction with its jump, if it is one, redirected along `moves`; the
error names the jump by the offset it had. -/
def redirect (moves : List (Nat × Nat)) (offset : Nat) (i : Instruction) :
    Except InstrumentError Instruction :=
  match i.target? with
  | none => .ok i
  | some target =>
      match Dict.get? moves target with
      | some moved => .ok (i.retarget moved)
      | none => .error (.decode (.misalignedJump offset target))

/-- The instructions of the images in order, with all jumps redirected. -/
def redirectAll (moves : List (Nat × Nat)) :
    List Image → Except InstrumentError (List Instruction)
  | [] => .ok []
  | (offset, code) :: rest => do
      let here ← code.mapM (redirect moves offset)
      let later ← redirectAll moves rest
      return here ++ later

/-! ## §4. The pass. -/

/-- The outcome of a pass, and its counts as far as it came. -/
structure PassReport (V : Type) where
  tally : Tally
  outcome : Except InstrumentError (Chunk V)

/-- **Instruments every call of a chunk** that is not marked. -/
def Chunk.instrument {V : Type} (slots : CaptureSlots) (c : Chunk V) : PassReport V :=
  match c.instructions with
  | .error cause => ⟨.zero, .error (.decode cause)⟩
  | .ok body =>
      match images slots .zero body with
      | (tally, .error e) => ⟨tally, .error e⟩
      | (tally, .ok imgs) =>
          match redirectAll (relocations 0 imgs) imgs with
          | .error e => ⟨tally, .error e⟩
          | .ok instructions =>
              let code := encode instructions
              if code.size ≤ maxCodeLength then
                ⟨{ tally with bytesAdded := code.size - c.code.size },
                  .ok ⟨c.name, code, c.constants, c.names, Signature.none, c.localCount⟩⟩
              else ⟨tally, .error (.codeTooLarge code.size)⟩

end CallDecoration
