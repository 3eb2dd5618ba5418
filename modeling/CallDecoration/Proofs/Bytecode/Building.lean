/-
  CallDecoration.Proofs.Bytecode.Building
  ──────────────────────────────────────
  **Chunks as the outcome of a sequence of operations.**  The operations of a
  builder are data (`Builder.Op`), so that a property of everything that can
  be built is one case for each operation and an induction over the sequence.
  Here: however a chunk is built, it has a local slot for each of its
  parameters (`Builder.slots_le_of_build`).
-/
import CallDecoration.Bytecode.Builder

namespace CallDecoration.Builder

variable {V : Type} [BEq V]

/-! ## §1. Operations. -/

/-- An operation on a builder. -/
inductive Op (V : Type) where
  | setSignature (sig : Signature)
  | reserveLocals (count : Nat)
  | emit (i : Instruction)
  | emitRaw (bytes : List UInt8)
  | addConstant (value : V)
  | emitConstant (value : V)
  | addName (name : String)
  | emitLoadGlobal (name : String)
  | emitStoreGlobal (name : String)
  | emitJump (op : Opcode)
  | patchJump (label : JumpLabel)

/-- The builder after an operation. -/
def Op.perform (op : Op V) (b : Builder V) : Builder V :=
  match op with
  | setSignature sig => b.setSignature sig
  | reserveLocals count => b.reserveLocals count
  | emit i => b.emit i
  | emitRaw bytes => b.emitRaw bytes
  | addConstant value => (b.addConstant value).2
  | emitConstant value => b.emitConstant value
  | addName name => (b.addName name).2
  | emitLoadGlobal name => b.emitLoadGlobal name
  | emitStoreGlobal name => b.emitStoreGlobal name
  | emitJump op => (b.emitJump op).2
  | patchJump label => b.patchJump label

/-- The builder after a sequence of operations. -/
def performAll (ops : List (Op V)) (b : Builder V) : Builder V :=
  ops.foldl (fun b op => op.perform b) b

omit [BEq V] in
/-- A chunk is built from what the builder holds, unless a table has
overflowed. -/
theorem build_eq_ok {b : Builder V} {c : Chunk V} (h : b.build = .ok c) :
    b.overflow = .none ∧ c = ⟨b.name, b.code, b.constants, b.names, b.signature, b.localCount⟩ := by
  unfold build at h
  cases hoverflow : b.overflow with
  | some e =>
      rw [hoverflow] at h
      cases h
  | none =>
      rw [hoverflow] at h
      dsimp only at h
      split at h
      · cases h
        exact ⟨rfl, rfl⟩
      · cases h

/-! ## §2. Room for the parameters. -/

omit [BEq V] in
/-- Adding a name does not touch the parameters and the local slots. -/
theorem addName_locals (name : String) (b : Builder V) :
    (b.addName name).2.signature = b.signature
      ∧ (b.addName name).2.localCount = b.localCount := by
  unfold addName
  split
  · exact ⟨rfl, rfl⟩
  · split <;> exact ⟨rfl, rfl⟩

/-- Adding a constant does not touch the parameters and the local slots. -/
theorem addConstant_locals (value : V) (b : Builder V) :
    (b.addConstant value).2.signature = b.signature
      ∧ (b.addConstant value).2.localCount = b.localCount := by
  unfold addConstant
  split
  · exact ⟨rfl, rfl⟩
  · split <;> exact ⟨rfl, rfl⟩

omit [BEq V] in
/-- Emitting an instruction never takes room away. -/
theorem emit_locals (i : Instruction) (b : Builder V) :
    (b.emit i).signature = b.signature ∧ b.localCount ≤ (b.emit i).localCount :=
  ⟨rfl, Nat.le_max_left _ _⟩

/-- **An operation declares parameters for which it makes room, or leaves the
parameters and takes no room away.** -/
theorem perform_locals (op : Op V) (b : Builder V) :
    (op.perform b).signature.slots ≤ (op.perform b).localCount
      ∨ (op.perform b).signature = b.signature ∧ b.localCount ≤ (op.perform b).localCount := by
  cases op with
  | setSignature sig => exact Or.inl (Nat.le_max_right _ _)
  | reserveLocals count => exact Or.inr ⟨rfl, Nat.le_max_left _ _⟩
  | emit i => exact Or.inr (emit_locals i b)
  | emitRaw _ | emitJump _ | patchJump _ => exact Or.inr ⟨rfl, Nat.le_refl _⟩
  | addConstant value =>
      obtain ⟨hsig, hcount⟩ := addConstant_locals value b
      exact Or.inr ⟨hsig, Nat.le_of_eq hcount.symm⟩
  | addName name =>
      obtain ⟨hsig, hcount⟩ := addName_locals name b
      exact Or.inr ⟨hsig, Nat.le_of_eq hcount.symm⟩
  | emitConstant value =>
      obtain ⟨hsig, hcount⟩ := addConstant_locals value b
      exact Or.inr ⟨hsig, hcount ▸ Nat.le_max_left _ _⟩
  | emitLoadGlobal name | emitStoreGlobal name =>
      obtain ⟨hsig, hcount⟩ := addName_locals name b
      exact Or.inr ⟨hsig, hcount ▸ Nat.le_max_left _ _⟩

/-- After any sequence of operations there is room for the parameters. -/
theorem slots_le_performAll (ops : List (Op V)) {b : Builder V}
    (h : b.signature.slots ≤ b.localCount) :
    (performAll ops b).signature.slots ≤ (performAll ops b).localCount := by
  induction ops generalizing b with
  | nil => exact h
  | cons op rest ih =>
      refine ih ?_
      rcases perform_locals op b with hroom | ⟨hsig, hle⟩
      · exact hroom
      · rw [hsig]
        exact Nat.le_trans h hle

/-- **A chunk that is built has a local slot for each of its parameters.** -/
theorem slots_le_of_build {name : String} {ops : List (Op V)} {c : Chunk V}
    (h : (performAll ops (Builder.new name)).build = .ok c) : c.signature.slots ≤ c.localCount := by
  obtain ⟨-, rfl⟩ := build_eq_ok h
  exact slots_le_performAll ops (Nat.zero_le 0)

end CallDecoration.Builder
