/-
  CallDecoration.Proofs.Bytecode.Encoding
  ──────────────────────────────────────
  **Decoding what was encoded.**  An instruction that stands at its offset in
  encoded code is read back as it was (`decodeAt_encode`), if the code is not
  longer than a jump can reach and the instruction is one that can be written.
  All arithmetic of words, distances and byte offsets is in this module.
-/
import CallDecoration.Bytecode.Chunk
import CallDecoration.Proofs.Except
import Mathlib.Data.List.Basic

namespace CallDecoration

/-! ## §1. Words and distances. -/

theorem wordOfBytes_wordBytes (w : UInt16) :
    wordOfBytes (UInt8.ofNat (w.toNat / 256)) (UInt8.ofNat (w.toNat % 256)) = w := by
  have hw : w.toNat < 65536 := w.toNat_lt
  have hhigh : (UInt8.ofNat (w.toNat / 256)).toNat = w.toNat / 256 := by
    rw [UInt8.toNat_ofNat']
    omega
  have hlow : (UInt8.ofNat (w.toNat % 256)).toNat = w.toNat % 256 := by
    rw [UInt8.toNat_ofNat']
    omega
  unfold wordOfBytes
  rw [hhigh, hlow]
  have hsum : 256 * (w.toNat / 256) + w.toNat % 256 = w.toNat := by omega
  rw [hsum, UInt16.ofNat_toNat]

/-- Distances that fit in a signed word are kept. -/
theorem wordDistance_distanceWord {source target : Nat} (hs : source ≤ maxCodeLength)
    (ht : target ≤ maxCodeLength) :
    wordDistance (distanceWord source target) = (target : Int) - (source : Int) := by
  unfold maxCodeLength at hs ht
  unfold wordDistance distanceWord
  have hnat : (UInt16.ofNat (((target : Int) - (source : Int)) % 65536).toNat).toNat
      = (((target : Int) - (source : Int)) % 65536).toNat := by
    rw [UInt16.toNat_ofNat']
    omega
  rw [hnat]
  have hcast : ((((target : Int) - (source : Int)) % 65536).toNat : Int)
      = ((target : Int) - (source : Int)) % 65536 := by omega
  rw [hcast]
  unfold Int.bmod
  dsimp only
  split <;> omega

/-- A jump that was written is read back, if its target is in the code. -/
theorem jumpTarget_distance {offset length target : Nat} (hlength : length ≤ maxCodeLength)
    (hoffset : offset + jumpSize ≤ length) (htarget : target < length) :
    jumpTarget offset length
        (UInt8.ofNat ((distanceWord (offset + jumpSize) target).toNat / 256))
        (UInt8.ofNat ((distanceWord (offset + jumpSize) target).toNat % 256))
      = .ok target := by
  unfold jumpTarget
  rw [wordOfBytes_wordBytes, wordDistance_distanceWord (by omega) (by omega)]
  have heq : ((offset + jumpSize : Nat) : Int) + ((target : Int) - ((offset + jumpSize : Nat) : Int))
      = target := by omega
  show (if 0 ≤ _ ∧ _ then _ else _) = _
  rw [heq, if_pos ⟨by omega, by omega⟩, Int.toNat_natCast]

/-! ## §2. Instructions that can be written. -/

theorem Opcode.ofByte?_toByte (op : Opcode) : Opcode.ofByte? op.toByte = some op := by
  cases op <;> rfl

/-- The shapes that some call instruction has: the form that spells out no
argument has none. -/
def CallShape.IsWritten (shape : CallShape) : Prop :=
  shape.expandable = true → shape = CallShape.spread shape.varKeyword

/-- What can be written into code of `length` bytes: calls of a shape that is
written, and jumps into the code. -/
def Instruction.IsWritten (length : Nat) : Instruction → Prop
  | call shape => shape.IsWritten
  | jump target | jumpIfFalse target => target < length
  | _ => True

theorem Instruction.operandBytes_length (offset : Nat) (i : Instruction) :
    (i.operandBytes offset).length = i.opcode.immediateSize := by
  cases i with
  | call shape =>
      obtain ⟨p, k, vp, vk, ex⟩ := shape
      cases ex <;> cases vp <;> cases vk <;> rfl
  | _ => rfl

@[simp] theorem Instruction.bytes_length (offset : Nat) (i : Instruction) :
    (i.bytes offset).length = i.size := by
  unfold bytes size
  rw [List.length_cons, operandBytes_length, Nat.add_comm]

theorem Instruction.size_pos (i : Instruction) : 0 < i.size := by
  unfold size
  omega

/-- The byte of a list at an index, zero beyond its end. -/
def byteOf (bytes : List UInt8) (index : Nat) : UInt8 :=
  bytes[index]?.getD 0

/-- **Operands are read back.** -/
theorem Instruction.ofOperands_operandBytes {offset length : Nat} {i : Instruction}
    (hi : i.IsWritten length) (hlength : length ≤ maxCodeLength)
    (hoffset : offset + i.size ≤ length) (rest : List UInt8) :
    ofOperands offset length (byteOf (i.operandBytes offset ++ rest) 0)
      (byteOf (i.operandBytes offset ++ rest) 1) i.opcode = .ok i := by
  cases i with
  | pushSmall n =>
      show Except.ok (pushSmall n.toUInt8.toInt8) = _
      rw [Int8.toInt8_toUInt8]
  | pushConstant index =>
      exact congrArg (fun w => Except.ok (pushConstant w)) (wordOfBytes_wordBytes index)
  | loadGlobal index =>
      exact congrArg (fun w => Except.ok (loadGlobal w)) (wordOfBytes_wordBytes index)
  | storeGlobal index =>
      exact congrArg (fun w => Except.ok (storeGlobal w)) (wordOfBytes_wordBytes index)
  | loadCapture index =>
      exact congrArg (fun w => Except.ok (loadCapture w)) (wordOfBytes_wordBytes index)
  | jump target | jumpIfFalse target =>
      simp only [ofOperands, operandBytes, opcode, wordBytes]
      show (jumpTarget offset length
        (UInt8.ofNat ((distanceWord (offset + jumpSize) target).toNat / 256))
        (UInt8.ofNat ((distanceWord (offset + jumpSize) target).toNat % 256))).map _ = _
      rw [jumpTarget_distance hlength hoffset hi]
      rfl
  | call shape =>
      obtain ⟨p, k, vp, vk, ex⟩ := shape
      cases ex with
      | false => cases vp <;> cases vk <;> rfl
      | true =>
          have hshape : (⟨p, k, vp, vk, true⟩ : CallShape) = CallShape.spread vk := hi rfl
          rw [hshape]
          cases vk <;> rfl
  | _ => rfl

/-- What is decoded can be written again. -/
theorem Instruction.isWritten_of_ofOperands {offset length : Nat} {b₀ b₁ : UInt8} {op : Opcode}
    {i : Instruction} (h : ofOperands offset length b₀ b₁ op = .ok i) :
    i.IsWritten length ∧ i.opcode = op := by
  -- the target of a jump was checked against the length when it was read
  have hjump : ∀ make : Nat → Instruction,
      (jumpTarget offset length b₀ b₁).map make = .ok i → ∃ t, t < length ∧ i = make t := by
    intro make hmap
    obtain ⟨t, htarget, rfl⟩ := map_eq_ok_iff.mp hmap
    refine ⟨t, ?_, rfl⟩
    unfold jumpTarget at htarget
    dsimp only at htarget
    generalize ((offset + jumpSize : Nat) : Int) + wordDistance (wordOfBytes b₀ b₁) = target
      at htarget
    split at htarget
    case isTrue hrange =>
      have ht := Except.ok.inj htarget
      omega
    case isFalse => cases htarget
  cases op with
  | jump =>
      obtain ⟨t, ht, rfl⟩ := hjump .jump h
      exact ⟨ht, rfl⟩
  | jumpIfFalse =>
      obtain ⟨t, ht, rfl⟩ := hjump .jumpIfFalse h
      exact ⟨ht, rfl⟩
  | callEx =>
      simp only [ofOperands] at h
      split at h
      · cases h
        exact ⟨fun _ => rfl, rfl⟩
      · split at h
        · cases h
          exact ⟨fun _ => rfl, rfl⟩
        · cases h
  | call | callVar | callKw | callVarKw =>
      cases h
      exact ⟨(fun hex => by cases hex), rfl⟩
  | _ =>
      cases h
      exact ⟨trivial, rfl⟩

/-! ## §3. Laying instructions out. -/

/-- The encoded size does not depend on where the code is laid out. -/
theorem encodeFrom_length (offset other : Nat) (instructions : List Instruction) :
    (encodeFrom offset instructions).length = (encodeFrom other instructions).length := by
  induction instructions generalizing offset other with
  | nil => rfl
  | cons i rest ih =>
      simp only [encodeFrom, List.length_append, Instruction.bytes_length]
      rw [ih (offset + i.size) (other + i.size)]

theorem encodeFrom_append (offset : Nat) (xs ys : List Instruction) :
    encodeFrom offset (xs ++ ys)
      = encodeFrom offset xs ++ encodeFrom (offset + (encodeFrom offset xs).length) ys := by
  induction xs generalizing offset with
  | nil => simp [encodeFrom]
  | cons i rest ih =>
      simp only [List.cons_append, encodeFrom, ih, List.append_assoc, List.length_append,
        Instruction.bytes_length, Nat.add_assoc]

/-- The size of encoded code, one instruction more. -/
theorem encode_cons_size (i : Instruction) (rest : List Instruction) :
    (encode (i :: rest)).size = i.size + (encode rest).size := by
  show (encodeFrom 0 (i :: rest)).length = i.size + (encodeFrom 0 rest).length
  simp only [encodeFrom, List.length_append, Instruction.bytes_length]
  rw [encodeFrom_length (0 + i.size) 0]

/-! ## §4. Decoding at an offset. -/

theorem byteAt_append {before after : List UInt8} (index : Nat) :
    byteAt (before ++ after).toArray (before.length + index) = byteOf after index := by
  unfold byteAt byteOf
  rw [List.getElem?_toArray, List.getElem?_append_right (by omega)]
  congr 2
  omega

/-- **An instruction in encoded code is read back** at its offset, and its
successor stands behind it. -/
theorem decodeAt_encode (before after : List Instruction) (i : Instruction)
    (hlength : (encode (before ++ i :: after)).size ≤ maxCodeLength)
    (hi : i.IsWritten (encode (before ++ i :: after)).size) :
    decodeAt (encode (before ++ i :: after)) (encode before).size
      = .ok (i, (encode before).size + i.size) := by
  have hbefore : (encodeFrom 0 before).length = (encode before).size := rfl
  have hcode : encode (before ++ i :: after)
      = (encodeFrom 0 before ++ (i.opcode.toByte
          :: (i.operandBytes (encode before).size
            ++ encodeFrom ((encode before).size + i.size) after))).toArray := by
    show (encodeFrom 0 (before ++ i :: after)).toArray = _
    rw [encodeFrom_append, Nat.zero_add, hbefore]
    rfl
  rw [hcode] at hlength hi ⊢
  -- of the code around the instruction only its length matters
  generalize (encode before).size = offset at hbefore hlength hi ⊢
  generalize encodeFrom 0 before = head at hbefore hlength hi ⊢
  generalize encodeFrom (offset + i.size) after = tail at hlength hi ⊢
  have hsize : offset + i.size
      ≤ (head ++ (i.opcode.toByte :: (i.operandBytes offset ++ tail))).toArray.size := by
    simp only [List.size_toArray, List.length_append, List.length_cons,
      Instruction.operandBytes_length, Instruction.size]
    omega
  have hfirst : (head ++ (i.opcode.toByte :: (i.operandBytes offset ++ tail))).toArray[offset]?
      = some i.opcode.toByte := by
    rw [List.getElem?_toArray, List.getElem?_append_right (by omega), hbefore]
    simp
  have hbyte : ∀ index, byteAt (head ++ (i.opcode.toByte :: (i.operandBytes offset ++ tail))).toArray
      (offset + (index + 1)) = byteOf (i.operandBytes offset ++ tail) index := by
    intro index
    rw [← hbefore, byteAt_append]
    rfl
  unfold decodeAt
  rw [hfirst]
  dsimp only
  rw [Opcode.ofByte?_toByte]
  dsimp only
  have hnext : offset + 1 + i.opcode.immediateSize = offset + i.size := by
    unfold Instruction.size
    omega
  rw [hnext, if_pos hsize, hbyte 0, hbyte 1,
    Instruction.ofOperands_operandBytes hi hlength hsize]
  rfl

/-- **What is decoded at an offset:** the operation whose byte stands there, with
what it reads behind it, and all of it within the code. -/
theorem exists_of_decodeAt {code : Array UInt8} {offset next : Nat} {i : Instruction}
    (h : decodeAt code offset = .ok (i, next)) :
    ∃ byte op, code[offset]? = some byte ∧ Opcode.ofByte? byte = some op
      ∧ next = offset + 1 + op.immediateSize ∧ next ≤ code.size
      ∧ Instruction.ofOperands offset code.size (byteAt code (offset + 1)) (byteAt code (offset + 2)) op
        = .ok i := by
  unfold decodeAt at h
  split at h
  · cases h
  · rename_i byte hbyte
    split at h
    · cases h
    · rename_i op hopcode
      dsimp only at h
      split at h
      case isTrue hfits =>
        obtain ⟨j, hoperands, hpair⟩ := map_eq_ok_iff.mp h
        cases hpair
        exact ⟨byte, op, hbyte, hopcode, rfl, hfits, hoperands⟩
      case isFalse => cases h

/-- What is decoded at an offset can be written again, and ends where its
successor begins. -/
theorem decodeAt_ok {code : Array UInt8} {offset next : Nat} {i : Instruction}
    (h : decodeAt code offset = .ok (i, next)) :
    i.IsWritten code.size ∧ next = offset + i.size ∧ next ≤ code.size := by
  obtain ⟨_, op, _, _, hnext, hfits, hoperands⟩ := exists_of_decodeAt h
  obtain ⟨hwritten, hopcode⟩ := Instruction.isWritten_of_ofOperands hoperands
  refine ⟨hwritten, ?_, hfits⟩
  unfold Instruction.size
  rw [hopcode]
  omega

/-- Instructions are decoded within the code only. -/
theorem lt_size_of_decodeAt {code : Array UInt8} {offset next : Nat} {i : Instruction}
    (h : decodeAt code offset = .ok (i, next)) : offset < code.size := by
  obtain ⟨_, hnext, hfits⟩ := decodeAt_ok h
  have hpos := i.size_pos
  omega

/-- Nothing is decoded at the end of the code. -/
theorem decodeAt_size {code : Array UInt8} {i : Instruction} {next : Nat} :
    decodeAt code code.size ≠ .ok (i, next) :=
  fun h => Nat.lt_irrefl _ (lt_size_of_decodeAt h)

end CallDecoration
