/-
  CallDecoration.Proofs.Bytecode.RoundTrip
  ──────────────────────────────────────
  **Encoding and decoding are inverse to each other.**  The instruction lists
  that have an encoding are the well-formed ones (`WellFormed`); they are
  decoded to what they were.  In the other direction every instruction that is
  read at an offset is written with the bytes that stand there
  (`bytes_of_decodeAt`), so a body of any length is encoded to what it was.
-/
import CallDecoration.Proofs.Bytecode.Bodies

namespace CallDecoration

/-! ## §1. Bytes that were read are written again. -/

theorem wordBytes_wordOfBytes (high low : UInt8) : wordBytes (wordOfBytes high low) = [high, low] := by
  have hhigh : high.toNat < 256 := high.toNat_lt
  have hlow : low.toNat < 256 := low.toNat_lt
  have hword : (wordOfBytes high low).toNat = 256 * high.toNat + low.toNat := by
    unfold wordOfBytes
    rw [UInt16.toNat_ofNat']
    omega
  have hdiv : (256 * high.toNat + low.toNat) / 256 = high.toNat := by omega
  have hmod : (256 * high.toNat + low.toNat) % 256 = low.toNat := by omega
  unfold wordBytes
  rw [hword, hdiv, hmod, UInt8.ofNat_toNat, UInt8.ofNat_toNat]

/-- A word is the distance that it stands for, wherever the jump is. -/
theorem distanceWord_wordDistance {source target : Nat} {w : UInt16}
    (h : (target : Int) = source + wordDistance w) : distanceWord source target = w := by
  have hw : w.toNat < 65536 := w.toNat_lt
  -- a word stands for the smallest distance, to either side, that it is congruent to
  unfold wordDistance Int.bmod at h
  unfold distanceWord
  have hdistance : (((target : Int) - (source : Int)) % 65536).toNat = w.toNat := by
    dsimp only at h
    split at h <;> omega
  rw [hdistance, UInt16.ofNat_toNat]

/-- The target of a jump that was read leads back to its operand bytes. -/
theorem distance_of_jumpTarget {offset length target : Nat} {b₀ b₁ : UInt8}
    (h : jumpTarget offset length b₀ b₁ = .ok target) :
    wordBytes (distanceWord (offset + jumpSize) target) = [b₀, b₁] := by
  unfold jumpTarget at h
  dsimp only at h
  split at h
  case isTrue hrange =>
    have htarget := Except.ok.inj h
    rw [distanceWord_wordDistance (w := wordOfBytes b₀ b₁) (by omega), wordBytes_wordOfBytes]
  case isFalse => cases h

theorem Opcode.toByte_of_ofByte? {byte : UInt8} {op : Opcode} (h : Opcode.ofByte? byte = some op) :
    op.toByte = byte := by
  unfold ofByte? at h
  have hfound := List.find?_some h
  exact eq_of_beq hfound

/-- **Operands that were read are written again:** as many of the two bytes as
the operation has. -/
theorem Instruction.operandBytes_of_ofOperands {offset length : Nat} {b₀ b₁ : UInt8} {op : Opcode}
    {i : Instruction} (h : ofOperands offset length b₀ b₁ op = .ok i) :
    i.operandBytes offset = [b₀, b₁].take op.immediateSize := by
  -- both jumps read their two bytes in the same way, and differ in what they make of the target
  have hjump : ∀ make : Nat → Instruction,
      (∀ t, (make t).operandBytes offset = wordBytes (distanceWord (offset + jumpSize) t)) →
      (jumpTarget offset length b₀ b₁).map make = .ok i → i.operandBytes offset = [b₀, b₁] := by
    intro make hmake hmap
    obtain ⟨target, htarget, rfl⟩ := map_eq_ok_iff.mp hmap
    rw [hmake, distance_of_jumpTarget htarget]
  cases op with
  | jump => exact hjump .jump (fun _ => rfl) h
  | jumpIfFalse => exact hjump .jumpIfFalse (fun _ => rfl) h
  | pushSmall =>
      cases h
      show [b₀.toInt8.toUInt8] = [b₀]
      rw [UInt8.toUInt8_toInt8]
  | pushConstant | loadGlobal | storeGlobal | loadCapture =>
      cases h
      exact wordBytes_wordOfBytes b₀ b₁
  | callEx =>
      -- of the operand byte only the values 0 and 1 are read
      simp only [ofOperands] at h
      split at h
      · cases h
        subst b₀
        rfl
      · split at h
        · cases h
          subst b₀
          rfl
        · cases h
  | _ =>
      cases h
      rfl

theorem drop_eq_byteAt_cons {code : Array UInt8} {offset : Nat} (h : offset < code.size) :
    code.toList.drop offset = byteAt code offset :: code.toList.drop (offset + 1) := by
  rw [List.drop_eq_getElem_cons (by simpa using h)]
  unfold byteAt
  simp [h]

/-- The next `count` bytes, of which there are at most two, are the first ones
of the two that follow. -/
theorem drop_eq_operands {code : Array UInt8} {offset count : Nat} (hcount : count ≤ 2)
    (h : offset + count ≤ code.size) :
    code.toList.drop offset
      = [byteAt code offset, byteAt code (offset + 1)].take count ++ code.toList.drop (offset + count) := by
  match count, hcount with
  | 0, _ => rfl
  | 1, _ => exact drop_eq_byteAt_cons (by omega)
  | 2, _ =>
      rw [drop_eq_byteAt_cons (by omega), drop_eq_byteAt_cons (by omega)]
      rfl

theorem Opcode.immediateSize_le (op : Opcode) : op.immediateSize ≤ 2 := by
  cases op <;> decide

/-- **An instruction that was read has the bytes that stand there.** -/
theorem bytes_of_decodeAt {code : Array UInt8} {offset next : Nat} {i : Instruction}
    (h : decodeAt code offset = .ok (i, next)) :
    code.toList.drop offset = i.bytes offset ++ code.toList.drop next := by
  obtain ⟨byte, op, hbyte, hopcode, rfl, hfits, hoperands⟩ := exists_of_decodeAt h
  have hlt : offset < code.size := lt_size_of_decodeAt h
  have hfirst : byteAt code offset = byte := by
    unfold byteAt
    rw [hbyte]
    rfl
  obtain ⟨_, hsame⟩ := Instruction.isWritten_of_ofOperands hoperands
  -- the operand bytes lie within the code, so none of them was read as a default
  rw [drop_eq_byteAt_cons hlt, hfirst, drop_eq_operands op.immediateSize_le (by omega)]
  unfold Instruction.bytes
  rw [hsame, Opcode.toByte_of_ofByte? hopcode, Instruction.operandBytes_of_ofOperands hoperands]
  rfl

/-- The instructions of rows that stand one behind the other are encoded to
the rest of the code. -/
theorem encodeFrom_of_rows {code : Array UInt8} {offset : Nat} {rows : List (Nat × Instruction)}
    (h : Rows code offset rows) :
    encodeFrom offset (rows.map Prod.snd) = code.toList.drop offset := by
  induction h with
  | nil => simp [encodeFrom]
  | @cons offset next i rest hdecode hrest ih =>
      obtain ⟨_, hnext, _⟩ := decodeAt_ok hdecode
      rw [bytes_of_decodeAt hdecode, List.map_cons, encodeFrom, ← hnext, ih]

/-- **A body that decodes is encoded to what it was,** whatever its length. -/
theorem encode_of_decode {code : Array UInt8} {rows : List (Nat × Instruction)}
    (h : decode code = .ok rows) : encode (rows.map Prod.snd) = code := by
  unfold encode
  rw [encodeFrom_of_rows (rows_of_decode h), List.drop_zero]

/-! ## §2. Well-formed instruction lists. -/

/-- An instruction of the list begins at the offset: the instructions before it
have that encoded size. -/
def Begins (instructions : List Instruction) (offset : Nat) : Prop :=
  ∃ before i after, instructions = before ++ i :: after ∧ offset = (encode before).size

/-- **Instruction lists that have an encoding.** -/
structure WellFormed (instructions : List Instruction) : Prop where
  /-- The code is not longer than a jump can reach. -/
  fits : (encode instructions).size ≤ maxCodeLength
  /-- Every jump lands on an instruction. -/
  lands : ∀ i ∈ instructions, ∀ target, i.target? = some target → Begins instructions target
  /-- A call in the form that spells out no argument has none, and a tuple of
  arguments. -/
  spreads : ∀ shape, Instruction.call shape ∈ instructions → shape.expandable = true →
    shape.positional = 0 ∧ shape.keyword = 0 ∧ shape.varPositional = true

theorem CallShape.isWritten_iff {shape : CallShape} :
    shape.IsWritten ↔ (shape.expandable = true →
      shape.positional = 0 ∧ shape.keyword = 0 ∧ shape.varPositional = true) := by
  obtain ⟨positional, keyword, varPositional, varKeyword, expandable⟩ := shape
  unfold IsWritten
  constructor
  · intro h hexpandable
    have hspread := h hexpandable
    unfold CallShape.spread at hspread
    simp only [CallShape.mk.injEq] at hspread
    exact ⟨hspread.1, hspread.2.1, hspread.2.2.1⟩
  · intro h hexpandable
    obtain ⟨rfl, rfl, rfl⟩ := h hexpandable
    change expandable = true at hexpandable
    subst hexpandable
    rfl

theorem Begins.lt_size {instructions : List Instruction} {offset : Nat}
    (h : Begins instructions offset) : offset < (encode instructions).size := by
  obtain ⟨before, i, after, rfl, rfl⟩ := h
  have hpos := i.size_pos
  have hbefore : (encodeFrom 0 before).length = (encode before).size := rfl
  show _ < (encodeFrom 0 (before ++ i :: after)).length
  rw [encodeFrom_append, List.length_append, encodeFrom, List.length_append,
    Instruction.bytes_length, hbefore]
  omega

theorem begins_iff {instructions : List Instruction} {offset : Nat} :
    Begins instructions offset ↔ ∃ i, (offset, i) ∈ rowsFrom 0 instructions := by
  unfold Begins
  simp only [mem_rowsFrom, Nat.zero_add]
  constructor
  · rintro ⟨before, i, after, hsplit, hoffset⟩
    exact ⟨i, before, after, hsplit, hoffset⟩
  · rintro ⟨i, before, after, hsplit, hoffset⟩
    exact ⟨before, i, after, hsplit, hoffset⟩

namespace WellFormed

variable {instructions : List Instruction}

/-- The instructions of a well-formed list can be written. -/
theorem isWritten (h : WellFormed instructions) {i : Instruction} (hi : i ∈ instructions) :
    i.IsWritten (encode instructions).size := by
  cases i with
  | call shape => exact CallShape.isWritten_iff.mpr (h.spreads shape hi)
  | jump target | jumpIfFalse target => exact (h.lands _ hi target rfl).lt_size
  | _ => trivial

/-- They stand one behind the other in their encoding. -/
theorem rows (h : WellFormed instructions) :
    Rows (encode instructions) 0 (rowsFrom 0 instructions) := by
  have hrest : ∀ before after, instructions = before ++ after →
      Rows (encode instructions) (encode before).size (rowsFrom (encode before).size after) := by
    -- what stands before is encoded already and gives the offset of what comes next
    intro before after hsplit
    induction after generalizing before with
    | nil =>
        rw [hsplit, List.append_nil]
        exact Rows.nil
    | cons i after ih =>
        have hdecode : decodeAt (encode instructions) (encode before).size
            = .ok (i, (encode before).size + i.size) := by
          have hwritten := h.isWritten (i := i) (by rw [hsplit]; simp)
          have hfits := h.fits
          rw [hsplit] at hwritten hfits ⊢
          exact decodeAt_encode before after i hfits hwritten
        have hnext : (encode before).size + i.size = (encode (before ++ [i])).size := by
          show _ = (encodeFrom 0 (before ++ [i])).length
          rw [encodeFrom_append, List.length_append]
          simp [encodeFrom, encode]
        refine Rows.cons hdecode ?_
        rw [hnext]
        exact ih (before ++ [i]) (by rw [hsplit, List.append_assoc]; rfl)
  exact hrest [] instructions rfl

/-- **What was encoded is decoded to what it was,** each instruction at its
offset. -/
theorem decode_encode (h : WellFormed instructions) :
    decode (encode instructions) = .ok (rowsFrom 0 instructions) := by
  refine decode_eq_ok.mpr ⟨h.rows, ?_⟩
  intro row hrow target htarget
  have hmem : row.2 ∈ instructions := by
    rw [← rowsFrom_instructions 0 instructions]
    exact List.mem_map_of_mem hrow
  exact begins_iff.mp (h.lands row.2 hmem target htarget)

end WellFormed

/-- What a body that is not too long decodes to is well formed. -/
theorem wellFormed_of_decode {code : Array UInt8} {rows : List (Nat × Instruction)}
    (hlength : code.size ≤ maxCodeLength) (h : decode code = .ok rows) :
    WellFormed (rows.map Prod.snd) := by
  obtain ⟨hrows, haligned⟩ := decode_eq_ok.mp h
  refine ⟨?_, ?_, ?_⟩
  · rw [encode_of_decode h]
    exact hlength
  · intro i hi target htarget
    obtain ⟨row, hrow, rfl⟩ := List.mem_map.mp hi
    rw [begins_iff, ← hrows.eq_rowsFrom]
    exact haligned row hrow target htarget
  · intro shape hshape
    obtain ⟨row, hrow, hcall⟩ := List.mem_map.mp hshape
    have hwritten := hrows.isWritten hrow
    rw [hcall] at hwritten
    exact CallShape.isWritten_iff.mp hwritten

/-! ## §3. Both directions. -/

/-- **The codec is exact.**  Well-formed lists are read back, with the offsets
of their instructions; every body that decodes, of any length, is written back
byte by byte; and among bodies that are not too long those that decode are the
encodings of well-formed lists. -/
theorem encode_decode_inverse :
    (∀ instructions, WellFormed instructions →
        decode (encode instructions) = .ok (rowsFrom 0 instructions))
      ∧ (∀ code rows, decode code = .ok rows → encode (rows.map Prod.snd) = code)
      ∧ ∀ code : Array UInt8, code.size ≤ maxCodeLength →
        ((∃ rows, decode code = .ok rows)
          ↔ ∃ instructions, WellFormed instructions ∧ encode instructions = code) := by
  refine ⟨fun _ h => h.decode_encode, fun _ _ h => encode_of_decode h, ?_⟩
  intro code hlength
  constructor
  · rintro ⟨rows, h⟩
    exact ⟨rows.map Prod.snd, wellFormed_of_decode hlength h, encode_of_decode h⟩
  · rintro ⟨instructions, hwell, rfl⟩
    exact ⟨rowsFrom 0 instructions, hwell.decode_encode⟩

/-- A body with a forward and a backward jump, a marked call and a call in the
form that spells out no argument. -/
def jumpingBody : List Instruction :=
  [.pushTrue, .jumpIfFalse 13, .synthetic, .call (CallShape.plain 1), .call (CallShape.spread true),
    .jump 0, .return]

/-- It is well formed, its encoding is read back, and what is read is written
back. -/
theorem encode_decode_inverse_jumpingBody :
    WellFormed jumpingBody
      ∧ decode (encode jumpingBody) = .ok (rowsFrom 0 jumpingBody)
      ∧ encode ((rowsFrom 0 jumpingBody).map Prod.snd) = encode jumpingBody := by
  have hdecode : decode (encode jumpingBody) = .ok (rowsFrom 0 jumpingBody) := by decide +kernel
  have hwell : WellFormed jumpingBody := wellFormed_of_decode (by decide +kernel) hdecode
  exact ⟨hwell, encode_decode_inverse.1 jumpingBody hwell,
    encode_decode_inverse.2.1 (encode jumpingBody) (rowsFrom 0 jumpingBody) hdecode⟩

end CallDecoration
