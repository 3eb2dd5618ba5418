/-
  CallDecoration.Proofs.Bytecode.Bodies
  ──────────────────────────────────────
  **What a decoded body is.**  Decoding a body is decoding one instruction
  behind the other (`Rows`) and finding every jump on an instruction
  (`Aligned`); nothing else decides whether a body decodes and to what
  (`decode_eq_ok`).  The offsets of its rows are those at which its
  instructions stand when they are laid out (`Rows.eq_rowsFrom`).
-/
import CallDecoration.Proofs.Bytecode.Encoding

namespace CallDecoration

/-! ## §1. Rows. -/

/-- Instructions that stand one behind the other, from an offset to the end of
the code. -/
inductive Rows (code : Array UInt8) : Nat → List (Nat × Instruction) → Prop where
  | nil : Rows code code.size []
  | cons {offset next : Nat} {i : Instruction} {rest : List (Nat × Instruction)}
      (hdecode : decodeAt code offset = .ok (i, next)) (hrest : Rows code next rest) :
      Rows code offset ((offset, i) :: rest)

theorem rows_of_decodeFrom {code : Array UInt8} {steps offset : Nat}
    {rows : List (Nat × Instruction)} (hle : offset ≤ code.size)
    (hsteps : code.size ≤ offset + steps) (h : decodeFrom code steps offset = .ok rows) :
    Rows code offset rows := by
  -- every instruction has a byte at least, so a step for each byte left is enough
  induction steps generalizing offset rows with
  | zero =>
      cases h
      have hend : offset = code.size := by omega
      rw [hend]
      exact Rows.nil
  | succ steps ih =>
      unfold decodeFrom at h
      by_cases hlt : offset < code.size
      · rw [if_pos hlt] at h
        cases hdecode : decodeAt code offset with
        | error e =>
            rw [hdecode] at h
            cases h
        | ok decoded =>
            obtain ⟨i, next⟩ := decoded
            rw [hdecode] at h
            dsimp only at h
            cases hlater : decodeFrom code steps next with
            | error e =>
                rw [hlater] at h
                cases h
            | ok later =>
                rw [hlater] at h
                cases h
                obtain ⟨_, hnext, hfits⟩ := decodeAt_ok hdecode
                have hpos := i.size_pos
                exact Rows.cons hdecode (ih hfits (by omega) hlater)
      · rw [if_neg hlt] at h
        cases h
        have hend : offset = code.size := by omega
        rw [hend]
        exact Rows.nil

/-- Instructions that stand one behind the other are decoded in as many steps
as there are bytes. -/
theorem decodeFrom_of_rows {code : Array UInt8} {steps offset : Nat}
    {rows : List (Nat × Instruction)} (hsteps : code.size ≤ offset + steps)
    (h : Rows code offset rows) : decodeFrom code steps offset = .ok rows := by
  induction h generalizing steps with
  | nil =>
      cases steps with
      | zero => rfl
      | succ steps =>
          unfold decodeFrom
          rw [if_neg (Nat.lt_irrefl _)]
  | @cons offset next i rest hdecode hrest ih =>
      obtain ⟨_, hnext, hfits⟩ := decodeAt_ok hdecode
      have hpos := i.size_pos
      cases steps with
      -- an instruction stands here, so a byte is left, and a step with it
      | zero => omega
      | succ steps =>
          have hlater : decodeFrom code steps next = .ok rest := ih (by omega)
          unfold decodeFrom
          rw [if_pos (by omega), hdecode]
          dsimp only
          rw [hlater]

theorem Rows.of_append {code : Array UInt8} {offset : Nat} {pre rest : List (Nat × Instruction)}
    (h : Rows code offset (pre ++ rest)) : ∃ p, Rows code p rest := by
  induction pre generalizing offset with
  | nil => exact ⟨offset, h⟩
  | cons row pre ih =>
      cases h with
      | cons hdecode hrest => exact ih hrest

/-- At the end of the code there are no rows. -/
theorem Rows.eq_nil {code : Array UInt8} {rows : List (Nat × Instruction)}
    (h : Rows code code.size rows) : rows = [] := by
  generalize hoffset : code.size = offset at h
  cases h with
  | nil => rfl
  | cons hdecode hrest =>
      subst hoffset
      exact absurd hdecode decodeAt_size

/-- Rows begin where they begin, or there are none. -/
theorem Rows.begins {code : Array UInt8} {offset : Nat} {rows : List (Nat × Instruction)}
    (h : Rows code offset rows) : offset = code.size ∨ ∃ i, (offset, i) ∈ rows := by
  cases h with
  | nil => exact Or.inl rfl
  | cons hdecode hrest => exact Or.inr ⟨_, List.mem_cons_self⟩

/-- **A row and the rows behind it.** -/
theorem Rows.split {code : Array UInt8} {offset p : Nat} {i : Instruction}
    {rows : List (Nat × Instruction)} (h : Rows code offset rows) (hmem : (p, i) ∈ rows) :
    ∃ before after next, rows = before ++ (p, i) :: after
      ∧ decodeAt code p = .ok (i, next) ∧ Rows code next after := by
  induction h with
  | nil => cases hmem
  | @cons offset next j rest hdecode hrest ih =>
      rcases List.mem_cons.mp hmem with heq | hmem
      · cases heq
        exact ⟨[], rest, next, rfl, hdecode, hrest⟩
      · obtain ⟨before, after, next', rfl, hp, hafter⟩ := ih hmem
        exact ⟨(offset, j) :: before, after, next', rfl, hp, hafter⟩

/-- What stands in a body can be written again. -/
theorem Rows.isWritten {code : Array UInt8} {offset : Nat} {rows : List (Nat × Instruction)}
    (h : Rows code offset rows) {row : Nat × Instruction} (hrow : row ∈ rows) :
    row.2.IsWritten code.size := by
  induction h with
  | nil => cases hrow
  | @cons offset next i rest hdecode hrest ih =>
      rcases List.mem_cons.mp hrow with rfl | hrow
      · exact (decodeAt_ok hdecode).1
      · exact ih hrow

/-! ## §2. Jumps. -/

/-- Every jump of a body lands where one of its instructions begins. -/
def Aligned (body : List (Nat × Instruction)) : Prop :=
  ∀ row ∈ body, ∀ target, row.2.target? = some target → ∃ i, (target, i) ∈ body

theorem beginsAt_eq_true {body : List (Nat × Instruction)} {target : Nat} :
    beginsAt body target = true ↔ ∃ i, (target, i) ∈ body := by
  unfold beginsAt
  rw [List.any_eq_true]
  constructor
  · rintro ⟨⟨offset, i⟩, hmem, heq⟩
    have hoffset : offset = target := eq_of_beq heq
    exact ⟨i, hoffset ▸ hmem⟩
  · rintro ⟨i, hmem⟩
    exact ⟨(target, i), hmem, beq_self_eq_true target⟩

theorem misaligned?_eq_none {body entries : List (Nat × Instruction)} :
    misaligned? body entries = none
      ↔ ∀ row ∈ entries, ∀ target, row.2.target? = some target → ∃ i, (target, i) ∈ body := by
  -- only the rows that are checked grow; the body that they must land in is the whole one
  induction entries with
  | nil => simp [misaligned?]
  | cons row entries ih =>
      obtain ⟨offset, i⟩ := row
      rw [List.forall_mem_cons, ← ih]
      cases htarget : i.target? with
      | none => simp [misaligned?, htarget]
      | some target =>
          by_cases hbegins : beginsAt body target = true
          · have hlands := beginsAt_eq_true.mp hbegins
            simp [misaligned?, htarget, hbegins, hlands]
          · have hmisses := mt beginsAt_eq_true.mpr hbegins
            simp only [misaligned?, htarget, if_neg hbegins]
            constructor
            · intro h
              cases h
            · intro h
              exact absurd (h.1 target rfl) hmisses

/-- **A body decodes to these rows** exactly when they stand one behind the
other and every jump among them is aligned. -/
theorem decode_eq_ok {code : Array UInt8} {rows : List (Nat × Instruction)} :
    decode code = .ok rows ↔ Rows code 0 rows ∧ Aligned rows := by
  unfold decode
  constructor
  · intro h
    cases hbody : decodeFrom code code.size 0 with
    | error e =>
        rw [hbody] at h
        cases h
    | ok body =>
        rw [hbody] at h
        dsimp only at h
        cases hmisaligned : misaligned? body body with
        | some jump =>
            rw [hmisaligned] at h
            cases h
        | none =>
            rw [hmisaligned] at h
            cases h
            exact ⟨rows_of_decodeFrom (Nat.zero_le _) (by omega) hbody,
              misaligned?_eq_none.mp hmisaligned⟩
  · rintro ⟨hrows, haligned⟩
    rw [decodeFrom_of_rows (by omega) hrows]
    dsimp only
    rw [misaligned?_eq_none.mpr haligned]

theorem rows_of_decode {code : Array UInt8} {rows : List (Nat × Instruction)}
    (h : decode code = .ok rows) : Rows code 0 rows :=
  (decode_eq_ok.mp h).1

/-! ## §3. Offsets. -/

/-- **The rows of instructions that are laid out from an offset:** each with
the offset at which the instructions before it end. -/
def rowsFrom (offset : Nat) : List Instruction → List (Nat × Instruction)
  | [] => []
  | i :: rest => (offset, i) :: rowsFrom (offset + i.size) rest

@[simp] theorem rowsFrom_instructions (offset : Nat) (instructions : List Instruction) :
    (rowsFrom offset instructions).map Prod.snd = instructions := by
  induction instructions generalizing offset with
  | nil => rfl
  | cons i rest ih => rw [rowsFrom, List.map_cons, ih]

/-- Rows that stand one behind the other are laid out from where they begin. -/
theorem Rows.eq_rowsFrom {code : Array UInt8} {offset : Nat} {rows : List (Nat × Instruction)}
    (h : Rows code offset rows) : rows = rowsFrom offset (rows.map Prod.snd) := by
  induction h with
  | nil => rfl
  | @cons offset next i rest hdecode hrest ih =>
      obtain ⟨_, hnext, _⟩ := decodeAt_ok hdecode
      rw [List.map_cons, rowsFrom, ← hnext, ← ih]

/-- The row of an instruction tells the encoded size of what stands before
it. -/
theorem mem_rowsFrom {offset target : Nat} {i : Instruction} {instructions : List Instruction} :
    (target, i) ∈ rowsFrom offset instructions
      ↔ ∃ before after, instructions = before ++ i :: after
        ∧ target = offset + (encode before).size := by
  induction instructions generalizing offset with
  | nil => simp [rowsFrom]
  | cons j rest ih =>
      rw [rowsFrom, List.mem_cons, ih, Prod.mk.injEq]
      constructor
      · rintro (⟨rfl, rfl⟩ | ⟨before, after, rfl, rfl⟩)
        · exact ⟨[], rest, rfl, rfl⟩
        · refine ⟨j :: before, after, rfl, ?_⟩
          rw [encode_cons_size]
          omega
      · rintro ⟨before, after, hsplit, rfl⟩
        -- the instruction is the first one, or the first one is among those before it
        cases before with
        | nil =>
            cases hsplit
            exact Or.inl ⟨rfl, rfl⟩
        | cons first before =>
            cases hsplit
            refine Or.inr ⟨before, after, rfl, ?_⟩
            rw [encode_cons_size]
            omega

/-! ## §4. Stretches of a body. -/

/-- Instructions that code decodes to, from one offset to another. -/
inductive Decodes (code : Array UInt8) : Nat → List Instruction → Nat → Prop where
  | nil (offset : Nat) : Decodes code offset [] offset
  | cons {offset next last : Nat} {i : Instruction} {rest : List Instruction}
      (hdecode : decodeAt code offset = .ok (i, next)) (hrest : Decodes code next rest last) :
      Decodes code offset (i :: rest) last

theorem Decodes.split {code : Array UInt8} {p r : Nat} (xs ys : List Instruction)
    (h : Decodes code p (xs ++ ys) r) : ∃ q, Decodes code p xs q ∧ Decodes code q ys r := by
  induction xs generalizing p with
  | nil => exact ⟨p, Decodes.nil p, h⟩
  | cons i xs ih =>
      cases h with
      | cons hdecode hrest =>
          obtain ⟨q, hxs, hys⟩ := ih hrest
          exact ⟨q, Decodes.cons hdecode hxs, hys⟩

end CallDecoration
