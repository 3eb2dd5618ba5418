/-
  CallDecoration.Proofs.Function.Listing
  ──────────────────────────────────────
  **A listing covers the code byte for byte, whatever the bytes are.**  Its
  entries lie side by side from the first byte to the last (`Tiling`): each is
  an instruction with all its bytes, or one byte at which none is decoded.  The
  loop that makes them ends on every code (`walks_iff`).

  Decoding a body stops at the first byte of the second kind, and up to there
  both see the same instructions (`parallels_listingFrom`).  So the listing
  shows every fault of a body but a jump that lands inside an instruction.
-/
import CallDecoration.Function.Listing
import CallDecoration.Proofs.Bytecode.RoundTrip

namespace CallDecoration

/-! ## §1. Entries side by side. -/

/-- The bytes that an entry at `offset` stands for. -/
def ListingItem.bytes (offset : Nat) : ListingItem → List UInt8
  | instruction i => i.bytes offset
  | undecodable byte => [byte]

/-- **What an entry at `offset` stands for,** and the offset at which it ends. -/
inductive Covers (code : Array UInt8) (offset : Nat) : ListingItem → Nat → Prop where
  /-- The instruction that is decoded there, with its encoded size. -/
  | instruction {i : Instruction} (hdecode : decodeAt code offset = .ok (i, offset + i.size)) :
      Covers code offset (.instruction i) (offset + i.size)
  /-- The byte there, if no instruction is. -/
  | undecodable {e : DecodeError} (hinside : offset < code.size)
      (hfails : decodeAt code offset = .error e) :
      Covers code offset (.undecodable code[offset]) (offset + 1)

/-- **Entries side by side,** from an offset to the end of the code. -/
inductive Tiling (code : Array UInt8) : Nat → List (Nat × ListingItem) → Prop where
  | stop : Tiling code code.size []
  | cons {offset next : Nat} {item : ListingItem} {rest : List (Nat × ListingItem)}
      (hcovers : Covers code offset item next) (hrest : Tiling code next rest) :
      Tiling code offset ((offset, item) :: rest)

section

variable {code : Array UInt8} {offset next : Nat} {item : ListingItem} {i : Instruction}
  {e : DecodeError} {entries : List (Nat × ListingItem)}

theorem byteAt_of_lt (h : offset < code.size) : byteAt code offset = code[offset] := by
  unfold byteAt
  rw [Array.getElem?_eq_getElem h]
  rfl

theorem listingItemAt_of_ok (h : decodeAt code offset = .ok (i, next)) :
    listingItemAt code offset = (.instruction i, next) := by
  unfold listingItemAt
  rw [h]

theorem listingItemAt_of_error (h : decodeAt code offset = .error e) :
    listingItemAt code offset = (.undecodable (byteAt code offset), offset + 1) := by
  unfold listingItemAt
  rw [h]

/-- The entry that is made for an offset in the code covers what it should. -/
theorem covers_listingItemAt (h : offset < code.size) :
    Covers code offset (listingItemAt code offset).1 (listingItemAt code offset).2 := by
  cases hdecode : decodeAt code offset with
  | ok decoded =>
      obtain ⟨i, next⟩ := decoded
      obtain ⟨_, hnext, _⟩ := decodeAt_ok hdecode
      subst hnext
      rw [listingItemAt_of_ok hdecode]
      exact Covers.instruction hdecode
  | error e =>
      rw [listingItemAt_of_error hdecode, byteAt_of_lt h]
      exact Covers.undecodable h hdecode

namespace Covers

/-- No other entry covers the offset. -/
theorem listingItemAt_eq (h : Covers code offset item next) :
    listingItemAt code offset = (item, next) := by
  cases h with
  | instruction hdecode => exact listingItemAt_of_ok hdecode
  | undecodable hinside hfails => rw [listingItemAt_of_error hfails, byteAt_of_lt hinside]

/-- An entry has a byte at least, and ends within the code. -/
theorem bounds (h : Covers code offset item next) : offset < next ∧ next ≤ code.size := by
  cases h with
  | @instruction i hdecode =>
      obtain ⟨_, _, hfits⟩ := decodeAt_ok hdecode
      have hpos := i.size_pos
      omega
  | undecodable hinside hfails => omega

/-- The bytes of an entry are those that stand there. -/
theorem bytes_append (h : Covers code offset item next) :
    item.bytes offset ++ code.toList.drop next = code.toList.drop offset := by
  cases h with
  | instruction hdecode => exact (bytes_of_decodeAt hdecode).symm
  | undecodable hinside hfails =>
      rw [drop_eq_byteAt_cons hinside, byteAt_of_lt hinside]
      rfl

end Covers

/-- **A listing lies side by side,** if it has a step for each byte that is
left. -/
theorem tiling_listingFrom {steps : Nat} (hle : offset ≤ code.size)
    (hsteps : code.size ≤ offset + steps) : Tiling code offset (listingFrom code steps offset) := by
  induction steps generalizing offset with
  | zero =>
      have hend : offset = code.size := by omega
      rw [hend]
      exact Tiling.stop
  | succ steps ih =>
      unfold listingFrom
      by_cases hinside : offset < code.size
      · rw [if_pos hinside]
        -- an entry takes a byte at least, so the steps that remain are enough behind it
        have hcovers := covers_listingItemAt hinside
        have hbounds := hcovers.bounds
        exact Tiling.cons hcovers (ih hbounds.2 (by omega))
      · rw [if_neg hinside]
        have hend : offset = code.size := by omega
        rw [hend]
        exact Tiling.stop

namespace Tiling

/-- The first entry stands where the tiling begins. -/
theorem begins (h : Tiling code offset entries) (hinside : offset < code.size) :
    ∃ item rest, entries = (offset, item) :: rest := by
  cases h with
  | stop => exact absurd hinside (Nat.lt_irrefl _)
  | cons hcovers hrest => exact ⟨_, _, rfl⟩

theorem offset_le (h : Tiling code offset entries) : ∀ entry ∈ entries, offset ≤ entry.1 := by
  induction h with
  | stop =>
      intro entry hentry
      cases hentry
  | cons hcovers hrest ih =>
      intro entry hentry
      have hbounds := hcovers.bounds
      rcases List.mem_cons.mp hentry with rfl | hentry
      · exact Nat.le_refl _
      · have hlater := ih entry hentry
        omega

/-- The offsets of entries that lie side by side strictly increase. -/
theorem increasing (h : Tiling code offset entries) :
    (entries.map Prod.fst).Pairwise (· < ·) := by
  induction h with
  | stop => exact List.Pairwise.nil
  | cons hcovers hrest ih =>
      refine List.Pairwise.cons ?_ ih
      intro later hlater
      obtain ⟨entry, hentry, rfl⟩ := List.mem_map.mp hlater
      exact Nat.lt_of_lt_of_le hcovers.bounds.1 (hrest.offset_le entry hentry)

/-- **Entries that lie side by side spell the code:** no byte is left out, and
none is shown twice. -/
theorem bytes_eq (h : Tiling code offset entries) :
    (entries.flatMap fun entry => entry.2.bytes entry.1) = code.toList.drop offset := by
  induction h with
  | stop => simp
  | cons hcovers hrest ih =>
      rw [List.flatMap_cons, ih]
      exact hcovers.bytes_append

end Tiling

/-! ## §2. The loop. -/

/-- **The loop of a listing,** from an offset to the one at which it ends: as
long as the offset lies in the code, the entry there is shown and the loop goes
on behind it.  No number of turns is given beforehand. -/
inductive Walks (code : Array UInt8) : Nat → List (Nat × ListingItem) → Nat → Prop where
  | stop {offset : Nat} (hend : ¬ offset < code.size) : Walks code offset [] offset
  | turn {offset next last : Nat} {item : ListingItem} {rest : List (Nat × ListingItem)}
      (hinside : offset < code.size) (hitem : listingItemAt code offset = (item, next))
      (hrest : Walks code next rest last) : Walks code offset ((offset, item) :: rest) last

theorem Tiling.walks (h : Tiling code offset entries) : Walks code offset entries code.size := by
  induction h with
  | stop => exact Walks.stop (Nat.lt_irrefl _)
  | cons hcovers hrest ih =>
      have hbounds := hcovers.bounds
      exact Walks.turn (by omega) hcovers.listingItemAt_eq ih

/-- The loop ends in one way at most. -/
theorem Walks.unique {entries' : List (Nat × ListingItem)} {last last' : Nat}
    (h : Walks code offset entries last) (h' : Walks code offset entries' last') :
    entries = entries' ∧ last = last' := by
  -- both look at the same offset, so they stop together or show the same entry
  induction h generalizing entries' with
  | stop hend =>
      cases h' with
      | stop _ => exact ⟨rfl, rfl⟩
      | turn hinside _ _ => exact absurd hinside hend
  | turn hinside hitem hrest ih =>
      cases h' with
      | stop hend => exact absurd hinside hend
      | turn _ hitem' hrest' =>
          obtain ⟨rfl, rfl⟩ := Prod.mk.inj (hitem.symm.trans hitem')
          obtain ⟨rfl, rfl⟩ := ih hrest'
          exact ⟨rfl, rfl⟩

/-- The entries of a body lie side by side from its first byte. -/
theorem tiling_listing (code : Array UInt8) : Tiling code 0 (listing code) :=
  tiling_listingFrom (Nat.zero_le _) (Nat.le_add_left _ _)

/-- **The loop ends on every code,** where the code ends and with the listing as
its entries. -/
theorem walks_iff {last : Nat} :
    Walks code 0 entries last ↔ entries = listing code ∧ last = code.size := by
  have hwalks : Walks code 0 (listing code) code.size := (tiling_listing code).walks
  constructor
  · intro h
    exact h.unique hwalks
  · rintro ⟨rfl, rfl⟩
    exact hwalks

end

/-! ## §3. Beside the decoder. -/

/-- The entry that shows a decoded instruction. -/
def entryOfRow (row : Nat × Instruction) : Nat × ListingItem :=
  (row.1, .instruction row.2)

theorem entryOfRow_injective : Function.Injective entryOfRow := by
  rintro ⟨offset, i⟩ ⟨offset', i'⟩ h
  cases h
  rfl

/-- Among the entries of instructions there is no undecodable byte. -/
theorem undecodable_not_mem {rows : List (Nat × Instruction)} {offset : Nat} {byte : UInt8} :
    (offset, ListingItem.undecodable byte) ∉ rows.map entryOfRow := by
  intro h
  obtain ⟨row, _, hrow⟩ := List.mem_map.mp h
  cases hrow

/-- **How decoding and a listing go together:** they show the same instructions,
to the end or to the byte at which decoding stops. -/
inductive Parallels (code : Array UInt8) :
    Except DecodeError (List (Nat × Instruction)) → List (Nat × ListingItem) → Prop where
  /-- Decoding goes through. -/
  | through (rows : List (Nat × Instruction)) : Parallels code (.ok rows) (rows.map entryOfRow)
  /-- Decoding stops; the listing shows the byte there and goes on in its own
  way. -/
  | stopped {p : Nat} {byte : UInt8} {e : DecodeError} (rows : List (Nat × Instruction))
      (rest : List (Nat × ListingItem)) (hfails : decodeAt code p = .error e) :
      Parallels code (.error e) (rows.map entryOfRow ++ (p, .undecodable byte) :: rest)

section

variable {code : Array UInt8} {steps offset : Nat} {rows : List (Nat × Instruction)}
  {entries : List (Nat × ListingItem)} {outcome : Except DecodeError (List (Nat × Instruction))}
  {e : DecodeError}

/-- **Decoding and the listing go together,** however many steps both make. -/
theorem parallels_listingFrom :
    Parallels code (decodeFrom code steps offset) (listingFrom code steps offset) := by
  induction steps generalizing offset with
  | zero => exact Parallels.through []
  | succ steps ih =>
      unfold decodeFrom listingFrom
      by_cases hinside : offset < code.size
      · rw [if_pos hinside, if_pos hinside]
        cases hdecode : decodeAt code offset with
        | error e =>
            rw [listingItemAt_of_error hdecode]
            exact Parallels.stopped [] _ hdecode
        | ok decoded =>
            obtain ⟨i, next⟩ := decoded
            rw [listingItemAt_of_ok hdecode]
            dsimp only
            -- behind the instruction both go on from the same offset
            have hlater := @ih next
            generalize decodeFrom code steps next = outcome at hlater ⊢
            generalize listingFrom code steps next = entries at hlater ⊢
            cases hlater with
            | through rows => exact Parallels.through ((offset, i) :: rows)
            | stopped rows rest hfails => exact Parallels.stopped ((offset, i) :: rows) rest hfails
      · rw [if_neg hinside, if_neg hinside]
        exact Parallels.through []

theorem parallels_listing (code : Array UInt8) :
    Parallels code (decodeFrom code code.size 0) (listing code) :=
  parallels_listingFrom

namespace Parallels

/-- Decoding goes through with the instructions of a listing that shows nothing
else. -/
theorem ok_iff (h : Parallels code outcome entries) :
    outcome = .ok rows ↔ entries = rows.map entryOfRow := by
  cases h with
  | through rows' =>
      rw [(List.map_injective_iff.mpr entryOfRow_injective).eq_iff]
      exact ⟨Except.ok.inj, congrArg Except.ok⟩
  | @stopped p byte e rows' rest hfails =>
      constructor
      · intro hok
        cases hok
      · intro hrows
        -- the byte at which decoding stops would be among the instructions
        have hmem : (p, ListingItem.undecodable byte)
            ∈ rows'.map entryOfRow ++ (p, .undecodable byte) :: rest :=
          List.mem_append_right _ List.mem_cons_self
        rw [hrows] at hmem
        exact absurd hmem undecodable_not_mem

/-- Decoding stops exactly if the listing shows an undecodable byte. -/
theorem error_iff (h : Parallels code outcome entries) :
    (∃ e, outcome = .error e) ↔ ∃ p byte, (p, ListingItem.undecodable byte) ∈ entries := by
  cases h with
  | through rows =>
      constructor
      · rintro ⟨e, herror⟩
        cases herror
      · rintro ⟨p, byte, hmem⟩
        exact absurd hmem undecodable_not_mem
  | @stopped p byte e rows rest hfails =>
      constructor
      · intro _
        exact ⟨p, byte, List.mem_append_right _ List.mem_cons_self⟩
      · intro _
        exact ⟨e, rfl⟩

/-- The first undecodable byte is where decoding stops, and why. -/
theorem stops (h : Parallels code (.error e) entries) :
    ∃ (rows : List (Nat × Instruction)) (p : Nat) (byte : UInt8) (rest : List (Nat × ListingItem)),
      entries = rows.map entryOfRow ++ (p, .undecodable byte) :: rest
        ∧ decodeAt code p = .error e := by
  cases h with
  | @stopped p byte _ rows rest hfails => exact ⟨rows, p, byte, rest, rfl, hfails⟩

end Parallels

/-- **A body decodes** to the instructions of its listing, if it shows nothing
else and every jump among them is aligned. -/
theorem decode_eq_ok_iff_listing :
    decode code = .ok rows ↔ listing code = rows.map entryOfRow ∧ Aligned rows := by
  rw [decode_eq_ok, ← (parallels_listing code).ok_iff]
  constructor
  · rintro ⟨hrows, haligned⟩
    exact ⟨decodeFrom_of_rows (by omega) hrows, haligned⟩
  · rintro ⟨hbody, haligned⟩
    exact ⟨rows_of_decodeFrom (Nat.zero_le _) (by omega) hbody, haligned⟩

/-! ## §4. Faults of single instructions, and misaligned jumps. -/

/-- A jump lands inside an instruction. -/
def DecodeError.IsMisaligned : DecodeError → Prop
  | misalignedJump _ _ => True
  | _ => False

theorem jumpTarget_not_misaligned {length : Nat} {b₀ b₁ : UInt8}
    (h : jumpTarget offset length b₀ b₁ = .error e) : ¬ e.IsMisaligned := by
  unfold jumpTarget at h
  dsimp only at h
  split at h
  case isTrue => cases h
  case isFalse =>
    cases h
    exact not_false

theorem Instruction.ofOperands_not_misaligned {length : Nat} {b₀ b₁ : UInt8} {op : Opcode}
    (h : ofOperands offset length b₀ b₁ op = .error e) : ¬ e.IsMisaligned := by
  -- both jumps hand on what is wrong with their target
  have hjump : ∀ make : Nat → Instruction,
      (jumpTarget offset length b₀ b₁).map make = .error e → ¬ e.IsMisaligned := by
    intro make hmap
    exact jumpTarget_not_misaligned (map_eq_error_iff.mp hmap)
  cases op with
  | jump => exact hjump .jump h
  | jumpIfFalse => exact hjump .jumpIfFalse h
  | callEx =>
      simp only [ofOperands] at h
      split at h
      · cases h
      · split at h
        · cases h
        · cases h
          exact not_false
  | _ => cases h

/-- Where a jump lands is not asked of a single instruction. -/
theorem decodeAt_not_misaligned (h : decodeAt code offset = .error e) : ¬ e.IsMisaligned := by
  unfold decodeAt at h
  split at h
  · cases h
    exact not_false
  · split at h
    · cases h
      exact not_false
    · rename_i op _
      dsimp only at h
      split at h
      case isTrue =>
        cases hoperands : Instruction.ofOperands offset code.size (byteAt code (offset + 1))
            (byteAt code (offset + 2)) op with
        | ok i =>
            rw [hoperands] at h
            cases h
        | error cause =>
            rw [hoperands] at h
            cases h
            exact Instruction.ofOperands_not_misaligned hoperands
      case isFalse =>
        cases h
        exact not_false

/-- **Decoding one instruction behind the other fails** exactly if decoding the
body does, and not for a misaligned jump. -/
theorem decodeFrom_eq_error :
    decodeFrom code code.size 0 = .error e ↔ decode code = .error e ∧ ¬ e.IsMisaligned := by
  constructor
  · intro h
    have hparallels := parallels_listing code
    rw [h] at hparallels
    obtain ⟨_, _, _, _, _, hfails⟩ := hparallels.stops
    refine ⟨?_, decodeAt_not_misaligned hfails⟩
    unfold decode
    rw [h]
  · rintro ⟨h, haligned⟩
    unfold decode at h
    cases hbody : decodeFrom code code.size 0 with
    | error cause =>
        rw [hbody] at h
        exact congrArg Except.error (Except.error.inj h)
    | ok body =>
        -- all instructions were decoded, so only a jump can be at fault
        rw [hbody] at h
        dsimp only at h
        split at h
        · cases h
          exact absurd trivial haligned
        · cases h

end

/-! ## §5. The text. -/

theorem Opcode.mnemonic_begins (op : Opcode) :
    ∃ c rest, op.mnemonic.toList = c :: rest ∧ c ≠ '?' := by
  cases op <;> exact ⟨_, _, rfl, by decide⟩

namespace Chunk

variable (c : Chunk Value)

/-- The line of an entry. -/
def line (entry : Nat × ListingItem) : String :=
  Text.hex 4 entry.1 ++ " " ++ c.itemText entry.2 ++ "\n"

/-- A text that is shown at an offset begins with question marks if the byte
there is undecodable, and only then. -/
theorem itemText_begins_iff (item : ListingItem) :
    (∃ rest, c.itemText item = "???" ++ rest) ↔ ∃ byte, item = .undecodable byte := by
  cases item with
  | undecodable byte =>
      have htext : c.itemText (.undecodable byte) = "???" ++ (" (0x" ++ Text.hex 2 byte.toNat ++ ")") := by
        show "??? (0x" ++ Text.hex 2 byte.toNat ++ ")" = _
        rw [← String.append_assoc, ← String.append_assoc]
        rfl
      exact ⟨fun _ => ⟨byte, rfl⟩, fun _ => ⟨_, htext⟩⟩
  | instruction i =>
      constructor
      · rintro ⟨rest, h⟩
        -- the text begins with the mnemonic, and none of these with a question mark
        obtain ⟨first, later, hmnemonic, hfirst⟩ := i.opcode.mnemonic_begins
        have hchars := congrArg String.toList h
        unfold itemText Instruction.text at hchars
        rw [String.toList_append, String.toList_append, String.toList_append, hmnemonic] at hchars
        exact absurd (List.cons.inj hchars).1 hfirst
      · rintro ⟨byte, h⟩
        cases h

/-- A listing is its header and a line for each entry. -/
theorem disassemble_eq :
    c.disassemble = c.listingHeader ++ String.join ((listing c.code).map c.line) := by
  unfold disassemble
  generalize c.listingHeader = text
  -- the lines come behind whatever text there is already
  induction listing c.code generalizing text with
  | nil => simp
  | cons entry rest ih =>
      rw [List.foldl_cons, ih, List.map_cons, String.join_cons]
      unfold line
      simp only [String.append_assoc]

/-! ## §6. The listing of a chunk. -/

/-- **What the listing of a chunk is,** by its code and what that decodes to. -/
structure ListsItsCode : Prop where
  /-- The loop ends, where the code ends, and shows the entries of the listing. -/
  ends_iff : ∀ entries last,
    Walks c.code 0 entries last ↔ entries = listing c.code ∧ last = c.code.size
  /-- Each step covers an instruction or an undecodable byte, and ends where the
  next one begins or the code ends. -/
  tiles : Tiling c.code 0 (listing c.code)
  /-- The first offset is zero, unless there is no code. -/
  begins : 0 < c.code.size → ∃ item rest, listing c.code = (0, item) :: rest
  /-- The offsets strictly increase. -/
  increasing : ((listing c.code).map Prod.fst).Pairwise (· < ·)
  /-- The entries spell the code. -/
  spells : ((listing c.code).flatMap fun entry => entry.2.bytes entry.1) = c.code.toList
  /-- The text has a line for each entry, in order. -/
  lines : c.disassemble = c.listingHeader ++ String.join ((listing c.code).map c.line)
  /-- Lines of undecodable bytes are marked as such, and no others are. -/
  marks : ∀ item, (∃ rest, c.itemText item = "???" ++ rest) ↔ ∃ byte, item = .undecodable byte
  /-- A body decodes to the instructions of its listing, if it shows nothing else
  and every jump is aligned. -/
  decodes_iff : ∀ rows,
    c.instructions = .ok rows ↔ listing c.code = rows.map entryOfRow ∧ Aligned rows
  /-- An undecodable byte is shown exactly if decoding fails before the jumps are
  looked at. -/
  undecodable_iff : (∃ p byte, (p, ListingItem.undecodable byte) ∈ listing c.code)
    ↔ ∃ e, decodeFrom c.code c.code.size 0 = .error e
  /-- That is to say, if decoding fails for another reason than a misaligned jump. -/
  fails_iff : ∀ e, decodeFrom c.code c.code.size 0 = .error e
    ↔ c.instructions = .error e ∧ ¬ e.IsMisaligned
  /-- The first undecodable byte is where decoding fails, behind the instructions
  that it has decoded. -/
  stops : ∀ e, decodeFrom c.code c.code.size 0 = .error e →
    ∃ (rows : List (Nat × Instruction)) (p : Nat) (byte : UInt8) (rest : List (Nat × ListingItem)),
      listing c.code = rows.map entryOfRow ++ (p, .undecodable byte) :: rest
        ∧ decodeAt c.code p = .error e

/-- **The listing of a chunk covers its code and agrees with the decoder.** -/
theorem listing_tiles : ListsItsCode c where
  ends_iff := fun _ _ => walks_iff
  tiles := tiling_listing c.code
  begins := (tiling_listing c.code).begins
  increasing := (tiling_listing c.code).increasing
  spells := (tiling_listing c.code).bytes_eq
  lines := c.disassemble_eq
  marks := c.itemText_begins_iff
  decodes_iff := fun _ => decode_eq_ok_iff_listing
  undecodable_iff := (parallels_listing c.code).error_iff.symm
  fails_iff := fun _ => decodeFrom_eq_error
  stops := by
    intro e h
    have hparallels := parallels_listing c.code
    rw [h] at hparallels
    exact hparallels.stops

/-- The jump leaves the code; of its operand bytes the first names no operation
and the second is an instruction. -/
example : listing #[0x50, 0x7f, 0x10]
    = [(0, .undecodable 0x50), (1, .undecodable 0x7f), (2, .instruction .pushNil)] := by rfl

end Chunk

end CallDecoration
