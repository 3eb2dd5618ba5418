/-
  CallDecoration.Proofs.Instrumentation.Relocation
  ──────────────────────────────────────
  **What a pass makes of a chunk.**  A pass succeeds exactly on the bodies
  that decode, in which every mark stands before a call and no call of the
  user's has more operands than a tuple holds, as long as the result is not too
  long; and `Chunk.instrument_eq` tells what it then gives.  Every jump is led
  to where the image of its old target begins (`carriedOffset`), which the new
  body, decoded again, confirms (`instrument_output`).
-/
import CallDecoration.Proofs.Bytecode.RoundTrip
import CallDecoration.Proofs.Instrumentation.Layout
import CallDecoration.Proofs.Instrumentation.Marks

namespace CallDecoration

/-! ## §1. Rows before and behind one another. -/

/-- No row begins before the first one. -/
theorem Rows.le_of_mem {code : Array UInt8} {offset : Nat} {rows : List (Nat × Instruction)}
    (h : Rows code offset rows) {row : Nat × Instruction} (hrow : row ∈ rows) : offset ≤ row.1 := by
  induction h with
  | nil => cases hrow
  | @cons offset next i rest hdecode hrest ih =>
      obtain ⟨_, hnext, _⟩ := decodeAt_ok hdecode
      rcases List.mem_cons.mp hrow with rfl | hrow
      · exact Nat.le_refl _
      · have hle := ih hrow
        omega

/-- Rows begin one behind the other. -/
theorem Rows.lt_of_append {code : Array UInt8} {offset target : Nat} {i : Instruction}
    {before after : List (Nat × Instruction)} (h : Rows code offset (before ++ (target, i) :: after))
    {row : Nat × Instruction} (hrow : row ∈ before) : row.1 < target := by
  induction before generalizing offset with
  | nil => cases hrow
  | cons first before ih =>
      rw [List.cons_append] at h
      cases h with
      | @cons _ next j _ hdecode hrest =>
          rcases List.mem_cons.mp hrow with rfl | hrow
          · -- the target stands in what comes next, and that begins a byte later at least
            obtain ⟨_, hnext, _⟩ := decodeAt_ok hdecode
            have hpos := j.size_pos
            have hle := hrest.le_of_mem (List.mem_append_right before List.mem_cons_self)
            dsimp only at hle ⊢
            omega
          · exact ih hrest hrow

/-- A row begins where the instructions before it end. -/
theorem Rows.offset_eq {code : Array UInt8} {offset target : Nat} {i : Instruction}
    {before after : List (Nat × Instruction)}
    (h : Rows code offset (before ++ (target, i) :: after)) :
    target = offset + codeSize (before.map Prod.snd) := by
  induction before generalizing offset with
  | nil =>
      cases h
      rfl
  | cons first before ih =>
      rw [List.cons_append] at h
      cases h with
      | @cons _ next j _ hdecode hrest =>
          obtain ⟨_, hnext, _⟩ := decodeAt_ok hdecode
          rw [ih hrest, List.map_cons, codeSize_cons, hnext, Nat.add_assoc]

/-! ## §2. Where images begin. -/

namespace CaptureSlots

/-- The images of rows, each with the offset of its row. -/
def rowImages (slots : CaptureSlots) (marked : Bool) : List (Nat × Instruction) → List Image
  | [] => []
  | (offset, i) :: rest => (offset, slots.image marked i) :: rowImages slots i.isMark rest

/-- **Where the jumps to an old offset lead:** behind the images of all
instructions before it. -/
def carriedOffset (slots : CaptureSlots) (body : List (Nat × Instruction)) (target : Nat) : Nat :=
  codeSize (slots.expandCalls false ((body.takeWhile fun row => row.1 != target).map Prod.snd))

section Images

variable {slots : CaptureSlots}

theorem rowImages_append (marked : Bool) (xs ys : List (Nat × Instruction)) :
    slots.rowImages marked (xs ++ ys) = slots.rowImages marked xs
      ++ slots.rowImages (endsWithMark marked (xs.map Prod.snd)) ys := by
  induction xs generalizing marked with
  | nil => rfl
  | cons row xs ih =>
      rw [List.cons_append, rowImages, ih]
      rfl

theorem imageSize_rowImages (marked : Bool) (rows : List (Nat × Instruction)) :
    imageSize (slots.rowImages marked rows)
      = codeSize (slots.expandCalls marked (rows.map Prod.snd)) := by
  induction rows generalizing marked with
  | nil => rfl
  | cons row rows ih =>
      rw [rowImages, imageSize_cons, ih, List.map_cons, expandCalls, codeSize_append]

theorem mem_rowImages {marked : Bool} {rows : List (Nat × Instruction)} {image : Image}
    (h : image ∈ slots.rowImages marked rows) :
    ∃ row ∈ rows, ∃ marked', image = (row.1, slots.image marked' row.2) := by
  induction rows generalizing marked with
  | nil => cases h
  | cons row rows ih =>
      rw [rowImages, List.mem_cons] at h
      rcases h with rfl | h
      · exact ⟨row, List.mem_cons_self, marked, rfl⟩
      · obtain ⟨row', hrow, hsame⟩ := ih h
        exact ⟨row', List.mem_cons_of_mem _ hrow, hsame⟩

/-- Only the rows before a row decide where its image begins. -/
theorem carriedOffset_eq (slots : CaptureSlots) {code : Array UInt8} {target : Nat} {i : Instruction}
    {before after : List (Nat × Instruction)}
    (h : Rows code 0 (before ++ (target, i) :: after)) :
    slots.carriedOffset (before ++ (target, i) :: after) target
      = codeSize (slots.expandCalls false (before.map Prod.snd)) := by
  -- offsets grow along the rows: the walk does not stop before it comes to the target
  have hbefore : ∀ row ∈ before, (row.1 != target) = true := by
    intro row hrow
    have hlt := h.lt_of_append hrow
    exact bne_iff_ne.mpr (by omega)
  unfold carriedOffset
  rw [List.takeWhile_append_of_pos hbefore, List.takeWhile_cons_of_neg (by simp), List.append_nil]

end Images

end CaptureSlots

theorem get?_relocations {start target : Nat} {code : List Instruction} {pre post : List Image}
    (hnew : ∀ image ∈ pre, image.1 ≠ target) :
    Dict.get? (relocations start (pre ++ (target, code) :: post)) target
      = some (start + imageSize pre) := by
  induction pre generalizing start with
  | nil =>
      rw [List.nil_append, relocations, Dict.get?, if_pos rfl]
      rfl
  | cons image pre ih =>
      have hfirst := hnew image List.mem_cons_self
      rw [List.cons_append, relocations, Dict.get?, if_neg hfirst,
        ih fun x hx => hnew x (List.mem_cons_of_mem _ hx), imageSize_cons, Nat.add_assoc]

/-- The relocations of a body tell where the image of each of its rows
begins. -/
theorem get?_relocations_rowImages {slots : CaptureSlots} {code : Array UInt8} {target : Nat}
    {body : List (Nat × Instruction)} (hrows : Rows code 0 body)
    (htarget : ∃ i, (target, i) ∈ body) :
    Dict.get? (relocations 0 (slots.rowImages false body)) target
      = some (slots.carriedOffset body target) := by
  obtain ⟨i, hmem⟩ := htarget
  obtain ⟨before, after, rfl⟩ := List.append_of_mem hmem
  rw [slots.carriedOffset_eq hrows, CaptureSlots.rowImages_append, CaptureSlots.rowImages,
    get?_relocations, Nat.zero_add, CaptureSlots.imageSize_rowImages]
  -- the images before it are those of rows with smaller offsets
  intro image himage
  obtain ⟨row, hrow, _, rfl⟩ := CaptureSlots.mem_rowImages himage
  exact Nat.ne_of_lt (hrows.lt_of_append hrow)

/-! ## §3. Redirecting. -/

section Redirecting

variable {moves : List (Nat × Nat)} {carry : Nat → Nat}

theorem redirect_carried {offset : Nat} {i : Instruction}
    (h : ∀ target, i.target? = some target → Dict.get? moves target = some (carry target)) :
    redirect moves offset i = .ok (i.carried carry) := by
  unfold redirect Instruction.carried
  cases htarget : i.target? with
  | none => rfl
  | some target =>
      dsimp only
      rw [h target htarget]

theorem mapM_redirect_carried {offset : Nat} {code : List Instruction}
    (h : ∀ i ∈ code, ∀ target, i.target? = some target →
      Dict.get? moves target = some (carry target)) :
    code.mapM (redirect moves offset) = .ok (code.map (Instruction.carried carry)) := by
  induction code with
  | nil => rfl
  | cons i rest ih =>
      rw [List.mapM_cons, redirect_carried (h i List.mem_cons_self),
        ih fun j hj => h j (List.mem_cons_of_mem _ hj)]
      rfl

/-- The pass redirects every jump, if the targets of all have been moved. -/
theorem redirectAll_carried {imgs : List Image}
    (h : ∀ image ∈ imgs, ∀ i ∈ image.2, ∀ target, i.target? = some target →
      Dict.get? moves target = some (carry target)) :
    redirectAll moves imgs
      = .ok ((imgs.flatMap Prod.snd).map (Instruction.carried carry)) := by
  induction imgs with
  | nil => rfl
  | cons image imgs ih =>
      rw [redirectAll, mapM_redirect_carried (h image List.mem_cons_self),
        ih fun x hx => h x (List.mem_cons_of_mem _ hx), List.flatMap_cons, List.map_append]
      rfl

end Redirecting

namespace CaptureSlots

variable {slots : CaptureSlots}

theorem flatMap_rowImages (marked : Bool) (rows : List (Nat × Instruction)) :
    (slots.rowImages marked rows).flatMap Prod.snd
      = slots.expandCalls marked (rows.map Prod.snd) := by
  induction rows generalizing marked with
  | nil => rfl
  | cons row rows ih => rw [rowImages, List.flatMap_cons, ih, List.map_cons, expandCalls]

/-- An instruction of an expanded list is one of the list, or belongs to the
expansion of one of its calls. -/
theorem mem_expandCalls {marked : Bool} {code : List Instruction} {i : Instruction}
    (h : i ∈ slots.expandCalls marked code) :
    i ∈ code ∨ ∃ shape, .call shape ∈ code ∧ i ∈ slots.expansion shape := by
  induction code generalizing marked with
  | nil => cases h
  | cons j rest ih =>
      rw [expandCalls, List.mem_append] at h
      rcases h with h | h
      · rcases slots.image_cases marked j with ⟨hsame, _⟩ | ⟨shape, _, rfl, hexpanded⟩
        · rw [hsame, List.mem_singleton] at h
          rw [h]
          exact Or.inl List.mem_cons_self
        · rw [hexpanded] at h
          exact Or.inr ⟨shape, List.mem_cons_self, h⟩
      · rcases ih h with h | ⟨shape, hcall, h⟩
        · exact Or.inl (List.mem_cons_of_mem _ h)
        · exact Or.inr ⟨shape, List.mem_cons_of_mem _ hcall, h⟩

/-- The jumps of a body are redirected to where the images of their targets
begin. -/
theorem redirectAll_rowImages (slots : CaptureSlots) {code : Array UInt8} {body : List (Nat × Instruction)}
    (hbody : decode code = .ok body) :
    redirectAll (relocations 0 (slots.rowImages false body)) (slots.rowImages false body)
      = .ok ((slots.expandCalls false (body.map Prod.snd)).map
          (Instruction.carried (slots.carriedOffset body))) := by
  obtain ⟨hrows, haligned⟩ := decode_eq_ok.mp hbody
  rw [← flatMap_rowImages]
  refine redirectAll_carried ?_
  intro image himage i hi target htarget
  obtain ⟨row, hrow, marked, rfl⟩ := mem_rowImages himage
  -- a jump is its own image, and an expansion has no jumps
  rcases slots.image_cases marked row.2 with ⟨hsame, _⟩ | ⟨shape, _, _, hexpanded⟩
  · have hrowTarget : row.2.target? = some target := by
      rw [← htarget]
      dsimp only at hi
      rw [hsame, List.mem_singleton] at hi
      rw [hi]
    exact get?_relocations_rowImages hrows (haligned row hrow target hrowTarget)
  · dsimp only at hi
    rw [hexpanded] at hi
    rw [Layout.target_expansion hi] at htarget
    cases htarget

end CaptureSlots

/-! ## §4. When a pass succeeds. -/

/-- **Bodies that can be instrumented,** but for the length of the result. -/
structure Instrumentable (code : List Instruction) : Prop where
  /-- Every mark stands before a call. -/
  marks : WellMarked false code
  /-- The operands of the user's calls fit in a tuple. -/
  fits : ∀ shape ∈ userCalls code, shape.slots ≤ maxSlots

/-- The images of a body and the counts of the pass, if it comes to its end. -/
theorem images_eq {slots : CaptureSlots} {tally : Tally} {rows : List (Nat × Instruction)}
    (h : Instrumentable (rows.map Prod.snd)) :
    images slots tally rows
      = (⟨tally.instrumented + (userCalls (rows.map Prod.snd)).length,
          tally.skipped + (markedCalls (rows.map Prod.snd)).length, tally.bytesAdded⟩,
        .ok (slots.rowImages false rows)) := by
  induction tally, rows using images.induct slots with
  | case1 tally => rfl
  | case2 tally o o' shape rows counts result hrec ih =>
      -- a mark and the call behind it, which is skipped
      have hrest := ih ⟨h.marks.2.2, h.fits⟩
      rw [images, hrest]
      show (Tally.mk (tally.instrumented + (userCalls (rows.map Prod.snd)).length)
          (tally.skipped + 1 + (markedCalls (rows.map Prod.snd)).length) tally.bytesAdded, _)
        = (Tally.mk (tally.instrumented + (userCalls (rows.map Prod.snd)).length)
          (tally.skipped + ((markedCalls (rows.map Prod.snd)).length + 1)) tally.bytesAdded, _)
      rw [Nat.add_assoc, Nat.add_comm 1]
      rfl
  | case3 tally o rows hnext =>
      -- a mark without a call behind it
      exfalso
      cases rows with
      | nil => cases h.marks.2
      | cons row rows =>
          obtain ⟨o', i⟩ := row
          have hcall := h.marks.2.1 rfl
          dsimp only at hcall
          obtain ⟨shape, hshape⟩ := Option.isSome_iff_exists.mp hcall
          exact hnext o' shape rows (by rw [Instruction.eq_call_of_shape? hshape])
  | case4 tally o shape rows hslots counts result hrec ih =>
      -- a call of the user's, which is expanded
      have hrest := ih ⟨h.marks.2, fun s hs => h.fits s (List.mem_cons_of_mem shape hs)⟩
      rw [images, if_pos hslots, hrest]
      show (Tally.mk (tally.instrumented + 1 + (userCalls (rows.map Prod.snd)).length)
          (tally.skipped + (markedCalls (rows.map Prod.snd)).length) tally.bytesAdded, _)
        = (Tally.mk (tally.instrumented + ((userCalls (rows.map Prod.snd)).length + 1))
          (tally.skipped + (markedCalls (rows.map Prod.snd)).length) tally.bytesAdded, _)
      rw [Nat.add_assoc, Nat.add_comm 1]
      rfl
  | case5 tally o shape rows hslots => exact absurd (h.fits shape List.mem_cons_self) hslots
  | case6 tally o i rows hpair hmark hcall counts result hrec ih =>
      -- neither a mark nor a call: it counts for nothing and is its own image
      have hshape := Instruction.shape?_eq_none hcall
      have hplain := Instruction.isMark_eq_false hmark
      have hcalls : ∀ wanted, callsFrom wanted false (i :: rows.map Prod.snd)
          = callsFrom wanted false (rows.map Prod.snd) := fun wanted =>
        callsFrom_plain hshape hplain wanted _
      have himage : slots.image false i = [i] := by
        unfold CaptureSlots.image
        rw [hshape]
      have hmarks := h.marks.2
      rw [hplain] at hmarks
      have hrest := ih ⟨hmarks, by rw [userCalls, ← hcalls]; exact h.fits⟩
      have huser : userCalls (((o, i) :: rows).map Prod.snd) = userCalls (rows.map Prod.snd) :=
        hcalls false
      have hmarked : markedCalls (((o, i) :: rows).map Prod.snd) = markedCalls (rows.map Prod.snd) :=
        hcalls true
      rw [images]
      · rw [hrest, huser, hmarked, CaptureSlots.rowImages, himage, hplain]
        rfl
      · exact hpair
      · exact hmark
      · exact hcall

/-- A pass that comes to its end has met marks before calls only, and no call
with too many operands. -/
theorem Imaged.instrumentable {slots : CaptureSlots} {rows : List (Nat × Instruction)}
    {imgs : List Image} (h : Imaged slots rows imgs) : Instrumentable (rows.map Prod.snd) := by
  induction h with
  | nil => exact ⟨rfl, fun _ h => by cases h⟩
  | marked h ih => exact ⟨⟨by simp, fun _ => rfl, ih.marks⟩, ih.fits⟩
  | expanded hslots h ih =>
      refine ⟨⟨by simp, ih.marks⟩, ?_⟩
      intro shape hshape
      rcases List.mem_cons.mp hshape with rfl | hshape
      · exact hslots
      · exact ih.fits shape hshape
  | @plain o i rows imgs hcall hmark h ih =>
      have hplain := Instruction.isMark_eq_false hmark
      have hcalls : userCalls (((o, i) :: rows).map Prod.snd) = userCalls (rows.map Prod.snd) :=
        callsFrom_plain hcall hplain false _
      refine ⟨⟨by simp, ?_⟩, ?_⟩
      · rw [hplain]
        exact ih.marks
      · rw [hcalls]
        exact ih.fits

/-- The code of a body that decodes has the size of its instructions. -/
theorem size_of_decode {code : Array UInt8} {body : List (Nat × Instruction)}
    (h : decode code = .ok body) : code.size = codeSize (body.map Prod.snd) := by
  rw [← encode_size, encode_of_decode h]

namespace Chunk

variable {V : Type} {slots : CaptureSlots} {c c' : Chunk V} {body : List (Nat × Instruction)}

/-- The instructions of an instrumented body. -/
def instrumentedCode (slots : CaptureSlots) (body : List (Nat × Instruction)) : List Instruction :=
  (slots.expandCalls false (body.map Prod.snd)).map (Instruction.carried (slots.carriedOffset body))

theorem size_instrumentedCode (slots : CaptureSlots) (hbody : c.instructions = .ok body) :
    (encode (instrumentedCode slots body)).size
      = c.code.size + 23 * (userCalls (body.map Prod.snd)).length := by
  unfold instrumentedCode
  rw [encode_size, codeSize_carried, CaptureSlots.codeSize_expandCalls, size_of_decode hbody]

/-- **What a pass gives.** -/
theorem instrument_eq (hbody : c.instructions = .ok body)
    (h : Instrumentable (body.map Prod.snd)) :
    c.instrument slots =
      if c.code.size + 23 * (userCalls (body.map Prod.snd)).length ≤ maxCodeLength then
        ⟨⟨(userCalls (body.map Prod.snd)).length, (markedCalls (body.map Prod.snd)).length,
            23 * (userCalls (body.map Prod.snd)).length⟩,
          .ok ⟨c.name, encode (instrumentedCode slots body), c.constants, c.names, Signature.none,
            c.localCount⟩⟩
      else
        ⟨⟨(userCalls (body.map Prod.snd)).length, (markedCalls (body.map Prod.snd)).length, 0⟩,
          .error (.codeTooLarge (c.code.size + 23 * (userCalls (body.map Prod.snd)).length))⟩ := by
  have hsize := size_instrumentedCode slots hbody
  have hredirected := slots.redirectAll_rowImages hbody
  change _ = Except.ok (instrumentedCode slots body) at hredirected
  -- everything is laid out and redirected before the length is looked at
  unfold instrument
  rw [hbody]
  dsimp only
  rw [images_eq h]
  dsimp only
  rw [hredirected]
  dsimp only
  rw [hsize, Nat.add_sub_cancel_left]
  simp only [Tally.zero, Nat.zero_add]

/-- A pass that succeeds has decoded a body that can be instrumented. -/
theorem instrumentable_of_instrument (h : (c.instrument slots).outcome = .ok c') :
    ∃ body, c.instructions = .ok body ∧ Instrumentable (body.map Prod.snd) := by
  obtain ⟨⟨L⟩, _⟩ := instrument_ok h
  exact ⟨L.rows, L.decoded, L.imaged.instrumentable⟩

end Chunk

/-! ## §5. The new body. -/

namespace CaptureSlots

variable {slots : CaptureSlots} {code : Array UInt8} {body : List (Nat × Instruction)}

/-- The image of a row begins at the offset to which its own is carried. -/
theorem begins_image (slots : CaptureSlots) (hbody : decode code = .ok body) {target : Nat} {i : Instruction}
    (hmem : (target, i) ∈ body) :
    ∃ before after, body = before ++ (target, i) :: after
      ∧ slots.carriedOffset body target = codeSize (slots.expandCalls false (before.map Prod.snd))
      ∧ ∃ first later, slots.image (endsWithMark false (before.map Prod.snd)) i = first :: later
        ∧ (slots.carriedOffset body target, first.carried (slots.carriedOffset body))
          ∈ rowsFrom 0 (Chunk.instrumentedCode slots body) := by
  obtain ⟨before, after, rfl⟩ := List.append_of_mem hmem
  have hoffset := slots.carriedOffset_eq (rows_of_decode hbody)
  refine ⟨before, after, rfl, hoffset, ?_⟩
  generalize hcarry : slots.carriedOffset (before ++ (target, i) :: after) = carry at hoffset ⊢
  have hpos := slots.codeSize_image_pos (endsWithMark false (before.map Prod.snd)) i
  cases himage : slots.image (endsWithMark false (before.map Prod.snd)) i with
  | nil =>
      rw [himage] at hpos
      exact absurd hpos (Nat.lt_irrefl 0)
  | cons first later =>
      refine ⟨first, later, rfl, mem_rowsFrom.mpr ?_⟩
      refine ⟨(slots.expandCalls false (before.map Prod.snd)).map (Instruction.carried carry),
        (later ++ slots.expandCalls i.isMark (after.map Prod.snd)).map (Instruction.carried carry),
        ?_, ?_⟩
      · unfold Chunk.instrumentedCode
        rw [hcarry, List.map_append, List.map_cons, expandCalls_append, expandCalls, himage]
        simp only [List.map_append, List.map_cons, List.cons_append]
      · rw [encode_size, codeSize_carried, Nat.zero_add, hoffset]

/-- **The instructions of an instrumented body are well formed,** if they are
not too long. -/
theorem wellFormed_instrumentedCode (hbody : decode code = .ok body)
    (hfits : (encode (Chunk.instrumentedCode slots body)).size ≤ maxCodeLength) :
    WellFormed (Chunk.instrumentedCode slots body) := by
  obtain ⟨hrows, haligned⟩ := decode_eq_ok.mp hbody
  refine ⟨hfits, ?_, ?_⟩
  · intro i' hi' target' htarget'
    obtain ⟨i, hi, rfl⟩ := List.mem_map.mp hi'
    -- an instruction with a target is one of the old body
    obtain ⟨target, htarget, rfl⟩ : ∃ target, i.target? = some target
        ∧ target' = slots.carriedOffset body target := by
      cases i with
      | jump target | jumpIfFalse target => exact ⟨target, rfl, (Option.some.inj htarget').symm⟩
      | _ => cases htarget'
    have hold : i ∈ body.map Prod.snd := by
      rcases mem_expandCalls hi with hold | ⟨shape, _, hexpansion⟩
      · exact hold
      · rw [Layout.target_expansion hexpansion] at htarget
        cases htarget
    obtain ⟨row, hrow, rfl⟩ := List.mem_map.mp hold
    obtain ⟨j, hj⟩ := haligned row hrow target htarget
    obtain ⟨_, _, _, _, first, _, _, hmem⟩ := slots.begins_image hbody hj
    exact begins_iff.mpr ⟨_, hmem⟩
  · intro shape hshape
    obtain ⟨i, hi, hcall⟩ := List.mem_map.mp hshape
    have hsame : i = .call shape := by
      refine Instruction.eq_call_of_shape? ?_
      rw [← Instruction.carried_shape? (slots.carriedOffset body), hcall]
      rfl
    subst hsame
    have hwritten : ∀ j ∈ body.map Prod.snd, j.IsWritten code.size := by
      intro j hj
      obtain ⟨row, hrow, rfl⟩ := List.mem_map.mp hj
      exact hrows.isWritten hrow
    -- the inserted calls can be written as well as the call they belong to
    rcases mem_expandCalls hi with hold | ⟨shape', hcall', hexpansion⟩
    · exact CallShape.isWritten_iff.mp (hwritten _ hold)
    · exact CallShape.isWritten_iff.mp
        (Layout.isWritten_expansion (hwritten _ hcall') hexpansion code.size)

end CaptureSlots

namespace Chunk

variable {V : Type} {slots : CaptureSlots} {c c' : Chunk V}

/-- What an instrumented body decodes to. -/
theorem instructions_instrument {body : List (Nat × Instruction)}
    (hbody : c.instructions = .ok body) (h : (c.instrument slots).outcome = .ok c') :
    c'.instructions = .ok (rowsFrom 0 (instrumentedCode slots body)) := by
  obtain ⟨body', hbody', hcan⟩ := instrumentable_of_instrument h
  rw [hbody] at hbody'
  cases hbody'
  have hsize := size_instrumentedCode slots hbody
  rw [instrument_eq hbody hcan] at h
  split at h
  case isTrue hfits =>
    cases h
    exact (CaptureSlots.wellFormed_instrumentedCode hbody (by rw [hsize]; exact hfits)).decode_encode
  case isFalse => cases h

/-- **The new body is the old one with the user's calls expanded and every jump
following its target.** -/
structure Relocated (slots : CaptureSlots) (c c' : Chunk V) (body : List (Nat × Instruction))
    (carry : Nat → Nat) : Prop where
  /-- The old body is this one. -/
  decoded : c.instructions = .ok body
  /-- The new one decodes to the images of its instructions, in order, with
  jumps led elsewhere. -/
  images : c'.instructions = .ok (rowsFrom 0
    ((slots.expandCalls false (body.map Prod.snd)).map (Instruction.carried carry)))
  /-- The images of the user's calls are these thirteen instructions. -/
  expansions : ∀ shape ∈ userCalls (body.map Prod.snd), ∃ n : UInt8, n.toNat = shape.slots
    ∧ slots.expansion shape
      = [.buildTuple n, .swap, .loadCapture slots.entry, .loadCapture slots.adapter,
          .unpackSequence 3, .synthetic, .call entryCall, .swap, .synthetic, .call decorateCall,
          .swap, .unpackSequence n, .call shape]
  /-- A jump leads to where the images of all instructions before its old
  target end; there the image of that target begins. -/
  follows : ∀ row ∈ body, ∀ target, row.2.target? = some target →
    ∃ before i after, body = before ++ (target, i) :: after
      ∧ carry target = codeSize (slots.expandCalls false (before.map Prod.snd))
      ∧ ∃ first later, slots.image (endsWithMark false (before.map Prod.snd)) i = first :: later
        ∧ (carry target, first.carried carry) ∈ rowsFrom 0
            ((slots.expandCalls false (body.map Prod.snd)).map (Instruction.carried carry))
  name : c'.name = c.name
  constants : c'.constants = c.constants
  names : c'.names = c.names
  localCount : c'.localCount = c.localCount

/-- **What a pass puts out is its input, relocated.** -/
theorem instrument_output (h : (c.instrument slots).outcome = .ok c') :
    ∃ body carry, Relocated slots c c' body carry := by
  obtain ⟨body, hbody, hcan⟩ := instrumentable_of_instrument h
  obtain ⟨_, hname, hconstants, hnames, hcount⟩ := instrument_ok h
  refine ⟨body, slots.carriedOffset body, ?_⟩
  refine
    { decoded := hbody
      images := instructions_instrument hbody h
      expansions := fun shape hshape => slots.expansion_eq (hcan.fits shape hshape)
      follows := ?_
      name := hname
      constants := hconstants
      names := hnames
      localCount := hcount }
  intro row hrow target htarget
  obtain ⟨i, hi⟩ := (decode_eq_ok.mp hbody).2 row hrow target htarget
  obtain ⟨before, after, hsplit, hoffset, hbegins⟩ :=
    slots.begins_image hbody hi
  exact ⟨before, i, after, hsplit, hoffset, hbegins⟩

/-- A body with jumps onto a marked call and onto two calls of the user's, all of
them behind or before an expanded call. -/
def crossroadsBody : List Instruction :=
  [.call (CallShape.plain 2), .jumpIfFalse 7, .synthetic, .call (CallShape.plain 1),
    .jumpIfFalse 0, .call (CallShape.plain 0), .jump 13]

/-- The same, instrumented. -/
def crossroadsOutput : List Instruction :=
  CaptureSlots.expansion ⟨0, 1⟩ (CallShape.plain 2)
    ++ [.jumpIfFalse 30, .synthetic, .call (CallShape.plain 1), .jumpIfFalse 0]
    ++ CaptureSlots.expansion ⟨0, 1⟩ (CallShape.plain 0) ++ [.jump 36]

/-- A chunk with instructions as its code. -/
def crossroads (code : List Instruction) : Chunk Unit :=
  ⟨"crossroads", encode code, #[], #["f"], Signature.none, 1⟩

/-- Both calls of the user's grow by 23 bytes, and the jumps follow: to the
marked call itself and to the beginnings of the expansions. -/
theorem instrument_output_crossroads :
    ((crossroads crossroadsBody).instrument ⟨0, 1⟩).outcome = .ok (crossroads crossroadsOutput)
      ∧ (crossroads crossroadsOutput).instructions = .ok (rowsFrom 0 crossroadsOutput)
      ∧ ∃ body carry,
        Relocated ⟨0, 1⟩ (crossroads crossroadsBody) (crossroads crossroadsOutput) body carry := by
  have hpass : ((crossroads crossroadsBody).instrument ⟨0, 1⟩).outcome
      = .ok (crossroads crossroadsOutput) := by rfl
  exact ⟨hpass, by decide +kernel, instrument_output hpass⟩

end Chunk

end CallDecoration
