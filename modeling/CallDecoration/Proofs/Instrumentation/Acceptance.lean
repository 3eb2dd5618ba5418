/-
  CallDecoration.Proofs.Instrumentation.Acceptance
  ──────────────────────────────────────
  **Which chunks a pass accepts, and why it refuses the others.**  A pass walks
  over the rows of a body and stops at the first one that it can do nothing
  with: a mark without a call behind it, or a call of the user's with too many
  operands (`FirstFault`).  A body without such a row is `Instrumentable`, and
  then only the length of the result can be in the way (`Chunk.instrument_decides`).
  Redirecting the jumps is not: a body that decodes has only jumps onto its own
  rows, and every row has an image.
-/
import CallDecoration.Proofs.Instrumentation.Relocation

namespace CallDecoration

/-! ## §1. The first row that stops a pass. -/

/-- **Why a pass stops at a row:** what stands behind the row, and whether a
mark stands before it, is all that matters. -/
inductive StopsAt (marked : Bool) :
    Nat × Instruction → List (Nat × Instruction) → InstrumentError → Prop where
  /-- A mark without a call behind it. -/
  | dangling {offset : Nat} {later : List (Nat × Instruction)}
      (hnext : ∀ callOffset shape rest, later ≠ (callOffset, .call shape) :: rest) :
      StopsAt marked (offset, .synthetic) later (.danglingMarker offset)
  /-- A call of the user's whose operands do not fit in a tuple. -/
  | tooMany {offset : Nat} {shape : CallShape} {later : List (Nat × Instruction)}
      (huser : marked = false) (hslots : maxSlots < shape.slots) :
      StopsAt marked (offset, .call shape) later (.tooManySlots offset shape.slots)

/-- **The first row that stops a pass,** by the rows before it. -/
structure FirstFault (body before : List (Nat × Instruction)) (e : InstrumentError) : Prop where
  /-- The row behind these ones stops the pass. -/
  stops : ∃ row later, body = before ++ row :: later
    ∧ StopsAt (endsWithMark false (before.map Prod.snd)) row later e
  /-- None of these does. -/
  first : ∀ earlier row later e', earlier.length < before.length → body = earlier ++ row :: later →
    ¬ StopsAt (endsWithMark false (earlier.map Prod.snd)) row later e'

theorem endsWithMark_append (marked : Bool) (xs ys : List Instruction) :
    endsWithMark marked (xs ++ ys) = endsWithMark (endsWithMark marked xs) ys := by
  induction xs generalizing marked with
  | nil => rfl
  | cons i xs ih => exact ih i.isMark

namespace FirstFault

variable {before body : List (Nat × Instruction)} {e : InstrumentError}

/-- A pass that stops at the very first row. -/
theorem head {row : Nat × Instruction} {later : List (Nat × Instruction)}
    (h : StopsAt false row later e) : FirstFault (row :: later) [] e :=
  ⟨⟨row, later, rfl, h⟩, fun _ _ _ _ hlength => absurd hlength (Nat.not_lt_zero _)⟩

/-- Rows that do not stop a pass, with no mark at their end, put off where it
stops. -/
theorem behind (front : List (Nat × Instruction))
    (hfront : endsWithMark false (front.map Prod.snd) = false)
    (hpassed : ∀ earlier row later e', earlier.length < front.length →
      front ++ body = earlier ++ row :: later →
      ¬ StopsAt (endsWithMark false (earlier.map Prod.snd)) row later e')
    (h : FirstFault body before e) : FirstFault (front ++ body) (front ++ before) e := by
  have hmarked : ∀ rows : List (Nat × Instruction),
      endsWithMark false ((front ++ rows).map Prod.snd) = endsWithMark false (rows.map Prod.snd) := by
    intro rows
    rw [List.map_append, endsWithMark_append, hfront]
  refine ⟨?_, ?_⟩
  · obtain ⟨row, later, rfl, hstops⟩ := h.stops
    refine ⟨row, later, (List.append_assoc front before (row :: later)).symm, ?_⟩
    rw [hmarked]
    exact hstops
  · intro earlier row later e' hlength hsplit
    rcases Nat.lt_or_ge earlier.length front.length with hshort | hlong
    · exact hpassed earlier row later e' hshort hsplit
    · -- the rows in front are behind us: what is left is a split of the body
      obtain ⟨rest, rfl⟩ : ∃ rest, earlier = front ++ rest := by
        obtain ⟨rest, hrest, _⟩ | ⟨rest, hrest, hbody⟩ := List.append_eq_append_iff.mp hsplit
        · exact ⟨rest, hrest⟩
        · obtain rfl : rest = [] := by
            rw [hrest, List.length_append] at hlong
            exact List.eq_nil_of_length_eq_zero (by omega)
          exact ⟨[], by rw [List.append_nil, hrest, List.append_nil]⟩
      rw [List.append_assoc, List.append_cancel_left_eq] at hsplit
      rw [hmarked]
      refine h.first rest row later e' ?_ hsplit
      rw [List.length_append, List.length_append] at hlength
      omega

/-- One row that does not stop a pass and is no mark. -/
theorem behind_row {row : Nat × Instruction} (hmark : row.2.isMark = false)
    (hpassed : ∀ e', ¬ StopsAt false row body e') (h : FirstFault body before e) :
    FirstFault (row :: body) (row :: before) e := by
  refine behind [row] hmark ?_ h
  intro earlier row' later e' hlength hsplit
  obtain rfl : earlier = [] := List.eq_nil_of_length_eq_zero (Nat.lt_one_iff.mp hlength)
  obtain ⟨rfl, rfl⟩ := List.cons.inj hsplit
  exact hpassed e'

/-- A mark and the call behind it. -/
theorem behind_marked {o o' : Nat} {shape : CallShape} (h : FirstFault body before e) :
    FirstFault ((o, .synthetic) :: (o', .call shape) :: body)
      ((o, .synthetic) :: (o', .call shape) :: before) e := by
  refine behind [(o, .synthetic), (o', .call shape)] rfl ?_ h
  intro earlier row later e' hlength hsplit hstops
  match earlier with
  | [] =>
      -- the mark has its call
      obtain ⟨rfl, rfl⟩ := List.cons.inj hsplit
      cases hstops with
      | dangling hnext => exact hnext _ _ _ rfl
  | [first] =>
      -- the call has its mark
      obtain ⟨rfl, hrest⟩ := List.cons.inj hsplit
      obtain ⟨rfl, rfl⟩ := List.cons.inj hrest
      cases hstops with
      | tooMany huser _ => cases huser
  | _ :: _ :: _ =>
      rw [List.length_cons, List.length_cons] at hlength
      exact absurd hlength (by simp)

end FirstFault

/-! ## §2. A pass stops there. -/

/-- The counts of a pass that has gone over these rows. -/
def Tally.after (tally : Tally) (rows : List (Nat × Instruction)) : Tally :=
  ⟨tally.instrumented + (userCalls (rows.map Prod.snd)).length,
    tally.skipped + (markedCalls (rows.map Prod.snd)).length, tally.bytesAdded⟩

namespace Tally

variable (tally : Tally) (rows : List (Nat × Instruction))

theorem after_marked (o o' : Nat) (shape : CallShape) :
    tally.after ((o, .synthetic) :: (o', .call shape) :: rows) = tally.countSkipped.after rows := by
  show Tally.mk (tally.instrumented + (userCalls (rows.map Prod.snd)).length)
      (tally.skipped + ((markedCalls (rows.map Prod.snd)).length + 1)) tally.bytesAdded
    = Tally.mk (tally.instrumented + (userCalls (rows.map Prod.snd)).length)
      (tally.skipped + 1 + (markedCalls (rows.map Prod.snd)).length) tally.bytesAdded
  rw [Nat.add_assoc, Nat.add_comm 1]

theorem after_call (o : Nat) (shape : CallShape) :
    tally.after ((o, .call shape) :: rows) = tally.countInstrumented.after rows := by
  show Tally.mk (tally.instrumented + ((userCalls (rows.map Prod.snd)).length + 1))
      (tally.skipped + (markedCalls (rows.map Prod.snd)).length) tally.bytesAdded
    = Tally.mk (tally.instrumented + 1 + (userCalls (rows.map Prod.snd)).length)
      (tally.skipped + (markedCalls (rows.map Prod.snd)).length) tally.bytesAdded
  rw [Nat.add_assoc, Nat.add_comm 1]

theorem after_plain (o : Nat) {i : Instruction} (hshape : i.shape? = none)
    (hmark : i.isMark = false) : tally.after ((o, i) :: rows) = tally.after rows := by
  unfold after
  rw [List.map_cons, userCalls, markedCalls, callsFrom_plain hshape hmark,
    callsFrom_plain hshape hmark]

end Tally

/-- **A pass goes over every body to its end or to the first row that stops it,**
and has then counted the calls before that row. -/
theorem images_cases (slots : CaptureSlots) (tally : Tally) (rows : List (Nat × Instruction)) :
    Instrumentable (rows.map Prod.snd)
      ∨ ∃ before e, FirstFault rows before e ∧ images slots tally rows = (tally.after before, .error e) := by
  -- along the pass: a row stops it, or is put in front of the first row behind it that does
  induction tally, rows using images.induct slots with
  | case1 tally => exact Or.inl ⟨rfl, fun _ h => by cases h⟩
  | case2 tally o o' shape rows counts result hrec ih =>
      rcases ih with hrest | ⟨before, e, hfault, himages⟩
      · exact Or.inl ⟨⟨by simp, fun _ => rfl, hrest.marks⟩, hrest.fits⟩
      · refine Or.inr ⟨_, e, hfault.behind_marked, ?_⟩
        rw [images, himages, Tally.after_marked]
        rfl
  | case3 tally o rows hnext =>
      refine Or.inr ⟨[], _, FirstFault.head (.dangling hnext), ?_⟩
      rw [images]
      · rfl
      · exact hnext
  | case4 tally o shape rows hslots counts result hrec ih =>
      rcases ih with hrest | ⟨before, e, hfault, himages⟩
      · refine Or.inl ⟨⟨by simp, hrest.marks⟩, ?_⟩
        intro s hs
        rcases List.mem_cons.mp hs with rfl | hs
        · exact hslots
        · exact hrest.fits s hs
      · refine Or.inr ⟨(o, .call shape) :: before, e, hfault.behind_row rfl ?_, ?_⟩
        · intro e' hstops
          cases hstops with
          | tooMany _ hmany => exact absurd hslots (Nat.not_le_of_gt hmany)
        · rw [images, if_pos hslots, himages, Tally.after_call]
          rfl
  | case5 tally o shape rows hslots =>
      refine Or.inr ⟨[], _, FirstFault.head (.tooMany rfl (Nat.lt_of_not_le hslots)), ?_⟩
      rw [images, if_neg hslots]
      rfl
  | case6 tally o i rows hpair hmark hcall counts result hrec ih =>
      have hshape := Instruction.shape?_eq_none hcall
      have hplain := Instruction.isMark_eq_false hmark
      rcases ih with hrest | ⟨before, e, hfault, himages⟩
      · refine Or.inl ⟨⟨by simp, ?_⟩, ?_⟩
        · rw [hplain]
          exact hrest.marks
        · rw [List.map_cons, userCalls, callsFrom_plain hshape hplain]
          exact hrest.fits
      · refine Or.inr ⟨(o, i) :: before, e, hfault.behind_row hplain ?_, ?_⟩
        · intro e' hstops
          cases hstops with
          | dangling _ => exact hmark rfl
          | tooMany _ _ => exact hcall _ rfl
        · rw [images]
          · rw [himages, Tally.after_plain tally before o hshape hplain]
            rfl
          · exact hpair
          · exact hmark
          · exact hcall

/-! ## §3. Faulty or instrumentable. -/

theorem StopsAt.unique {marked : Bool} {row : Nat × Instruction}
    {later : List (Nat × Instruction)} {e e' : InstrumentError} (h : StopsAt marked row later e)
    (h' : StopsAt marked row later e') : e = e' := by
  cases h with
  | dangling _ =>
      cases h' with
      | dangling _ => rfl
  | tooMany _ _ =>
      cases h' with
      | tooMany _ _ => rfl

/-- A body has one first fault at most. -/
theorem FirstFault.unique {body before before' : List (Nat × Instruction)} {e e' : InstrumentError}
    (h : FirstFault body before e) (h' : FirstFault body before' e') : before = before' ∧ e = e' := by
  obtain ⟨row, later, hsplit, hstops⟩ := h.stops
  obtain ⟨row', later', hsplit', hstops'⟩ := h'.stops
  rcases Nat.lt_trichotomy before.length before'.length with hlt | heq | hgt
  · exact absurd hstops (h'.first before row later e hlt hsplit)
  · obtain ⟨rfl, hrest⟩ := List.append_inj (hsplit.symm.trans hsplit') heq
    obtain ⟨rfl, rfl⟩ := List.cons.inj hrest
    exact ⟨rfl, hstops.unique hstops'⟩
  · exact absurd hstops' (h.first before' row' later' e' hgt hsplit')

theorem WellMarked.of_append {marked : Bool} {xs ys : List Instruction}
    (h : WellMarked marked (xs ++ ys)) : WellMarked (endsWithMark marked xs) ys := by
  induction xs generalizing marked with
  | nil => exact h
  | cons i xs ih => exact ih h.2

/-- No row of a body that can be instrumented stops a pass. -/
theorem Instrumentable.not_firstFault {body before : List (Nat × Instruction)} {e : InstrumentError}
    (h : Instrumentable (body.map Prod.snd)) : ¬ FirstFault body before e := by
  intro hfault
  obtain ⟨row, later, rfl, hstops⟩ := hfault.stops
  have hmarks := h.marks
  have hfits := h.fits
  rw [List.map_append, List.map_cons] at hmarks hfits
  cases hstops with
  | @dangling offset _ hnext =>
      have hbehind := hmarks.of_append.2
      cases later with
      | nil => cases hbehind
      | cons next later =>
          obtain ⟨callOffset, i⟩ := next
          obtain ⟨shape, hshape⟩ := Option.isSome_iff_exists.mp (hbehind.1 rfl)
          obtain rfl : i = .call shape := Instruction.eq_call_of_shape? hshape
          exact hnext callOffset shape later rfl
  | @tooMany offset shape _ huser hslots =>
      -- without a mark before it the call is one of the user's
      refine absurd (hfits shape ?_) (Nat.not_le_of_gt hslots)
      rw [userCalls, callsFrom_append, huser]
      exact List.mem_append_right _ List.mem_cons_self

/-! ## §4. The outcome of a pass. -/

namespace Chunk

variable {V : Type}

/-- **The outcome of a pass, by what the body is like.** -/
structure Decided (slots : CaptureSlots) (c : Chunk V) : Prop where
  /-- A pass succeeds on a body that decodes, has no fault and stays short
  enough with 23 bytes more for each of the user's calls; on no other. -/
  succeeds_iff : (∃ c', (c.instrument slots).outcome = .ok c')
    ↔ ∃ body, c.instructions = .ok body ∧ Instrumentable (body.map Prod.snd)
      ∧ c.code.size + 23 * (userCalls (body.map Prod.snd)).length ≤ maxCodeLength
  /-- It has then counted all calls and the bytes. -/
  success : ∀ body c', c.instructions = .ok body → (c.instrument slots).outcome = .ok c' →
    (c.instrument slots).tally = ⟨(userCalls (body.map Prod.snd)).length,
      (markedCalls (body.map Prod.snd)).length, 23 * (userCalls (body.map Prod.snd)).length⟩
  /-- A body that does not decode is refused for that, and nothing is counted. -/
  undecodable : ∀ cause, c.instructions = .error cause →
    c.instrument slots = ⟨.zero, .error (.decode cause)⟩
  /-- A body that decodes has a fault or can be instrumented. -/
  faulty_iff : ∀ body, c.instructions = .ok body →
    ((∃ before e, FirstFault body before e) ↔ ¬ Instrumentable (body.map Prod.snd))
  /-- The first fault is reported, and the calls before it are counted. -/
  faulty : ∀ body before e, c.instructions = .ok body → FirstFault body before e →
    c.instrument slots = ⟨⟨(userCalls (before.map Prod.snd)).length,
      (markedCalls (before.map Prod.snd)).length, 0⟩, .error e⟩
  /-- Without a fault, a result that is too long is reported with its length, and
  all calls are counted. -/
  tooLarge : ∀ body, c.instructions = .ok body → Instrumentable (body.map Prod.snd) →
    maxCodeLength < c.code.size + 23 * (userCalls (body.map Prod.snd)).length →
    c.instrument slots = ⟨⟨(userCalls (body.map Prod.snd)).length,
      (markedCalls (body.map Prod.snd)).length, 0⟩,
      .error (.codeTooLarge (c.code.size + 23 * (userCalls (body.map Prod.snd)).length))⟩
  /-- Once a body has its images, all its jumps are redirected. -/
  redirects : ∀ body tally tally' imgs, c.instructions = .ok body →
    images slots tally body = (tally', .ok imgs) →
    ∃ code, redirectAll (relocations 0 imgs) imgs = .ok code

variable {slots : CaptureSlots} {c : Chunk V} {body : List (Nat × Instruction)}

theorem instrument_undecodable {cause : DecodeError} (h : c.instructions = .error cause) :
    c.instrument slots = ⟨.zero, .error (.decode cause)⟩ := by
  unfold instrument
  rw [h]

theorem instrument_faulty {before : List (Nat × Instruction)} {e : InstrumentError}
    (hbody : c.instructions = .ok body) (h : FirstFault body before e) :
    c.instrument slots = ⟨Tally.zero.after before, .error e⟩ := by
  rcases images_cases slots .zero body with hcan | ⟨before', e', hfault, himages⟩
  · exact absurd h hcan.not_firstFault
  · obtain ⟨rfl, rfl⟩ := h.unique hfault
    unfold instrument
    rw [hbody]
    dsimp only
    rw [himages]

theorem instrument_tooLarge (hbody : c.instructions = .ok body)
    (hcan : Instrumentable (body.map Prod.snd))
    (hlong : maxCodeLength < c.code.size + 23 * (userCalls (body.map Prod.snd)).length) :
    c.instrument slots = ⟨⟨(userCalls (body.map Prod.snd)).length,
      (markedCalls (body.map Prod.snd)).length, 0⟩,
      .error (.codeTooLarge (c.code.size + 23 * (userCalls (body.map Prod.snd)).length))⟩ := by
  rw [instrument_eq hbody hcan, if_neg (Nat.not_le_of_gt hlong)]

/-- A pass that succeeds has decoded a body without faults that stays short
enough, and has counted all of it. -/
theorem instrument_succeeded {c' : Chunk V} (h : (c.instrument slots).outcome = .ok c') :
    ∃ body, c.instructions = .ok body ∧ Instrumentable (body.map Prod.snd)
      ∧ c.code.size + 23 * (userCalls (body.map Prod.snd)).length ≤ maxCodeLength
      ∧ (c.instrument slots).tally = ⟨(userCalls (body.map Prod.snd)).length,
        (markedCalls (body.map Prod.snd)).length, 23 * (userCalls (body.map Prod.snd)).length⟩ := by
  obtain ⟨body, hbody, hcan⟩ := instrumentable_of_instrument h
  refine ⟨body, hbody, hcan, ?_⟩
  rw [instrument_eq hbody hcan] at h ⊢
  split at h
  case isTrue hfits =>
    rw [if_pos hfits]
    exact ⟨hfits, rfl⟩
  case isFalse => cases h

/-- **Which chunks a pass accepts, what it reports of the others, and what it
has counted by then.** -/
theorem instrument_decides (slots : CaptureSlots) (c : Chunk V) : Decided slots c where
  succeeds_iff := by
    constructor
    · rintro ⟨c', h⟩
      obtain ⟨body, hbody, hcan, hfits, _⟩ := instrument_succeeded h
      exact ⟨body, hbody, hcan, hfits⟩
    · rintro ⟨body, hbody, hcan, hfits⟩
      rw [instrument_eq hbody hcan, if_pos hfits]
      exact ⟨_, rfl⟩
  success := by
    intro body c' hbody h
    obtain ⟨body', hbody', _, _, htally⟩ := instrument_succeeded h
    obtain rfl : body = body' := Except.ok.inj (hbody.symm.trans hbody')
    exact htally
  undecodable := fun _ => instrument_undecodable
  faulty_iff := by
    intro body _
    constructor
    · rintro ⟨before, e, hfault⟩ hcan
      exact hcan.not_firstFault hfault
    · intro hcan
      rcases images_cases slots .zero body with h | ⟨before, e, hfault, _⟩
      · exact absurd h hcan
      · exact ⟨before, e, hfault⟩
  faulty := by
    intro body before e hbody hfault
    rw [instrument_faulty hbody hfault]
    simp only [Tally.after, Tally.zero, Nat.zero_add]
  tooLarge := fun _ => instrument_tooLarge
  redirects := by
    intro body tally tally' imgs hbody himages
    -- the images are those of the rows, whose jumps lead to rows
    have hcan := (imaged_of_images himages).instrumentable
    rw [images_eq hcan] at himages
    obtain rfl : slots.rowImages false body = imgs := Except.ok.inj (Prod.mk.inj himages).2
    exact ⟨_, slots.redirectAll_rowImages hbody⟩

/-- A call of the user's and a marked one are gone over; the mark behind them
has no call, and what comes later plays no part. -/
example : (crossroads [.call (CallShape.plain 2), .synthetic, .call (CallShape.plain 1), .synthetic,
      .pop, .call (CallShape.plain 0)]).instrument ⟨0, 1⟩
    = ⟨⟨1, 1, 0⟩, .error (.danglingMarker 7)⟩ := by rfl

end Chunk

end CallDecoration
