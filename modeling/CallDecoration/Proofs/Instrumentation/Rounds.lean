/-
  CallDecoration.Proofs.Instrumentation.Rounds
  ──────────────────────────────────────
  **Passes over the output of passes.**  Each round expands the user's calls of
  the original body again and skips what the rounds before it have inserted, so
  its counts are known beforehand (`rounds_exact`).  No round loses anything:
  what it has inserted can be told from the rest of its output, because nothing
  else in there looks like the beginning of an expansion
  (`not_beginsExpansion`), and without it the output is the input again
  (`withoutInserted_instrumentedCode`).
-/
import CallDecoration.Proofs.Instrumentation.Relocation

namespace CallDecoration

/-! ## §1. Expansions, recognised. -/

namespace CaptureSlots

/-- Whether the code begins with the expansion of a call. -/
def beginsExpansion (slots : CaptureSlots) (code : List Instruction) : Bool :=
  match code[12]? with
  | some (Instruction.call shape) => code.take 12 = slots.inserted (UInt8.ofNat shape.slots)
  | _ => false

section Recognised

variable {slots : CaptureSlots}

theorem beginsExpansion_iff {code : List Instruction} :
    slots.beginsExpansion code = true ↔ ∃ shape rest, code = slots.expansion shape ++ rest := by
  unfold beginsExpansion
  constructor
  · intro h
    split at h
    next shape hcall =>
      have htake := of_decide_eq_true h
      obtain ⟨hlt, hget⟩ := List.getElem?_eq_some_iff.mp hcall
      refine ⟨shape, code.drop 13, ?_⟩
      unfold expansion
      rw [← htake, ← hget, List.take_append_getElem hlt, List.take_append_drop]
    next => cases h
  · rintro ⟨shape, rest, rfl⟩
    exact decide_eq_true rfl

/-- In an expanded list a call without a mark before it is preceded by the
instructions inserted for it, the first of which builds a tuple. -/
theorem callsFrom_of_expandCalls {marked : Bool} {code xs ys : List Instruction}
    (h : slots.expandCalls marked code = xs ++ ys) (hbuilds : ∀ n, .buildTuple n ∉ xs) :
    callsFrom false marked xs = [] := by
  -- no expansion begins within `xs`, so its instructions are images of their own
  induction xs generalizing marked code with
  | nil => rfl
  | cons x xs ih =>
      cases code with
      | nil => cases h
      | cons i rest =>
          rw [expandCalls, List.cons_append] at h
          rcases slots.image_cases marked i with ⟨hsame, hcall⟩ | ⟨shape, rfl, rfl, hexpanded⟩
          · rw [hsame, List.singleton_append] at h
            obtain ⟨rfl, hrest⟩ := List.cons.inj h
            rw [callsFrom, ih hrest fun n hn => hbuilds n (List.mem_cons_of_mem _ hn)]
            split
            next hmarked => rw [hcall hmarked]; rfl
            next => rfl
          · rw [hexpanded] at h
            obtain ⟨rfl, _⟩ := List.cons.inj h
            exact absurd List.mem_cons_self (hbuilds _)

/-- **An instruction that is its own image does not begin an expansion,** not
even together with what follows it. -/
theorem not_beginsExpansion {marked : Bool} {i : Instruction} (h : slots.image marked i = [i])
    (rest : List Instruction) :
    slots.beginsExpansion (slots.expandCalls marked (i :: rest)) = false := by
  rw [Bool.eq_false_iff, Ne, beginsExpansion_iff]
  rintro ⟨shape, later, hbegins⟩
  rw [expandCalls, h, List.singleton_append] at hbegins
  obtain ⟨rfl, hlater⟩ := List.cons.inj hbegins
  -- the call of that expansion has no mark before it
  have hnone : callsFrom false false (slots.expansion shape).tail = [] :=
    callsFrom_of_expandCalls hlater (by simp [expansion, inserted])
  cases hnone

end Recognised

/-! ## §2. Deleting what was inserted. -/

/-- The rows of a body without the instructions inserted before calls; the
first `skip` rows are inserted ones. -/
def keptRows (slots : CaptureSlots) : (skip : Nat) → List (Nat × Instruction) →
    List (Nat × Instruction)
  | _, [] => []
  | skip + 1, _ :: rest => keptRows slots skip rest
  | 0, row :: rest =>
      if slots.beginsExpansion (row.2 :: rest.map Prod.snd) then keptRows slots 11 rest
      else row :: keptRows slots 0 rest

/-- Where the rows before an offset end when they are laid out alone. -/
def offsetAmong (rows : List (Nat × Instruction)) (target : Nat) : Nat :=
  codeSize ((rows.filter fun row => row.1 < target).map Prod.snd)

/-- **A body without the instructions inserted before calls,** its jumps led to
where their targets stand without these. -/
def withoutInserted (slots : CaptureSlots) (code : List Instruction) : List Instruction :=
  let kept := slots.keptRows 0 (rowsFrom 0 code)
  kept.map fun row => row.2.carried (offsetAmong kept)

/-- **What stays of an expanded list:** the last instruction of each image, at
its offset in the expanded list. -/
def survivors (slots : CaptureSlots) (offset : Nat) (marked : Bool) :
    List Instruction → List (Nat × Instruction)
  | [] => []
  | i :: rest =>
      (offset + codeSize (slots.image marked i) - i.size, i)
        :: survivors slots (offset + codeSize (slots.image marked i)) i.isMark rest

section Deleting

variable {slots : CaptureSlots}

/-- Skipped rows are dropped. -/
theorem keptRows_skip (slots : CaptureSlots) (offset : Nat) (xs ys : List Instruction) :
    slots.keptRows xs.length (rowsFrom offset (xs ++ ys))
      = slots.keptRows 0 (rowsFrom (offset + codeSize xs) ys) := by
  induction xs generalizing offset with
  | nil => rfl
  | cons x xs ih =>
      show slots.keptRows xs.length (rowsFrom (offset + x.size) (xs ++ ys)) = _
      rw [ih, codeSize_cons, Nat.add_assoc]

/-- Of an expansion the call stays. -/
theorem keptRows_expansion (offset : Nat) (shape : CallShape) (later : List Instruction) :
    slots.keptRows 0 (rowsFrom offset (slots.expansion shape ++ later))
      = (offset + 23, .call shape)
        :: slots.keptRows 0 (rowsFrom (offset + codeSize (slots.expansion shape)) later) := by
  have hexpansion : slots.beginsExpansion (slots.expansion shape ++ later) = true :=
    beginsExpansion_iff.mpr ⟨shape, later, rfl⟩
  have hcall : slots.beginsExpansion (.call shape :: later) = false := by
    rw [Bool.eq_false_iff, Ne, beginsExpansion_iff]
    rintro ⟨_, _, h⟩
    cases h
  have hsize : codeSize (slots.expansion shape) = 23 + (Instruction.call shape).size := by
    rw [codeSize_expansion, Nat.add_comm]
  -- the first of the twelve is dropped as it is recognised, the others are skipped
  have hskip := slots.keptRows_skip (offset + 2)
    (slots.inserted (UInt8.ofNat shape.slots)).tail (.call shape :: later)
  have hfirst : slots.keptRows 0 (rowsFrom offset (slots.expansion shape ++ later))
      = slots.keptRows 11 (rowsFrom (offset + 2)
          ((slots.inserted (UInt8.ofNat shape.slots)).tail ++ .call shape :: later)) := by
    show slots.keptRows 0 ((offset, _) :: rowsFrom (offset + 2) _) = _
    rw [keptRows, rowsFrom_instructions]
    exact if_pos hexpansion
  rw [hfirst]
  refine hskip.trans ?_
  show slots.keptRows 0 (rowsFrom (offset + 2 + 21) (.call shape :: later)) = _
  rw [rowsFrom, keptRows, rowsFrom_instructions, if_neg (by rw [hcall]; decide), hsize]
  rw [Nat.add_assoc, Nat.add_assoc]

theorem keptRows_expandCalls (offset : Nat) (marked : Bool) (code : List Instruction) :
    slots.keptRows 0 (rowsFrom offset (slots.expandCalls marked code))
      = slots.survivors offset marked code := by
  induction code generalizing offset marked with
  | nil => rfl
  | cons i rest ih =>
      rcases slots.image_cases marked i with ⟨hsame, _⟩ | ⟨shape, rfl, rfl, hexpanded⟩
      · -- what was not expanded is not taken for the beginning of an expansion
        have hbegins := not_beginsExpansion hsame rest
        rw [survivors, hsame]
        rw [expandCalls, hsame, List.singleton_append] at hbegins ⊢
        rw [rowsFrom, keptRows, rowsFrom_instructions, if_neg (by rw [hbegins]; decide), ih,
          codeSize_cons, codeSize_nil, Nat.add_zero, Nat.add_sub_cancel]
      · rw [expandCalls, survivors, hexpanded, keptRows_expansion, ih, codeSize_expansion]
        congr 2
        omega

/-! ## §3. Nothing else is deleted. -/

theorem survivors_instructions (offset : Nat) (marked : Bool) (code : List Instruction) :
    (slots.survivors offset marked code).map Prod.snd = code := by
  induction code generalizing offset marked with
  | nil => rfl
  | cons i rest ih => rw [survivors, List.map_cons, ih]

theorem survivors_append (offset : Nat) (marked : Bool) (xs ys : List Instruction) :
    slots.survivors offset marked (xs ++ ys) = slots.survivors offset marked xs
      ++ slots.survivors (offset + codeSize (slots.expandCalls marked xs))
          (endsWithMark marked xs) ys := by
  induction xs generalizing offset marked with
  | nil => rfl
  | cons x xs ih =>
      rw [List.cons_append, survivors, ih, survivors, expandCalls, codeSize_append, Nat.add_assoc]
      rfl

/-- An image is no smaller than its instruction. -/
theorem size_le_image (marked : Bool) (i : Instruction) :
    i.size ≤ codeSize (slots.image marked i) := by
  rcases slots.image_cases marked i with ⟨hsame, _⟩ | ⟨shape, _, rfl, hexpanded⟩
  · rw [hsame]
    exact Nat.le_refl _
  · rw [hexpanded, codeSize_expansion]
    omega

/-- Survivors stand within the images. -/
theorem survivors_bounds {offset : Nat} {marked : Bool} {code : List Instruction}
    {row : Nat × Instruction} (h : row ∈ slots.survivors offset marked code) :
    offset ≤ row.1 ∧ row.1 < offset + codeSize (slots.expandCalls marked code) := by
  induction code generalizing offset marked with
  | nil => cases h
  | cons i rest ih =>
      have hsize := slots.size_le_image marked i
      have hpos := i.size_pos
      rw [expandCalls, codeSize_append]
      rw [survivors] at h
      rcases List.mem_cons.mp h with rfl | h
      · dsimp only
        omega
      · have hrest := ih h
        omega

/-- **An offset carried along and brought back is what it was:** the survivors
before the image of an instruction are the instructions before it. -/
theorem offsetAmong_survivors (before after : List Instruction) :
    offsetAmong (slots.survivors 0 false (before ++ after))
      (codeSize (slots.expandCalls false before)) = codeSize before := by
  -- survivors stand within the images that they come from, so the offset parts them
  have hbefore : ∀ row ∈ slots.survivors 0 false before,
      decide (row.1 < codeSize (slots.expandCalls false before)) = true := by
    intro row hrow
    have hbounds := survivors_bounds hrow
    exact decide_eq_true (by omega)
  have hafter : ∀ row ∈ slots.survivors (0 + codeSize (slots.expandCalls false before))
      (endsWithMark false before) after,
      ¬ decide (row.1 < codeSize (slots.expandCalls false before)) = true := by
    intro row hrow
    have hbounds := survivors_bounds hrow
    rw [decide_eq_true_iff]
    omega
  unfold offsetAmong
  rw [survivors_append, List.filter_append, List.filter_eq_self.mpr hbefore,
    List.filter_eq_nil_iff.mpr hafter, List.append_nil, survivors_instructions]

/-- What the jumps to an old row are led to is led back to that row. -/
theorem offsetAmong_carriedOffset {code : Array UInt8} {body : List (Nat × Instruction)}
    (hrows : Rows code 0 body) {target : Nat} (htarget : ∃ i, (target, i) ∈ body)
    (carry : Nat → Nat) :
    offsetAmong (slots.survivors 0 false ((body.map Prod.snd).map (Instruction.carried carry)))
      (slots.carriedOffset body target) = target := by
  obtain ⟨i, hmem⟩ := htarget
  obtain ⟨before, after, rfl⟩ := List.append_of_mem hmem
  have hoffset : slots.carriedOffset (before ++ (target, i) :: after) target = codeSize
      (slots.expandCalls false ((before.map Prod.snd).map (Instruction.carried carry))) := by
    rw [expandCalls_carried, codeSize_carried]
    exact slots.carriedOffset_eq hrows
  rw [hoffset, List.map_append, List.map_append, offsetAmong_survivors, codeSize_carried]
  have hstart := hrows.offset_eq
  omega

/-- **Without what a pass has inserted its output is its input.** -/
theorem withoutInserted_instrumentedCode {code : Array UInt8} {body : List (Nat × Instruction)}
    (hbody : decode code = .ok body) :
    slots.withoutInserted (Chunk.instrumentedCode slots body) = body.map Prod.snd := by
  obtain ⟨hrows, haligned⟩ := decode_eq_ok.mp hbody
  unfold withoutInserted Chunk.instrumentedCode
  -- with the jumps led elsewhere first, what is scanned is an expanded list
  rw [← expandCalls_carried, keptRows_expandCalls]
  generalize hback : offsetAmong (slots.survivors 0 false
    ((body.map Prod.snd).map (Instruction.carried (slots.carriedOffset body)))) = back
  show (slots.survivors 0 false _).map (Instruction.carried (offsetAmong _) ∘ Prod.snd) = _
  rw [← List.map_map, survivors_instructions, hback, List.map_map]
  refine (List.map_congr_left fun i hi => ?_).trans (List.map_id _)
  -- each target is led there and back
  refine (Instruction.carried_carried _ _ i).trans (Instruction.carried_eq_self ?_)
  intro target htarget
  obtain ⟨row, hrow, rfl⟩ := List.mem_map.mp hi
  rw [Function.comp_apply, ← hback]
  exact offsetAmong_carriedOffset hrows (haligned row hrow target htarget) _

end Deleting

end CaptureSlots

/-! ## §4. One round. -/

/-- What a pass puts out can be instrumented again. -/
theorem Instrumentable.again {code : List Instruction} (h : Instrumentable code)
    (slots : CaptureSlots) (carry : Nat → Nat) :
    Instrumentable ((slots.expandCalls false code).map (Instruction.carried carry)) := by
  refine ⟨wellMarked_carried carry (slots.wellMarked_expandCalls h.marks), ?_⟩
  rw [userCalls, callsFrom_carried, slots.userCalls_expandCalls]
  exact h.fits

namespace Chunk

variable {V : Type} {slots : CaptureSlots} {c c' : Chunk V} {body : List (Nat × Instruction)}

/-- Whether a body that can be instrumented is instrumented depends on its
length alone. -/
theorem outcome_instrument (slots : CaptureSlots) (hbody : c.instructions = .ok body)
    (h : Instrumentable (body.map Prod.snd)) :
    if c.code.size + 23 * (userCalls (body.map Prod.snd)).length ≤ maxCodeLength then
      ∃ c', (c.instrument slots).outcome = .ok c'
    else (c.instrument slots).outcome
      = .error (.codeTooLarge (c.code.size + 23 * (userCalls (body.map Prod.snd)).length)) := by
  rw [instrument_eq hbody h]
  split
  next => exact ⟨_, rfl⟩
  next => rfl

/-- **What a round does to a chunk.** -/
structure Round (slots : CaptureSlots) (tally : Tally) (c c' : Chunk V)
    (body body' : List (Nat × Instruction)) : Prop where
  decoded : c'.instructions = .ok body'
  tally_eq : tally = ⟨(userCalls (body.map Prod.snd)).length,
    (markedCalls (body.map Prod.snd)).length, 23 * (userCalls (body.map Prod.snd)).length⟩
  /-- The new body can go through another round. -/
  again : Instrumentable (body'.map Prod.snd)
  size : c'.code.size = c.code.size + 23 * (userCalls (body.map Prod.snd)).length
  users : userCalls (body'.map Prod.snd) = userCalls (body.map Prod.snd)
  marked : (markedCalls (body'.map Prod.snd)).length
    = (markedCalls (body.map Prod.snd)).length + 2 * (userCalls (body.map Prod.snd)).length
  deleted : slots.withoutInserted (body'.map Prod.snd) = body.map Prod.snd

theorem round_of_instrument {tally : Tally} (hbody : c.instructions = .ok body)
    (h : c.instrument slots = ⟨tally, .ok c'⟩) :
    ∃ body', Round slots tally c c' body body' := by
  have houtcome : (c.instrument slots).outcome = .ok c' := by rw [h]
  have houtput := instructions_instrument hbody houtcome
  obtain ⟨_, hsame, hcan⟩ := instrumentable_of_instrument houtcome
  rw [hbody] at hsame
  cases hsame
  have hsize := size_instrumentedCode slots hbody
  rw [instrument_eq hbody hcan] at h
  split at h
  case isFalse => cases h
  case isTrue =>
    cases h
    refine ⟨rowsFrom 0 (instrumentedCode slots body), ?_⟩
    refine
      { decoded := houtput
        tally_eq := rfl
        again := ?_
        size := hsize
        users := ?_
        marked := ?_
        deleted := ?_ }
    all_goals rw [rowsFrom_instructions]
    · exact hcan.again slots _
    · exact (callsFrom_carried _ false false _).trans (slots.userCalls_expandCalls false _)
    · unfold instrumentedCode
      rw [markedCalls, callsFrom_carried]
      exact slots.markedCalls_expandCalls false _
    · exact CaptureSlots.withoutInserted_instrumentedCode hbody

end Chunk

/-! ## §5. All rounds. -/

/-- **Passes one after the other,** each over the output of the one before, with
the slots and the counts of each. -/
inductive Rounds {V : Type} : Chunk V → List CaptureSlots → List Tally → Chunk V → Prop where
  | none (c : Chunk V) : Rounds c [] [] c
  | round {c c₁ c' : Chunk V} {slots : CaptureSlots} {passes : List CaptureSlots} {tally : Tally}
      {tallies : List Tally} (hpass : c.instrument slots = ⟨tally, .ok c₁⟩)
      (hrest : Rounds c₁ passes tallies c') :
      Rounds c (slots :: passes) (tally :: tallies) c'

namespace Rounds

variable {V : Type} {c c' : Chunk V} {body : List (Nat × Instruction)}
  {passes : List CaptureSlots} {tallies : List Tally}

/-- **What rounds do to a chunk,** and what each of them reports.  Of the calls
of the chunk `users` are the user's and `marked` are marked. -/
structure Exact (users marked : Nat) (passes : List CaptureSlots) (tallies : List Tally)
    (c' : Chunk V) (body body' : List (Nat × Instruction)) : Prop where
  decoded : c'.instructions = .ok body'
  /-- Round `j`, counted from 0, meets the marked calls of the chunk and those
  that the `j` rounds before it have inserted. -/
  tallies_eq : tallies = (List.range passes.length).map fun j =>
    ⟨users, marked + 2 * j * users, 23 * users⟩
  users_eq : userCalls (body'.map Prod.snd) = userCalls (body.map Prod.snd)
  marked_length : (markedCalls (body'.map Prod.snd)).length = marked + 2 * passes.length * users
  /-- The output of a round goes through any further pass, unless the result is
  too long. -/
  again : passes ≠ [] → ∀ slots, if c'.code.size + 23 * users ≤ maxCodeLength then
      ∃ c'', (c'.instrument slots).outcome = .ok c''
    else (c'.instrument slots).outcome = .error (.codeTooLarge (c'.code.size + 23 * users))
  /-- Without what was inserted, last round first, the old body is left. -/
  deleted : passes.foldr CaptureSlots.withoutInserted (body'.map Prod.snd) = body.map Prod.snd

/-- Rounds keep bodies that can be instrumented. -/
theorem instrumentable (h : Rounds c passes tallies c') (hbody : c.instructions = .ok body)
    (hcan : passes = [] → Instrumentable (body.map Prod.snd)) :
    ∃ body', c'.instructions = .ok body' ∧ Instrumentable (body'.map Prod.snd) := by
  induction h generalizing body with
  | none c => exact ⟨body, hbody, hcan rfl⟩
  | round hpass hrest ih =>
      obtain ⟨body₁, hround⟩ := Chunk.round_of_instrument hbody hpass
      exact ih hround.decoded fun _ => hround.again

/-- One round more adds two marked calls for each call of the user's. -/
theorem marked_after (marked rounds users : Nat) :
    marked + 2 * users + 2 * rounds * users = marked + 2 * (rounds + 1) * users := by
  rw [Nat.mul_add, Nat.add_mul, Nat.add_assoc, Nat.add_comm (2 * rounds * users)]

/-- **Rounds never instrument what they have inserted.** -/
theorem rounds_exact (hbody : c.instructions = .ok body) (h : Rounds c passes tallies c') :
    ∃ body', Exact (userCalls (body.map Prod.snd)).length (markedCalls (body.map Prod.snd)).length
      passes tallies c' body body' := by
  induction h generalizing body with
  | none c =>
      refine ⟨body, ?_⟩
      exact
        { decoded := hbody
          tallies_eq := rfl
          users_eq := rfl
          marked_length := by simp
          again := fun hne => absurd rfl hne
          deleted := rfl }
  | @round c c₁ c' slots passes tally tallies hpass hrest ih =>
      -- what the first round has inserted is, for the later ones, among the marked calls
      obtain ⟨body₁, hround⟩ := Chunk.round_of_instrument hbody hpass
      obtain ⟨body', hlater⟩ := ih hround.decoded
      obtain ⟨_, hdecoded, hcan⟩ := (Rounds.round hpass hrest).instrumentable hbody (by simp)
      rw [hlater.decoded] at hdecoded
      cases hdecoded
      have husers := hlater.users_eq.trans hround.users
      refine ⟨body', ?_⟩
      refine
        { decoded := hlater.decoded
          tallies_eq := ?_
          users_eq := husers
          marked_length := ?_
          again := ?_
          deleted := ?_ }
      · rw [hlater.tallies_eq, hround.tally_eq, hround.users, hround.marked, List.length_cons,
          List.range_succ_eq_map, List.map_cons, List.map_map]
        refine List.cons_eq_cons.mpr ⟨by simp, List.map_congr_left fun j _ => ?_⟩
        rw [marked_after]
        rfl
      · rw [hlater.marked_length, hround.users, hround.marked, List.length_cons, marked_after]
      · intro _ slots'
        rw [← husers]
        exact Chunk.outcome_instrument slots' hlater.decoded hcan
      · rw [List.foldr_cons, hlater.deleted]
        exact hround.deleted

/-- Two rounds over a chunk with two calls of the user's and a marked one: the
second skips the four calls that the first has inserted as well. -/
theorem rounds_exact_crossroads :
    ∃ body c₂, (Chunk.crossroads Chunk.crossroadsBody).instructions = .ok body
      ∧ Rounds (Chunk.crossroads Chunk.crossroadsBody) [⟨0, 1⟩, ⟨2, 3⟩] [⟨2, 1, 46⟩, ⟨2, 5, 46⟩] c₂
      ∧ ∃ body', Exact 2 1 [⟨0, 1⟩, ⟨2, 3⟩] [⟨2, 1, 46⟩, ⟨2, 5, 46⟩] c₂ body body' := by
  have hbody : (Chunk.crossroads Chunk.crossroadsBody).instructions
      = .ok (rowsFrom 0 Chunk.crossroadsBody) := by decide +kernel
  have hfirst : (Chunk.crossroads Chunk.crossroadsBody).instrument ⟨0, 1⟩
      = ⟨⟨2, 1, 46⟩, .ok (Chunk.crossroads Chunk.crossroadsOutput)⟩ := by rfl
  have htally : ((Chunk.crossroads Chunk.crossroadsOutput).instrument ⟨2, 3⟩).tally
      = ⟨2, 5, 46⟩ := by decide +kernel
  have hok : ((Chunk.crossroads Chunk.crossroadsOutput).instrument ⟨2, 3⟩).outcome.isOk
      = true := by decide +kernel
  cases hsecond : (Chunk.crossroads Chunk.crossroadsOutput).instrument ⟨2, 3⟩ with
  | mk tally outcome =>
      rw [hsecond] at htally hok
      cases htally
      cases outcome with
      | error e => cases hok
      | ok c₂ =>
          have hrounds : Rounds (Chunk.crossroads Chunk.crossroadsBody) [⟨0, 1⟩, ⟨2, 3⟩]
              [⟨2, 1, 46⟩, ⟨2, 5, 46⟩] c₂ := .round hfirst (.round hsecond (.none c₂))
          exact ⟨_, c₂, hbody, hrounds, rounds_exact hbody hrounds⟩

end Rounds

end CallDecoration
