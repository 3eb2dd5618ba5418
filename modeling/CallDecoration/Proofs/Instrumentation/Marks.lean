/-
  CallDecoration.Proofs.Instrumentation.Marks
  ──────────────────────────────────────
  **What a pass puts in place of an instruction list.**  A call is the user's
  own or stands behind a mark (`callsFrom`).  Every instruction has an image,
  and the images in code order are the expanded list (`expandCalls`).  The
  user's calls of the expanded list are those of the list, every one of them
  has brought two marked calls and 23 bytes more, and marks still stand before
  calls.  Nothing here knows of offsets: where a jump leads plays no part.
-/
import CallDecoration.Proofs.Instrumentation.Images

namespace CallDecoration

/-! ## §1. Marks and calls. -/

namespace Instruction

/-- Whether the instruction marks a call. -/
def isMark : Instruction → Bool
  | synthetic => true
  | _ => false

/-- The instruction with its jump, if it is one, led to another target. -/
def carried (carry : Nat → Nat) (i : Instruction) : Instruction :=
  match i.target? with
  | some target => i.retarget (carry target)
  | none => i

@[simp] theorem carried_size (carry : Nat → Nat) (i : Instruction) :
    (i.carried carry).size = i.size := by
  cases i <;> rfl

@[simp] theorem carried_isMark (carry : Nat → Nat) (i : Instruction) :
    (i.carried carry).isMark = i.isMark := by
  cases i <;> rfl

@[simp] theorem carried_shape? (carry : Nat → Nat) (i : Instruction) :
    (i.carried carry).shape? = i.shape? := by
  cases i <;> rfl

@[simp] theorem carried_carried (carry carry' : Nat → Nat) (i : Instruction) :
    (i.carried carry).carried carry' = i.carried (carry' ∘ carry) := by
  cases i <;> rfl

theorem carried_eq_self {carry : Nat → Nat} {i : Instruction}
    (h : ∀ target, i.target? = some target → carry target = target) : i.carried carry = i := by
  cases i with
  | jump target => exact congrArg jump (h target rfl)
  | jumpIfFalse target => exact congrArg jumpIfFalse (h target rfl)
  | _ => rfl

theorem isMark_eq_false {i : Instruction} (h : i ≠ .synthetic) : i.isMark = false := by
  cases i with
  | synthetic => exact absurd rfl h
  | _ => rfl

theorem eq_call_of_shape? {i : Instruction} {shape : CallShape} (h : i.shape? = some shape) :
    i = .call shape := by
  cases i with
  | call shape' => exact congrArg call (Option.some.inj h)
  | _ => cases h

end Instruction

/-- Whether a mark stands behind the instructions; `marked` tells whether one
stands before them. -/
def endsWithMark (marked : Bool) : List Instruction → Bool
  | [] => marked
  | i :: rest => endsWithMark i.isMark rest

/-- **The shapes of the calls that stand behind a mark** (`wanted`), or of those
that do not, in code order. -/
def callsFrom (wanted marked : Bool) : List Instruction → List CallShape
  | [] => []
  | i :: rest =>
      (if marked = wanted then i.shape?.toList else []) ++ callsFrom wanted i.isMark rest

/-- The shapes of the user's own calls. -/
abbrev userCalls (code : List Instruction) : List CallShape :=
  callsFrom false false code

/-- The shapes of the marked calls. -/
abbrev markedCalls (code : List Instruction) : List CallShape :=
  callsFrom true false code

/-- **Every mark stands before a call.** -/
def WellMarked : (marked : Bool) → List Instruction → Prop
  | marked, [] => marked = false
  | marked, i :: rest => (marked = true → i.shape?.isSome = true) ∧ WellMarked i.isMark rest

/-- What is neither a mark nor a call brings no calls. -/
theorem callsFrom_plain {i : Instruction} (hcall : i.shape? = none) (hmark : i.isMark = false)
    (wanted : Bool) (rest : List Instruction) :
    callsFrom wanted false (i :: rest) = callsFrom wanted false rest := by
  rw [callsFrom, hcall, hmark]
  split <;> rfl

/-- What is marked or not a call is none of the user's calls. -/
theorem callsFrom_of_not_user {marked : Bool} {i : Instruction}
    (h : marked = false → i.shape? = none) (rest : List Instruction) :
    callsFrom false marked (i :: rest) = callsFrom false i.isMark rest := by
  rw [callsFrom]
  cases marked with
  | true => rfl
  | false => rw [if_pos rfl, h rfl, Option.toList_none, List.nil_append]

theorem callsFrom_append (wanted marked : Bool) (xs ys : List Instruction) :
    callsFrom wanted marked (xs ++ ys)
      = callsFrom wanted marked xs ++ callsFrom wanted (endsWithMark marked xs) ys := by
  induction xs generalizing marked with
  | nil => rfl
  | cons i xs ih =>
      simp only [List.cons_append, callsFrom, endsWithMark, ih, List.append_assoc]

/-! ## §2. Images. -/

namespace CaptureSlots

variable (slots : CaptureSlots)

/-- **The image of an instruction:** a call without a mark before it is
expanded, everything else stays. -/
def image (marked : Bool) (i : Instruction) : List Instruction :=
  match i.shape? with
  | some shape => if marked = true then [i] else slots.expansion shape
  | none => [i]

/-- **The images of the instructions of a list,** one after the other. -/
def expandCalls (marked : Bool) : List Instruction → List Instruction
  | [] => []
  | i :: rest => slots.image marked i ++ expandCalls i.isMark rest

/-- An image is the instruction itself, or the expansion of a call. -/
theorem image_cases (marked : Bool) (i : Instruction) :
    (slots.image marked i = [i] ∧ (marked = false → i.shape? = none))
      ∨ ∃ shape, marked = false ∧ i = .call shape ∧ slots.image marked i = slots.expansion shape := by
  unfold image
  cases hshape : i.shape? with
  | none => exact Or.inl ⟨rfl, fun _ => rfl⟩
  | some shape =>
      cases marked with
      | true => exact Or.inl ⟨rfl, fun h => by cases h⟩
      | false => exact Or.inr ⟨shape, rfl, Instruction.eq_call_of_shape? hshape, rfl⟩

theorem expandCalls_append (marked : Bool) (xs ys : List Instruction) :
    slots.expandCalls marked (xs ++ ys)
      = slots.expandCalls marked xs ++ slots.expandCalls (endsWithMark marked xs) ys := by
  induction xs generalizing marked with
  | nil => rfl
  | cons i xs ih => simp only [List.cons_append, expandCalls, endsWithMark, ih, List.append_assoc]

/-- **The thirteen instructions of an expansion.** -/
theorem expansion_eq {shape : CallShape} (hslots : shape.slots ≤ maxSlots) :
    ∃ n : UInt8, n.toNat = shape.slots ∧ slots.expansion shape
      = [.buildTuple n, .swap, .loadCapture slots.entry, .loadCapture slots.adapter,
          .unpackSequence 3, .synthetic, .call entryCall, .swap, .synthetic, .call decorateCall,
          .swap, .unpackSequence n, .call shape] :=
  ⟨UInt8.ofNat shape.slots, toNat_ofNat_slots hslots, rfl⟩

/-- An expansion has 23 bytes more than the call. -/
theorem codeSize_expansion (shape : CallShape) :
    codeSize (slots.expansion shape) = (Instruction.call shape).size + 23 := by
  have hinserted : codeSize (slots.inserted (UInt8.ofNat shape.slots)) = 23 := rfl
  unfold expansion
  rw [codeSize_append, hinserted, codeSize_cons, codeSize_nil]
  omega

theorem codeSize_image_pos (marked : Bool) (i : Instruction) :
    0 < codeSize (slots.image marked i) := by
  have hpos := i.size_pos
  rcases slots.image_cases marked i with ⟨hsame, _⟩ | ⟨shape, _, rfl, hexpanded⟩
  · rw [hsame, codeSize_cons]
    omega
  · rw [hexpanded, codeSize_expansion]
    omega

/-! ## §3. What an expansion changes. -/

/-- **The user's calls are kept,** in their order. -/
theorem userCalls_expandCalls (marked : Bool) (code : List Instruction) :
    callsFrom false marked (slots.expandCalls marked code) = callsFrom false marked code := by
  induction code generalizing marked with
  | nil => rfl
  | cons i rest ih =>
      rw [expandCalls]
      rcases slots.image_cases marked i with ⟨hsame, _⟩ | ⟨shape, rfl, rfl, hexpanded⟩
      · rw [hsame, List.singleton_append, callsFrom, callsFrom, ih]
      · -- the two inserted calls stand behind marks, the call itself does not
        rw [hexpanded, callsFrom_append]
        exact congrArg (shape :: ·) (ih false)

/-- **Every expanded call brings two marked calls.** -/
theorem markedCalls_expandCalls (marked : Bool) (code : List Instruction) :
    (callsFrom true marked (slots.expandCalls marked code)).length
      = (callsFrom true marked code).length + 2 * (callsFrom false marked code).length := by
  induction code generalizing marked with
  | nil => rfl
  | cons i rest ih =>
      rw [expandCalls]
      rcases slots.image_cases marked i with ⟨hsame, hcall⟩ | ⟨shape, rfl, rfl, hexpanded⟩
      · rw [hsame, List.singleton_append, callsFrom_of_not_user hcall]
        simp only [callsFrom, List.length_append, ih]
        omega
      · have hmarked : (callsFrom true false (slots.expansion shape)).length = 2 := rfl
        have hrest := ih (Instruction.call shape).isMark
        rw [hexpanded, callsFrom_append, List.length_append, hmarked]
        show 2 + (callsFrom true false (slots.expandCalls false rest)).length
          = (callsFrom true false rest).length + 2 * ((callsFrom false false rest).length + 1)
        change (callsFrom true false (slots.expandCalls false rest)).length = _ at hrest
        rw [hrest]
        show 2 + ((callsFrom true false rest).length + 2 * (callsFrom false false rest).length) = _
        omega

/-- **Every expanded call brings 23 bytes.** -/
theorem codeSize_expandCalls (marked : Bool) (code : List Instruction) :
    codeSize (slots.expandCalls marked code)
      = codeSize code + 23 * (callsFrom false marked code).length := by
  induction code generalizing marked with
  | nil => rfl
  | cons i rest ih =>
      rw [expandCalls, codeSize_append, ih, codeSize_cons]
      rcases slots.image_cases marked i with ⟨hsame, hcall⟩ | ⟨shape, rfl, rfl, hexpanded⟩
      · rw [hsame, codeSize_cons, codeSize_nil, callsFrom_of_not_user hcall]
        omega
      · have hone : (callsFrom false false (.call shape :: rest)).length
            = (callsFrom false false rest).length + 1 := rfl
        rw [hexpanded, codeSize_expansion, hone]
        show _ + (codeSize rest + 23 * (callsFrom false false rest).length) = _
        omega

/-- **Marks still stand before calls.** -/
theorem wellMarked_expandCalls {marked : Bool} {code : List Instruction}
    (h : WellMarked marked code) : WellMarked marked (slots.expandCalls marked code) := by
  induction code generalizing marked with
  | nil => exact h
  | cons i rest ih =>
      obtain ⟨hcall, hrest⟩ := h
      rw [expandCalls]
      rcases slots.image_cases marked i with ⟨hsame, _⟩ | ⟨shape, rfl, rfl, hexpanded⟩
      · rw [hsame]
        exact ⟨hcall, ih hrest⟩
      · -- each inserted mark has its call behind it, and the call at the end is none
        have hlater := ih hrest
        rw [hexpanded]
        simpa [expansion, inserted, WellMarked, Instruction.isMark, Instruction.shape?] using hlater

end CaptureSlots

/-! ## §4. Jumps led elsewhere. -/

section Carried

variable (carry : Nat → Nat)

@[simp] theorem codeSize_carried (code : List Instruction) :
    codeSize (code.map (Instruction.carried carry)) = codeSize code := by
  induction code with
  | nil => rfl
  | cons i rest ih => rw [List.map_cons, codeSize_cons, codeSize_cons, ih, Instruction.carried_size]

@[simp] theorem callsFrom_carried (wanted marked : Bool) (code : List Instruction) :
    callsFrom wanted marked (code.map (Instruction.carried carry)) = callsFrom wanted marked code := by
  induction code generalizing marked with
  | nil => rfl
  | cons i rest ih =>
      rw [List.map_cons, callsFrom, callsFrom, ih, Instruction.carried_shape?,
        Instruction.carried_isMark]

theorem wellMarked_carried {marked : Bool} {code : List Instruction} (h : WellMarked marked code) :
    WellMarked marked (code.map (Instruction.carried carry)) := by
  induction code generalizing marked with
  | nil => exact h
  | cons i rest ih =>
      obtain ⟨hcall, hrest⟩ := h
      rw [List.map_cons]
      refine ⟨?_, ?_⟩
      · rw [Instruction.carried_shape?]
        exact hcall
      · rw [Instruction.carried_isMark]
        exact ih hrest

/-- The code of an expansion has no jumps. -/
theorem CaptureSlots.expansion_carried (slots : CaptureSlots) (shape : CallShape) :
    (slots.expansion shape).map (Instruction.carried carry) = slots.expansion shape := rfl

/-- **Leading jumps elsewhere and expanding calls commute.** -/
theorem CaptureSlots.expandCalls_carried (slots : CaptureSlots) (marked : Bool)
    (code : List Instruction) :
    slots.expandCalls marked (code.map (Instruction.carried carry))
      = (slots.expandCalls marked code).map (Instruction.carried carry) := by
  induction code generalizing marked with
  | nil => rfl
  | cons i rest ih =>
      rw [List.map_cons, expandCalls, expandCalls, List.map_append, ih, Instruction.carried_isMark]
      congr 1
      -- an image depends on the mark and the shape alone, and these stay
      rcases slots.image_cases marked i with ⟨hsame, hcall⟩ | ⟨shape, rfl, rfl, hexpanded⟩
      · rw [hsame]
        unfold image
        rw [Instruction.carried_shape?]
        cases hshape : i.shape? with
        | none => rfl
        | some shape =>
            cases marked with
            | true => rfl
            | false =>
                rw [hcall rfl] at hshape
                cases hshape
      · rw [hexpanded, expansion_carried]
        rfl

end Carried

end CallDecoration
