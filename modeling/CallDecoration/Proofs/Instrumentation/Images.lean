/-
  CallDecoration.Proofs.Instrumentation.Images
  ──────────────────────────────────────
  **What a pass makes of each instruction, and where it puts it.**  A decoded
  body is a list of rows; the pass gives each row an image (`Imaged`), and the
  images are laid out in order.
  Redirecting jumps changes no size, so the code of an image stands where the
  images before it end (`redirectAll_split`).
-/
import CallDecoration.Instrumentation.Pass
import CallDecoration.Proofs.Bytecode.Bodies

namespace CallDecoration

/-! ## §1. Sizes. -/

@[simp] theorem codeSize_nil : codeSize [] = 0 := rfl

@[simp] theorem codeSize_cons (i : Instruction) (rest : List Instruction) :
    codeSize (i :: rest) = i.size + codeSize rest := rfl

@[simp] theorem codeSize_append (xs ys : List Instruction) :
    codeSize (xs ++ ys) = codeSize xs + codeSize ys := by
  induction xs with
  | nil => simp
  | cons i xs ih => rw [List.cons_append, codeSize_cons, codeSize_cons, ih, Nat.add_assoc]

theorem encode_size (instructions : List Instruction) :
    (encode instructions).size = codeSize instructions := by
  induction instructions with
  | nil => rfl
  | cons i rest ih => rw [encode_cons_size, codeSize_cons, ih]

theorem decodes_encode (before middle after : List Instruction)
    (hlength : (encode (before ++ (middle ++ after))).size ≤ maxCodeLength)
    (hmiddle : ∀ i ∈ middle, i.IsWritten (encode (before ++ (middle ++ after))).size) :
    Decodes (encode (before ++ (middle ++ after))) (codeSize before) middle
      (codeSize before + codeSize middle) := by
  induction middle generalizing before with
  | nil => exact Decodes.nil _
  | cons i middle ih =>
      have hassoc : before ++ (i :: middle ++ after) = (before ++ [i]) ++ (middle ++ after) := by
        simp
      have hhead := decodeAt_encode before (middle ++ after) i hlength (hmiddle i (by simp))
      rw [encode_size] at hhead
      refine Decodes.cons hhead ?_
      rw [hassoc] at hlength hmiddle ⊢
      have htail := ih (before ++ [i]) hlength fun j hj => hmiddle j (List.mem_cons_of_mem _ hj)
      rw [codeSize_append, codeSize_cons, codeSize_nil, Nat.add_zero] at htail
      rw [codeSize_cons, ← Nat.add_assoc]
      exact htail

/-! ## §2. Images. -/

/-- The operands of an expanded call can be counted in one byte. -/
theorem toNat_ofNat_slots {shape : CallShape} (hslots : shape.slots ≤ maxSlots) :
    (UInt8.ofNat shape.slots).toNat = shape.slots := by
  unfold maxSlots at hslots
  rw [UInt8.toNat_ofNat']
  omega

theorem Instruction.shape?_eq_none {i : Instruction} (h : ∀ shape, i ≠ .call shape) :
    i.shape? = none := by
  cases i with
  | call shape => exact absurd rfl (h shape)
  | _ => rfl

/-- **The image of each instruction:** a marked call and its mark stay, any
other call is expanded, everything else stays. -/
inductive Imaged (slots : CaptureSlots) : List (Nat × Instruction) → List Image → Prop where
  | nil : Imaged slots [] []
  | marked {o o' : Nat} {shape : CallShape} {rows : List (Nat × Instruction)}
      {imgs : List Image} (h : Imaged slots rows imgs) :
      Imaged slots ((o, .synthetic) :: (o', .call shape) :: rows)
        ((o, [.synthetic]) :: (o', [.call shape]) :: imgs)
  | expanded {o : Nat} {shape : CallShape} {rows : List (Nat × Instruction)}
      {imgs : List Image} (hslots : shape.slots ≤ maxSlots) (h : Imaged slots rows imgs) :
      Imaged slots ((o, .call shape) :: rows) ((o, slots.expansion shape) :: imgs)
  | plain {o : Nat} {i : Instruction} {rows : List (Nat × Instruction)} {imgs : List Image}
      (hcall : i.shape? = none) (hmark : i ≠ .synthetic) (h : Imaged slots rows imgs) :
      Imaged slots ((o, i) :: rows) ((o, [i]) :: imgs)

theorem imaged_of_images {slots : CaptureSlots} {tally tally' : Tally}
    {rows : List (Nat × Instruction)} {imgs : List Image}
    (h : images slots tally rows = (tally', .ok imgs)) : Imaged slots rows imgs := by
  induction tally, rows using images.induct slots generalizing tally' imgs with
  | case1 tally =>
      cases h
      exact Imaged.nil
  | case2 tally o o' shape rows counts result hrec ih =>
      simp only [images, hrec, Prod.mk.injEq] at h
      obtain ⟨later, hlater, rfl⟩ := map_eq_ok_iff.mp h.2
      exact Imaged.marked (ih (by rw [hrec, hlater]))
  | case3 tally o rows hnext =>
      rw [images] at h
      · cases h
      · exact hnext
  | case4 tally o shape rows hslots counts result hrec ih =>
      simp only [images, if_pos hslots, hrec, Prod.mk.injEq] at h
      obtain ⟨later, hlater, rfl⟩ := map_eq_ok_iff.mp h.2
      exact Imaged.expanded hslots (ih (by rw [hrec, hlater]))
  | case5 tally o shape rows hslots =>
      simp only [images, if_neg hslots] at h
      cases h
  | case6 tally o i rows hpair hmark hcall counts result hrec ih =>
      have hshape := Instruction.shape?_eq_none hcall
      rw [images] at h
      · simp only [hrec, Prod.mk.injEq] at h
        obtain ⟨later, hlater, rfl⟩ := map_eq_ok_iff.mp h.2
        exact Imaged.plain hshape hmark (ih (by rw [hrec, hlater]))
      · exact hpair
      · exact hmark
      · exact hcall

/-- The size of the code of images laid out one after the other. -/
def imageSize : List Image → Nat
  | [] => 0
  | image :: rest => codeSize image.2 + imageSize rest

@[simp] theorem imageSize_nil : imageSize [] = 0 := rfl

@[simp] theorem imageSize_cons (image : Image) (rest : List Image) :
    imageSize (image :: rest) = codeSize image.2 + imageSize rest := rfl

@[simp] theorem imageSize_append (xs ys : List Image) :
    imageSize (xs ++ ys) = imageSize xs + imageSize ys := by
  induction xs with
  | nil => simp
  | cons image xs ih => rw [List.cons_append, imageSize_cons, imageSize_cons, ih, Nat.add_assoc]

/-- An entry of the relocations stands for an image, where the images before
it end. -/
theorem exists_of_relocations {start target moved : Nat} {imgs : List Image}
    (h : Dict.get? (relocations start imgs) target = some moved) :
    ∃ pre code post, imgs = pre ++ (target, code) :: post ∧ moved = start + imageSize pre := by
  induction imgs generalizing start with
  | nil => cases h
  | cons image imgs ih =>
      obtain ⟨o, code⟩ := image
      simp only [relocations, Dict.get?] at h
      by_cases ho : o = target
      · rw [if_pos ho] at h
        cases h
        subst ho
        exact ⟨[], code, imgs, rfl, rfl⟩
      · rw [if_neg ho] at h
        obtain ⟨pre, code', post, rfl, hmoved⟩ := ih h
        refine ⟨(o, code) :: pre, code', post, rfl, ?_⟩
        rw [hmoved, imageSize_cons, Nat.add_assoc]

/-! ## §3. Redirected code. -/

theorem Instruction.retarget_size (t : Nat) (i : Instruction) : (i.retarget t).size = i.size := by
  cases i <;> rfl

/-- A redirected instruction is the same, but for the target of a jump. -/
theorem redirect_ok {moves : List (Nat × Nat)} {o : Nat} {i i' : Instruction}
    (h : redirect moves o i = .ok i') :
    (i.target? = none ∧ i' = i)
      ∨ ∃ t t', i.target? = some t ∧ Dict.get? moves t = some t' ∧ i' = i.retarget t' := by
  unfold redirect at h
  cases htarget : i.target? with
  | none =>
      rw [htarget] at h
      cases h
      exact Or.inl ⟨rfl, rfl⟩
  | some t =>
      rw [htarget] at h
      dsimp only at h
      cases hmoved : Dict.get? moves t with
      | none =>
          rw [hmoved] at h
          cases h
      | some t' =>
          rw [hmoved] at h
          cases h
          exact Or.inr ⟨t, t', rfl, hmoved, rfl⟩

theorem redirect_size {moves : List (Nat × Nat)} {o : Nat} {i i' : Instruction}
    (h : redirect moves o i = .ok i') : i'.size = i.size := by
  rcases redirect_ok h with ⟨_, rfl⟩ | ⟨t, t', _, _, rfl⟩
  · rfl
  · exact i.retarget_size t'

theorem mapM_cons_ok {moves : List (Nat × Nat)} {o : Nat} {i : Instruction}
    {rest code : List Instruction} (h : (i :: rest).mapM (redirect moves o) = .ok code) :
    ∃ i' rest', redirect moves o i = .ok i' ∧ rest.mapM (redirect moves o) = .ok rest'
      ∧ code = i' :: rest' := by
  rw [List.mapM_cons] at h
  obtain ⟨i', hi, h⟩ := bind_eq_ok_iff.mp h
  obtain ⟨rest', hrest, h⟩ := bind_eq_ok_iff.mp h
  cases h
  exact ⟨i', rest', hi, hrest, rfl⟩

theorem mapM_redirect_size {moves : List (Nat × Nat)} {o : Nat} {code code' : List Instruction}
    (h : code.mapM (redirect moves o) = .ok code') : codeSize code' = codeSize code := by
  induction code generalizing code' with
  | nil =>
      cases h
      rfl
  | cons i rest ih =>
      obtain ⟨i', rest', hi, hrest, rfl⟩ := mapM_cons_ok h
      rw [codeSize_cons, codeSize_cons, redirect_size hi, ih hrest]

/-- Code without jumps is not changed. -/
theorem mapM_redirect_id {moves : List (Nat × Nat)} {o : Nat} {code code' : List Instruction}
    (hcode : ∀ i ∈ code, i.target? = none) (h : code.mapM (redirect moves o) = .ok code') :
    code' = code := by
  induction code generalizing code' with
  | nil =>
      cases h
      rfl
  | cons i rest ih =>
      obtain ⟨i', rest', hi, hrest, rfl⟩ := mapM_cons_ok h
      rw [ih (fun j hj => hcode j (List.mem_cons_of_mem _ hj)) hrest]
      rcases redirect_ok hi with ⟨_, rfl⟩ | ⟨t, t', ht, _⟩
      · rfl
      · rw [hcode i (by simp)] at ht
        cases ht

theorem redirectAll_cons_ok {moves : List (Nat × Nat)} {o : Nat} {code : List Instruction}
    {imgs : List Image} {instructions : List Instruction}
    (h : redirectAll moves ((o, code) :: imgs) = .ok instructions) :
    ∃ here later, code.mapM (redirect moves o) = .ok here ∧ redirectAll moves imgs = .ok later
      ∧ instructions = here ++ later := by
  unfold redirectAll at h
  obtain ⟨here, hhere, h⟩ := bind_eq_ok_iff.mp h
  obtain ⟨later, hlater, h⟩ := bind_eq_ok_iff.mp h
  cases h
  exact ⟨here, later, hhere, hlater, rfl⟩

theorem redirectAll_size {moves : List (Nat × Nat)} {imgs : List Image}
    {instructions : List Instruction} (h : redirectAll moves imgs = .ok instructions) :
    codeSize instructions = imageSize imgs := by
  induction imgs generalizing instructions with
  | nil =>
      cases h
      rfl
  | cons image imgs ih =>
      obtain ⟨here, later, hhere, hlater, rfl⟩ := redirectAll_cons_ok h
      rw [codeSize_append, imageSize_cons, mapM_redirect_size hhere, ih hlater]

/-- **The code of an image stands where the images before it end.** -/
theorem redirectAll_split {moves : List (Nat × Nat)} {pre post : List Image} {o : Nat}
    {code instructions : List Instruction}
    (h : redirectAll moves (pre ++ (o, code) :: post) = .ok instructions) :
    ∃ before here after, instructions = before ++ (here ++ after)
      ∧ codeSize before = imageSize pre ∧ code.mapM (redirect moves o) = .ok here := by
  induction pre generalizing instructions with
  | nil =>
      obtain ⟨here, later, hhere, _, rfl⟩ := redirectAll_cons_ok h
      exact ⟨[], here, later, rfl, rfl, hhere⟩
  | cons image pre ih =>
      obtain ⟨first, later, hfirst, hlater, rfl⟩ := redirectAll_cons_ok h
      obtain ⟨before, here, after, rfl, hsize, hhere⟩ := ih hlater
      refine ⟨first ++ before, here, after, by simp, ?_, hhere⟩
      rw [codeSize_append, imageSize_cons, mapM_redirect_size hfirst, hsize]

end CallDecoration
