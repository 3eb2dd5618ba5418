/-
  CallDecoration.Proofs.Instrumentation.Layout
  ──────────────────────────────────────
  **Where the instructions of a body are after instrumentation.**  A pass
  carries every instruction boundary of a body to a boundary of the new body
  (`Layout.Carried`).  From a boundary on, the new body decodes to the same
  instruction, with its jump carried along, or to the expansion of the call
  that stands there (`Layout.corresponds`).  Runs of both bodies are compared
  by this lemma alone; offsets are not looked at again.
-/
import CallDecoration.Proofs.Instrumentation.Images

namespace CallDecoration

/-! ## §1. Layouts. -/

/-- **The record of a pass** that turned `code` into `code'`. -/
structure Layout (slots : CaptureSlots) (code code' : Array UInt8) where
  rows : List (Nat × Instruction)
  imgs : List Image
  instructions : List Instruction
  decoded : decode code = .ok rows
  imaged : Imaged slots rows imgs
  redirected : redirectAll (relocations 0 imgs) imgs = .ok instructions
  encoded : code' = encode instructions
  fits : code'.size ≤ maxCodeLength

/-- A pass that succeeds has a record, and keeps name, tables and local
slots. -/
theorem Chunk.instrument_ok {V : Type} {slots : CaptureSlots} {c c' : Chunk V}
    (h : (c.instrument slots).outcome = .ok c') :
    Nonempty (Layout slots c.code c'.code) ∧ c'.name = c.name ∧ c'.constants = c.constants
      ∧ c'.names = c.names ∧ c'.localCount = c.localCount := by
  unfold Chunk.instrument at h
  cases hrows : c.instructions with
  | error cause =>
      rw [hrows] at h
      cases h
  | ok rows =>
      rw [hrows] at h
      dsimp only at h
      cases himages : images slots .zero rows with
      | mk tally result =>
          rw [himages] at h
          cases result with
          | error e => cases h
          | ok imgs =>
              dsimp only at h
              cases hall : redirectAll (relocations 0 imgs) imgs with
              | error e =>
                  rw [hall] at h
                  cases h
              | ok instructions =>
                  rw [hall] at h
                  dsimp only at h
                  split at h
                  case isTrue hfits =>
                    cases h
                    exact ⟨⟨⟨rows, imgs, instructions, hrows,
                      imaged_of_images himages, hall, rfl, hfits⟩⟩, rfl, rfl, rfl, rfl⟩
                  case isFalse => cases h

namespace Layout

variable {slots : CaptureSlots} {code code' : Array UInt8} (L : Layout slots code code')

/-! ## §2. Carried boundaries. -/

/-- **The boundary of the new body to which a boundary is carried.** The flag
tells that a marked call stands there. -/
inductive Carried : Bool → Nat → Nat → Prop where
  | boundary (pre : List (Nat × Instruction)) (preI : List Image) {p : Nat}
      {rest : List (Nat × Instruction)} {restI : List Image}
      (hrows : L.rows = pre ++ rest) (himgs : L.imgs = preI ++ restI) (hoff : Rows code p rest)
      (himaged : Imaged slots rest restI) : Carried false p (imageSize preI)
  | marked (pre : List (Nat × Instruction)) (preI : List Image) {p : Nat} {shape : CallShape}
      {rows : List (Nat × Instruction)} {imgs : List Image}
      (hrows : L.rows = pre ++ (p, .call shape) :: rows)
      (himgs : L.imgs = preI ++ (p, [.call shape]) :: imgs)
      (hoff : Rows code p ((p, .call shape) :: rows)) (himaged : Imaged slots rows imgs) :
      Carried true p (imageSize preI)

/-- The start of the body is carried to the start. -/
theorem carried_zero : L.Carried false 0 0 :=
  Carried.boundary [] [] rfl rfl (rows_of_decode L.decoded) L.imaged

/-- The size of the new body is that of all images. -/
theorem size_eq : code'.size = imageSize L.imgs := by
  have hsize : code'.size = (encode L.instructions).size := congrArg Array.size L.encoded
  rw [hsize, encode_size, redirectAll_size L.redirected]

/-- The row of an image. -/
theorem exists_row {rows : List (Nat × Instruction)} {preI post : List Image} {t : Nat}
    {image : List Instruction} (h : Imaged slots rows (preI ++ (t, image) :: post)) :
    ∃ pre i rest, rows = pre ++ (t, i) :: rest
      ∧ (Imaged slots ((t, i) :: rest) ((t, image) :: post)
        ∨ ∃ shape, i = .call shape ∧ image = [.call shape] ∧ Imaged slots rest post) := by
  generalize himgs : preI ++ (t, image) :: post = imgs at h
  induction h generalizing preI with
  | nil => simp at himgs
  | @marked o o' shape rows imgs h ih =>
      -- two images: the one that is looked for may be either of them, or come later
      match preI, himgs with
      | [], himgs =>
          cases himgs
          exact ⟨[], _, _, rfl, Or.inl (Imaged.marked h)⟩
      | [a], himgs =>
          cases himgs
          exact ⟨[(o, .synthetic)], _, _, rfl, Or.inr ⟨shape, rfl, rfl, h⟩⟩
      | a :: b :: preI, himgs =>
          simp only [List.cons_append, List.cons.injEq] at himgs
          obtain ⟨pre, i, rest, rfl, hcase⟩ := ih himgs.2.2
          exact ⟨(o, .synthetic) :: (o', .call shape) :: pre, i, rest, rfl, hcase⟩
  | @expanded o shape rows imgs hslots h ih =>
      match preI, himgs with
      | [], himgs =>
          cases himgs
          exact ⟨[], _, _, rfl, Or.inl (Imaged.expanded hslots h)⟩
      | a :: preI, himgs =>
          simp only [List.cons_append, List.cons.injEq] at himgs
          obtain ⟨pre, i, rest, rfl, hcase⟩ := ih himgs.2
          exact ⟨(o, .call shape) :: pre, i, rest, rfl, hcase⟩
  | @plain o j rows imgs hcall hmark h ih =>
      match preI, himgs with
      | [], himgs =>
          cases himgs
          exact ⟨[], _, _, rfl, Or.inl (Imaged.plain hcall hmark h)⟩
      | a :: preI, himgs =>
          simp only [List.cons_append, List.cons.injEq] at himgs
          obtain ⟨pre, i, rest, rfl, hcase⟩ := ih himgs.2
          exact ⟨(o, j) :: pre, i, rest, rfl, hcase⟩

/-- The image of a call with no mark right before it. -/
theorem exists_image_of_call {before after : List (Nat × Instruction)} {t : Nat} {shape : CallShape}
    {imgs : List Image} (h : Imaged slots (before ++ (t, .call shape) :: after) imgs)
    (hmark : ∀ o, ¬ [(o, .synthetic)] <:+ before) :
    ∃ preI post, imgs = preI ++ (t, slots.expansion shape) :: post := by
  generalize hrows : before ++ (t, .call shape) :: after = rows at h
  induction h generalizing before with
  | nil => simp at hrows
  | @marked o o' shape' rows imgs h ih =>
      -- the call is not the marked one
      match before, hmark, hrows with
      | [(o, .synthetic)], hmark, rfl => exact absurd (List.suffix_refl _) (hmark o)
      | a :: b :: before, hmark, hrows =>
          simp only [List.cons_append, List.cons.injEq] at hrows
          have hrest : ∀ o, ¬ [(o, .synthetic)] <:+ before := fun o hlast =>
            hmark o (hlast.trans (List.suffix_append [a, b] before))
          obtain ⟨preI, post, rfl⟩ := ih hrest hrows.2.2
          exact ⟨_ :: _ :: preI, post, rfl⟩
  | @expanded o shape' rows imgs hslots h ih =>
      match before, hmark, hrows with
      | [], _, hrows =>
          cases hrows
          exact ⟨[], imgs, rfl⟩
      | a :: before, hmark, hrows =>
          simp only [List.cons_append, List.cons.injEq] at hrows
          obtain ⟨preI, post, rfl⟩ := ih (fun o hlast =>
            hmark o (hlast.trans (List.suffix_cons a before))) hrows.2
          exact ⟨_ :: preI, post, rfl⟩
  | @plain o i rows imgs hcall hmarker h ih =>
      match before, hmark, hrows with
      | [], _, hrows =>
          cases hrows
          cases hcall
      | a :: before, hmark, hrows =>
          simp only [List.cons_append, List.cons.injEq] at hrows
          obtain ⟨preI, post, rfl⟩ := ih (fun o hlast =>
            hmark o (hlast.trans (List.suffix_cons a before))) hrows.2
          exact ⟨_ :: preI, post, rfl⟩

/-- The image of an instruction is not empty. -/
theorem image_pos {rows : List (Nat × Instruction)} {preI post : List Image} {t : Nat}
    {image : List Instruction} (h : Imaged slots rows (preI ++ (t, image) :: post)) :
    0 < codeSize image := by
  have hone : ∀ i : Instruction, 0 < codeSize [i] := by
    intro i
    rw [codeSize_cons]
    have := i.size_pos
    omega
  obtain ⟨pre, i, rest, _, himaged | ⟨shape, _, rfl, _⟩⟩ := exists_row h
  · cases himaged with
    | marked => exact hone _
    | @expanded o shape =>
        have hfirst := (Instruction.buildTuple (UInt8.ofNat shape.slots)).size_pos
        unfold CaptureSlots.expansion CaptureSlots.inserted
        rw [codeSize_append, codeSize_cons]
        omega
    | plain => exact hone i
  · exact hone _

/-- Where a jump may land is a boundary, carried to the place where it lands
afterwards, which is in the new body. -/
theorem carried_of_relocations {t t' : Nat}
    (h : Dict.get? (relocations 0 L.imgs) t = some t') :
    (∃ marked, L.Carried marked t t') ∧ t' < code'.size := by
  obtain ⟨preI, image, post, himgs, rfl⟩ := exists_of_relocations h
  have himaged := L.imaged
  rw [himgs] at himaged
  have hpos := image_pos himaged
  constructor
  · obtain ⟨pre, i, rest, hrows, hcase⟩ := exists_row himaged
    have hdecoded := rows_of_decode L.decoded
    rw [hrows] at hdecoded
    obtain ⟨p, hp⟩ := hdecoded.of_append
    have hpt : p = t := by
      cases hp
      rfl
    subst hpt
    rw [Nat.zero_add]
    rcases hcase with hrest | ⟨shape, rfl, rfl, hrest⟩
    · exact ⟨false, Carried.boundary pre preI hrows himgs hp hrest⟩
    · exact ⟨true, Carried.marked pre preI hrows himgs hp hrest⟩
  · rw [L.size_eq, himgs, imageSize_append, imageSize_cons]
    dsimp only
    omega

/-! ## §3. What stands at a carried boundary. -/

/-- An instruction with its jump carried along. -/
def Moved (i i' : Instruction) : Prop :=
  (i.target? = none ∧ i' = i)
    ∨ ∃ t t' marked, i.target? = some t ∧ i' = i.retarget t' ∧ L.Carried marked t t'

/-- What does not jump stays as it is. -/
theorem Moved.eq_self {L : Layout slots code code'} {i i' : Instruction} (h : L.Moved i i')
    (hnone : i.target? = none) : i' = i := by
  rcases h with ⟨_, rfl⟩ | ⟨t, t', marked, ht, _⟩
  · rfl
  · rw [hnone] at ht
    cases ht

theorem moved_of_redirect {o : Nat} {i i' : Instruction} (hi : i.IsWritten code.size)
    (h : redirect (relocations 0 L.imgs) o i = .ok i') :
    L.Moved i i' ∧ i'.IsWritten code'.size := by
  rcases redirect_ok h with ⟨hnone, rfl⟩ | ⟨t, t', ht, hmoved, rfl⟩
  · refine ⟨Or.inl ⟨hnone, rfl⟩, ?_⟩
    cases i' with
    | jump | jumpIfFalse => cases hnone
    | call shape => exact hi
    | _ => trivial
  · obtain ⟨⟨marked, hcarried⟩, hlt⟩ := L.carried_of_relocations hmoved
    refine ⟨Or.inr ⟨t, t', marked, ht, rfl, hcarried⟩, ?_⟩
    cases i with
    | jump | jumpIfFalse => exact hlt
    | _ => cases ht

/-- The new body decodes to the redirected code of an image, where that image
was put. -/
theorem decodes_image {preI post : List Image} {o : Nat} {image : List Instruction}
    (himgs : L.imgs = preI ++ (o, image) :: post) :
    ∃ here, image.mapM (redirect (relocations 0 L.imgs) o) = .ok here
      ∧ ((∀ i ∈ here, i.IsWritten code'.size) →
        Decodes code' (imageSize preI) here (imageSize (preI ++ [(o, image)]))) := by
  have hall := L.redirected
  rw [himgs] at hall
  obtain ⟨before, here, after, hinstr, hsize, hhere⟩ := redirectAll_split hall
  rw [← himgs] at hhere
  refine ⟨here, hhere, ?_⟩
  intro hwritten
  have hcode : code' = encode (before ++ (here ++ after)) := by rw [L.encoded, hinstr]
  have hfits := L.fits
  rw [hcode] at hfits hwritten ⊢
  have hdecodes := decodes_encode before here after hfits hwritten
  rw [hsize, mapM_redirect_size hhere] at hdecodes
  rw [imageSize_append, imageSize_cons, imageSize_nil, Nat.add_zero]
  exact hdecodes

/-- A single instruction stands where its image was put. -/
theorem decodeAt_single {preI post : List Image} {o : Nat} {i : Instruction}
    (himgs : L.imgs = preI ++ (o, [i]) :: post) (hi : i.IsWritten code.size) :
    ∃ i', L.Moved i i' ∧ decodeAt code' (imageSize preI)
      = .ok (i', imageSize (preI ++ [(o, [i])])) := by
  obtain ⟨here, hhere, hdecodes⟩ := L.decodes_image himgs
  obtain ⟨i', rest', hredirect, hrest, rfl⟩ := mapM_cons_ok hhere
  cases hrest
  obtain ⟨hmoved, hwritten⟩ := L.moved_of_redirect hi hredirect
  have hlist := hdecodes (by simpa using hwritten)
  cases hlist with
  | cons hdecode hnil =>
      cases hnil
      exact ⟨i', hmoved, hdecode⟩

/-- The expansion of a call has no jumps. -/
theorem target_expansion {shape : CallShape} {i : Instruction} (h : i ∈ slots.expansion shape) :
    i.target? = none := by
  simp only [CaptureSlots.expansion, CaptureSlots.inserted, List.mem_append, List.mem_cons,
    List.not_mem_nil, or_false] at h
  rcases h with h | rfl
  · rcases h with rfl | rfl | rfl | rfl | rfl | rfl | rfl | rfl | rfl | rfl | rfl | rfl <;> rfl
  · rfl

/-- The calls in the expansion of a call can be written. -/
theorem isWritten_expansion {shape : CallShape} {i : Instruction} (hshape : shape.IsWritten)
    (h : i ∈ slots.expansion shape) (length : Nat) : i.IsWritten length := by
  simp only [CaptureSlots.expansion, CaptureSlots.inserted, List.mem_append, List.mem_cons,
    List.not_mem_nil, or_false] at h
  rcases h with h | rfl
  · rcases h with rfl | rfl | rfl | rfl | rfl | rfl | rfl | rfl | rfl | rfl | rfl | rfl
    all_goals first
      | trivial
      | exact fun hex => by cases hex
  · exact hshape

/-- The expansion of a call stands where its image was put. -/
theorem decodes_expansion {preI post : List Image} {o : Nat} {shape : CallShape}
    (himgs : L.imgs = preI ++ (o, slots.expansion shape) :: post) (hshape : shape.IsWritten) :
    Decodes code' (imageSize preI) (slots.expansion shape)
      (imageSize (preI ++ [(o, slots.expansion shape)])) := by
  obtain ⟨here, hhere, hdecodes⟩ := L.decodes_image himgs
  have heq := mapM_redirect_id (fun i hi => target_expansion hi) hhere
  rw [heq] at hdecodes
  exact hdecodes fun i hi => isWritten_expansion hshape hi _

/-- **How a boundary and the one it is carried to go on.** -/
inductive Corresponds : Bool → Nat → Nat → Prop where
  /-- Both bodies end. -/
  | ended : Corresponds false code.size code'.size
  /-- The same instruction, but for the target of a jump. -/
  | plain {p q next next' : Nat} {i i' : Instruction} (hrow : (p, i) ∈ L.rows)
      (hcode : decodeAt code p = .ok (i, next)) (hcode' : decodeAt code' q = .ok (i', next'))
      (hcall : i.shape? = none) (hmark : i ≠ .synthetic) (hmoved : L.Moved i i')
      (hnext : L.Carried false next next') : Corresponds false p q
  /-- A mark, and a marked call behind it. -/
  | mark {p q next next' : Nat} (hcode : decodeAt code p = .ok (.synthetic, next))
      (hcode' : decodeAt code' q = .ok (.synthetic, next')) (hnext : L.Carried true next next') :
      Corresponds false p q
  /-- A marked call, left alone. -/
  | copied {p q next next' : Nat} {shape : CallShape}
      (hcode : decodeAt code p = .ok (.call shape, next))
      (hcode' : decodeAt code' q = .ok (.call shape, next'))
      (hnext : L.Carried false next next') : Corresponds true p q
  /-- A call, expanded. -/
  | expanded {p q next next' : Nat} {shape : CallShape}
      (hcode : decodeAt code p = .ok (.call shape, next)) (hslots : shape.slots ≤ maxSlots)
      (hcode' : Decodes code' q (slots.expansion shape) next')
      (hnext : L.Carried false next next') : Corresponds false p q

/-- The boundary behind an image is carried to the boundary behind its row. -/
theorem carried_next {p : Nat} {pre rest : List (Nat × Instruction)} {preI restI : List Image}
    {row : Nat × Instruction} {image : Image} (hrows : L.rows = pre ++ row :: rest)
    (himgs : L.imgs = preI ++ image :: restI) (hoff : Rows code p rest)
    (himaged : Imaged slots rest restI) : L.Carried false p (imageSize (preI ++ [image])) :=
  Carried.boundary (pre ++ [row]) (preI ++ [image]) (by rw [hrows]; simp) (by rw [himgs]; simp)
    hoff himaged

/-- **Carried boundaries go on alike.** -/
theorem corresponds {marked : Bool} {p q : Nat} (h : L.Carried marked p q) :
    L.Corresponds marked p q := by
  cases h with
  | @boundary pre preI p rest restI hrows himgs hoff himaged =>
      cases himaged with
      | nil =>
          cases hoff
          have hq : imageSize preI = code'.size := by
            rw [L.size_eq, himgs, List.append_nil]
          rw [hq]
          exact Corresponds.ended
      | @marked o o' shape rows imgs himaged =>
          cases hoff with
          | cons hdecode hrest =>
              obtain ⟨i', hmoved, hdecode'⟩ := L.decodeAt_single himgs trivial
              obtain rfl : i' = .synthetic := hmoved.eq_self rfl
              -- the boundary behind the mark belongs to a marked call, not to one of the user's
              cases hrest with
              | cons hcall hrest =>
                  refine Corresponds.mark hdecode hdecode' ?_
                  refine Carried.marked (pre ++ [(p, .synthetic)]) (preI ++ [(p, [.synthetic])]) ?_ ?_
                    (Rows.cons hcall hrest) himaged
                  · rw [hrows]
                    simp
                  · rw [himgs]
                    simp
      | @expanded o shape rows imgs hslots himaged =>
          cases hoff with
          | cons hdecode hrest =>
              have hshape : shape.IsWritten := (decodeAt_ok hdecode).1
              exact Corresponds.expanded hdecode hslots (L.decodes_expansion himgs hshape)
                (L.carried_next hrows himgs hrest himaged)
      | @plain o i rows imgs hcall hmark himaged =>
          cases hoff with
          | cons hdecode hrest =>
              obtain ⟨i', hmoved, hdecode'⟩ := L.decodeAt_single himgs (decodeAt_ok hdecode).1
              have hrow : (p, i) ∈ L.rows := by
                rw [hrows]
                simp
              exact Corresponds.plain hrow hdecode hdecode' hcall hmark hmoved
                (L.carried_next hrows himgs hrest himaged)
  | @marked pre preI p shape rows imgs hrows himgs hoff himaged =>
      cases hoff with
      | cons hdecode hrest =>
          obtain ⟨i', hmoved, hdecode'⟩ := L.decodeAt_single himgs (decodeAt_ok hdecode).1
          obtain rfl : i' = .call shape := hmoved.eq_self rfl
          exact Corresponds.copied hdecode hdecode' (L.carried_next hrows himgs hrest himaged)

end Layout

end CallDecoration
