/-
  CallDecoration.Proofs.Instrumentation.Layers
  ──────────────────────────────────────
  **Bodies that were instrumented several times.**  Each pass leaves the marked
  calls of the earlier ones alone and expands the user's call that stands
  behind them.  So in a body that has gone through passes with the slots
  `ls`, a call of the original body has become the inserted instructions of
  all passes, first pass first, and the call itself (`Layers.goes`).
-/
import CallDecoration.Proofs.Instrumentation.Layout

namespace CallDecoration

/-! ## §1. Instructions that a pass copies. -/

theorem Decodes.append {code : Array UInt8} {p q r : Nat} {xs ys : List Instruction}
    (hxs : Decodes code p xs q) (hys : Decodes code q ys r) : Decodes code p (xs ++ ys) r := by
  induction hxs with
  | nil => exact hys
  | cons hdecode _ ih => exact Decodes.cons hdecode (ih hys)

/-- A body without marks. -/
def Unmarked (code : Array UInt8) : Prop :=
  ∀ rows, decode code = .ok rows → ∀ offset, (offset, Instruction.synthetic) ∉ rows

/-- **Instructions that a pass leaves alone:** none of them jumps, and each call
is marked. -/
inductive LeftAlone : List Instruction → Prop where
  | nil : LeftAlone []
  | plain (i : Instruction) {rest : List Instruction} (hcall : i.shape? = none)
      (hmark : i ≠ .synthetic) (htarget : i.target? = none) (h : LeftAlone rest) :
      LeftAlone (i :: rest)
  | marked (shape : CallShape) {rest : List Instruction} (h : LeftAlone rest) :
      LeftAlone (.synthetic :: .call shape :: rest)

namespace Layout

variable {slots : CaptureSlots} {code code' : Array UInt8} (L : Layout slots code code')

/-- The image of a row is a call alone only behind a mark. -/
theorem image_ne_call {rows : List (Nat × Instruction)} {imgs : List Image}
    (h : Imaged slots rows imgs) (hmarks : ∀ offset, (offset, Instruction.synthetic) ∉ rows)
    (offset : Nat) (shape : CallShape) : (offset, [.call shape]) ∉ imgs := by
  induction h with
  | nil => simp
  | marked h ih => exact absurd (List.mem_cons_self) (hmarks _)
  | @expanded o shape' rows imgs hslots h ih =>
      have hrest := ih fun o ho => hmarks o (List.mem_cons_of_mem _ ho)
      rw [List.mem_cons]
      rintro (heq | hmem)
      · cases heq
      · exact hrest hmem
  | @plain o i rows imgs hcall hmark h ih =>
      have hrest := ih fun o ho => hmarks o (List.mem_cons_of_mem _ ho)
      rw [List.mem_cons]
      rintro (heq | hmem)
      · cases heq
        cases hcall
      · exact hrest hmem

/-- In a body without marks no marked call stands at a boundary. -/
theorem carried_unmarked (hmarks : Unmarked code) {marked : Bool} {p q : Nat}
    (h : L.Carried marked p q) : marked = false := by
  cases h with
  | boundary => rfl
  | @marked pre preI _ shape rows imgs hrows himgs hoff himaged =>
      refine absurd ?_ (image_ne_call L.imaged (hmarks L.rows L.decoded) p shape)
      rw [himgs]
      simp

/-- An instruction that is neither a jump nor a call nor a mark. -/
theorem carried_plain {p q next : Nat} {i : Instruction} (h : L.Carried false p q)
    (hdecode : decodeAt code p = .ok (i, next)) (hcall : i.shape? = none)
    (hmark : i ≠ .synthetic) (htarget : i.target? = none) :
    ∃ next', decodeAt code' q = .ok (i, next') ∧ L.Carried false next next' := by
  cases L.corresponds h with
  | ended => exact absurd hdecode decodeAt_size
  | @plain _ _ n n' i' i'' hrow hcode hcode' hcall' hmark' hmoved hnext =>
      rw [hdecode] at hcode
      cases hcode
      rcases hmoved with ⟨_, rfl⟩ | ⟨t, t', m, ht, _⟩
      · exact ⟨n', hcode', hnext⟩
      · rw [htarget] at ht
        cases ht
  | mark hcode =>
      rw [hdecode] at hcode
      cases hcode
      exact absurd rfl hmark
  | expanded hcode =>
      rw [hdecode] at hcode
      cases hcode
      cases hcall

/-- A mark and the call behind it. -/
theorem carried_marked {p q next last : Nat} {shape : CallShape} (h : L.Carried false p q)
    (hmark : decodeAt code p = .ok (.synthetic, next))
    (hcall : decodeAt code next = .ok (.call shape, last)) :
    ∃ next' last', decodeAt code' q = .ok (.synthetic, next')
      ∧ decodeAt code' next' = .ok (.call shape, last') ∧ L.Carried false last last' := by
  cases L.corresponds h with
  | ended => exact absurd hmark decodeAt_size
  | plain hrow hcode hcode' hcall' hmark' =>
      rw [hmark] at hcode
      cases hcode
      exact absurd rfl hmark'
  | @mark _ _ n n' hcode hcode' hnext =>
      rw [hmark] at hcode
      cases hcode
      cases L.corresponds hnext with
      | @copied _ _ l l' shape' hcall' hcopied hlast =>
          rw [hcall] at hcall'
          cases hcall'
          exact ⟨n', l', hcode', hcopied, hlast⟩
  | expanded hcode =>
      rw [hmark] at hcode
      cases hcode

/-- A call without a mark. -/
theorem carried_call {p q next : Nat} {shape : CallShape} (h : L.Carried false p q)
    (hcall : decodeAt code p = .ok (.call shape, next)) :
    shape.slots ≤ maxSlots ∧ ∃ next', Decodes code' q (slots.expansion shape) next'
      ∧ L.Carried false next next' := by
  cases L.corresponds h with
  | ended => exact absurd hcall decodeAt_size
  | plain hrow hcode hcode' hcall' =>
      rw [hcall] at hcode
      cases hcode
      cases hcall'
  | mark hcode =>
      rw [hcall] at hcode
      cases hcode
  | @expanded _ _ n n' shape' hcode hslots hcode' hnext =>
      rw [hcall] at hcode
      cases hcode
      exact ⟨hslots, n', hcode', hnext⟩

/-- **Instructions that a pass leaves alone are copied.** -/
theorem decodes_leftAlone {xs : List Instruction} (hxs : LeftAlone xs) {p q last : Nat}
    (h : L.Carried false p q) (hcode : Decodes code p xs last) :
    ∃ last', Decodes code' q xs last' ∧ L.Carried false last last' := by
  induction hxs generalizing p q with
  | nil =>
      cases hcode
      exact ⟨q, .nil q, h⟩
  | plain i hcall hmark htarget _ ih =>
      obtain _ | ⟨hdecode, hlater⟩ := hcode
      obtain ⟨next', hdecode', hnext⟩ := L.carried_plain h hdecode hcall hmark htarget
      obtain ⟨last', hlater', hlast⟩ := ih hnext hlater
      exact ⟨last', .cons hdecode' hlater', hlast⟩
  | marked shape _ ih =>
      obtain _ | ⟨hmark, hcode⟩ := hcode
      obtain _ | ⟨hcall, hlater⟩ := hcode
      obtain ⟨next', behind', hmark', hcall', hbehind⟩ := L.carried_marked h hmark hcall
      obtain ⟨last', hlater', hlast⟩ := ih hbehind hlater
      exact ⟨last', .cons hmark' (.cons hcall' hlater'), hlast⟩

end Layout

/-! ## §2. Several passes. -/

/-- The instructions that passes with the slots `ls` insert before a call. -/
def insertedBy (ls : List CaptureSlots) (count : UInt8) : List Instruction :=
  ls.flatMap fun slots => slots.inserted count

theorem insertedBy_snoc (ls : List CaptureSlots) (slots : CaptureSlots) (count : UInt8) :
    insertedBy (ls ++ [slots]) count = insertedBy ls count ++ slots.inserted count := by
  unfold insertedBy
  rw [List.flatMap_append, List.flatMap_singleton]

/-- **What passes one after the other have made of a body without marks,** with
the slots of each and the boundaries of both bodies that belong together. -/
inductive Layers (code : Array UInt8) :
    List CaptureSlots → Array UInt8 → (Nat → Nat → Prop) → Prop where
  | first {slots : CaptureSlots} {code' : Array UInt8} (L : Layout slots code code')
      (hmarks : Unmarked code) : Layers code [slots] code' fun p q => L.Carried false p q
  | more {ls : List CaptureSlots} {slots : CaptureSlots} {code' code'' : Array UInt8}
      {R : Nat → Nat → Prop} (h : Layers code ls code' R) (L : Layout slots code' code'') :
      Layers code (ls ++ [slots]) code'' fun p q => ∃ m marked, R p m ∧ L.Carried marked m q

/-- What earlier passes have inserted is left alone by the next. -/
theorem leftAlone_insertedBy (ls : List CaptureSlots) (count : UInt8) :
    LeftAlone (insertedBy ls count) := by
  induction ls with
  | nil => exact .nil
  | cons slots ls ih =>
      -- the calls among the twelve instructions are those of the entry point and the decorator
      iterate 5 refine .plain _ rfl (by simp) rfl ?_
      refine .marked entryCall (.plain _ rfl (by simp) rfl (.marked decorateCall ?_))
      iterate 2 refine .plain _ rfl (by simp) rfl ?_
      exact ih

/-- An instruction with its jump carried along. -/
def MovedBy (R : Nat → Nat → Prop) (i i' : Instruction) : Prop :=
  (i.target? = none ∧ i' = i) ∨ ∃ t t', i.target? = some t ∧ i' = i.retarget t' ∧ R t t'

/-- **How boundaries that belong together go on.** -/
inductive Goes (code code' : Array UInt8) (ls : List CaptureSlots) (R : Nat → Nat → Prop) :
    Nat → Nat → Prop where
  /-- Both bodies end. -/
  | ended : Goes code code' ls R code.size code'.size
  /-- The same instruction, but for the target of a jump. -/
  | plain {p q next next' : Nat} {i i' : Instruction} {rows : List (Nat × Instruction)}
      (hrows : decode code = .ok rows) (hrow : (p, i) ∈ rows)
      (hcode' : decodeAt code' q = .ok (i', next')) (hcall : i.shape? = none)
      (hmark : i ≠ .synthetic) (hmoved : MovedBy R i i') (hnext : R next next') :
      Goes code code' ls R p q
  /-- A call, behind what all passes have inserted. -/
  | call {p q next next' : Nat} {shape : CallShape} (hslots : shape.slots ≤ maxSlots)
      (hcode' : Decodes code' q
        (insertedBy ls (UInt8.ofNat shape.slots) ++ [.call shape]) next')
      (hnext : R next next') : Goes code code' ls R p q

namespace MovedBy

variable {R : Nat → Nat → Prop} {i i' : Instruction}

theorem shape? (h : MovedBy R i i') (hcall : i.shape? = none) : i'.shape? = none := by
  rcases h with ⟨_, rfl⟩ | ⟨t, t', ht, rfl, _⟩
  · exact hcall
  · cases i with
    | jump | jumpIfFalse => rfl
    | _ => cases ht

theorem ne_synthetic (h : MovedBy R i i') (hmark : i ≠ .synthetic) : i' ≠ .synthetic := by
  rcases h with ⟨_, rfl⟩ | ⟨t, t', ht, rfl, _⟩
  · exact hmark
  · cases i with
    | jump | jumpIfFalse =>
        intro h
        cases h
    | _ => cases ht

/-- Jumps are carried along by one pass after the other. -/
theorem more {slots : CaptureSlots} {code' code'' : Array UInt8} {i'' : Instruction}
    (L : Layout slots code' code'') (h : MovedBy R i i') (hmoved : L.Moved i' i'') :
    MovedBy (fun p q => ∃ m marked, R p m ∧ L.Carried marked m q) i i'' := by
  rcases h with ⟨hnone, rfl⟩ | ⟨t, t', ht, rfl, hR⟩
  · rw [hmoved.eq_self hnone]
    exact Or.inl ⟨hnone, rfl⟩
  · cases i with
    | jump target | jumpIfFalse target =>
        rcases hmoved with ⟨hnone, _⟩ | ⟨u, u', m, hu, rfl, hcarried⟩
        · cases hnone
        · cases hu
          exact Or.inr ⟨t, u', ht, rfl, t', m, hR, hcarried⟩
    | _ => cases ht

end MovedBy

namespace Layers

variable {code code' : Array UInt8} {ls : List CaptureSlots} {R : Nat → Nat → Prop}

theorem ne_nil (h : Layers code ls code' R) : ls ≠ [] := by
  cases h <;> simp

/-- The starts belong together. -/
theorem zero (h : Layers code ls code' R) : R 0 0 := by
  induction h with
  | first L _ => exact L.carried_zero
  | more h L ih => exact ⟨0, false, ih, L.carried_zero⟩

end Layers

/-! ### One pass more. -/

namespace Goes

variable {code code' code'' : Array UInt8} {ls : List CaptureSlots} {slots : CaptureSlots}
  {R : Nat → Nat → Prop} {p m q : Nat}

/-- No instruction of the original has come to stand behind a mark: where the
boundaries go on with a call, what was inserted before it begins by packing the
operands. -/
theorem not_marked (h : Goes code code' ls R p m) (hls : ls ≠ [])
    (L : Layout slots code' code'') : ¬ L.Carried true m q := by
  intro hcarried
  cases L.corresponds hcarried with
  | copied hcall _ _ =>
      cases h with
      | ended => exact decodeAt_size hcall
      | plain _ _ hcode' hshape _ hmoved _ =>
          rw [hcall] at hcode'
          cases hcode'
          cases hmoved.shape? hshape
      | call _ hcode' _ =>
          cases ls with
          | nil => exact hls rfl
          | cons slots ls =>
              obtain _ | ⟨hbuild, _⟩ := hcode'
              rw [hcall] at hbuild
              cases hbuild

/-- What stands at a boundary goes through another pass. -/
theorem next (h : Goes code code' ls R p m) (L : Layout slots code' code'')
    (hcarried : L.Carried false m q) :
    Goes code code'' (ls ++ [slots]) (fun p q => ∃ m marked, R p m ∧ L.Carried marked m q) p q := by
  cases h with
  | ended =>
      cases L.corresponds hcarried with
      | ended => exact .ended
      | plain _ hcode => exact absurd hcode decodeAt_size
      | mark hcode => exact absurd hcode decodeAt_size
      | expanded hcode => exact absurd hcode decodeAt_size
  | @plain _ _ next n i i' rows hrows hrow hcode' hshape hmark hmoved hnext =>
      cases L.corresponds hcarried with
      | ended => exact absurd hcode' decodeAt_size
      | plain _ hcode hcode'' _ _ hmoved' hnext' =>
          rw [hcode'] at hcode
          cases hcode
          exact .plain hrows hrow hcode'' hshape hmark (hmoved.more L hmoved')
            ⟨_, false, hnext, hnext'⟩
      | mark hcode =>
          rw [hcode'] at hcode
          cases hcode
          exact absurd rfl (hmoved.ne_synthetic hmark)
      | expanded hcode =>
          rw [hcode'] at hcode
          cases hcode
          cases hmoved.shape? hshape
  | @call _ _ next n shape hslots hcode' hnext =>
      -- the earlier passes' instructions are copied, and the call behind them is expanded
      obtain ⟨l, hinserted, hcall⟩ := Decodes.split _ _ hcode'
      obtain _ | ⟨hcall, hend⟩ := hcall
      cases hend
      obtain ⟨l', hinserted', hl⟩ :=
        L.decodes_leftAlone (leftAlone_insertedBy ls _) hcarried hinserted
      obtain ⟨_, n', hexpanded, hn⟩ := L.carried_call hl hcall
      refine .call hslots ?_ ⟨_, false, hnext, hn⟩
      rw [insertedBy_snoc, List.append_assoc]
      exact hinserted'.append hexpanded

end Goes

/-- **Boundaries that belong together go on alike.** -/
theorem Layers.goes {code code' : Array UInt8} {ls : List CaptureSlots} {R : Nat → Nat → Prop}
    (h : Layers code ls code' R) {p q : Nat} (hR : R p q) : Goes code code' ls R p q := by
  induction h generalizing q with
  | @first slots code' L hmarks =>
      cases L.corresponds hR with
      | ended => exact .ended
      | plain hrow _ hcode' hcall hmark hmoved hnext =>
          refine .plain L.decoded hrow hcode' hcall hmark ?_ hnext
          rcases hmoved with hsame | ⟨t, t', m, ht, hi', hcarried⟩
          · exact Or.inl hsame
          · rw [L.carried_unmarked hmarks hcarried] at hcarried
            exact Or.inr ⟨t, t', ht, hi', hcarried⟩
      | mark hcode hcode' hnext => exact absurd (L.carried_unmarked hmarks hnext) (by simp)
      | expanded hcode hslots hcode' hnext => exact .call hslots hcode' hnext
  | @more ls slots code' code'' R h L ih =>
      obtain ⟨m, marked, hm, hcarried⟩ := hR
      cases marked with
      | true => exact absurd hcarried ((ih hm).not_marked h.ne_nil L)
      | false => exact (ih hm).next L hcarried

end CallDecoration
