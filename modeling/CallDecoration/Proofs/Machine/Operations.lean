/-
  CallDecoration.Proofs.Machine.Operations
  ──────────────────────────────────────
  **What the operations of the machine do, on machines that are spelled out.**
  `Machine.of` builds a machine from the list of its values and the list of
  its frames, both top first; every machine is one (`Machine.eq_of`).  A
  lemma about an operation says what it makes of such a machine when it ends in
  one way, and later modules use these and do not open the operations.
-/
import CallDecoration.Machine.Step

namespace CallDecoration

/-! ## §1. Stacks as lists. -/

namespace Stack

variable {α : Type}

/-- The stack with these items, top first. -/
def ofList (items : List α) : Stack α :=
  ⟨items, items.length, rfl⟩

@[simp] theorem items_ofList (items : List α) : (ofList items).items = items := rfl

@[simp] theorem height_ofList (items : List α) : (ofList items).height = items.length := rfl

theorem eq_ofList (s : Stack α) : s = ofList s.items :=
  ext_items rfl

theorem ofList_inj {xs ys : List α} : ofList xs = ofList ys ↔ xs = ys := by
  constructor
  · intro h
    exact congrArg Stack.items h
  · intro h
    rw [h]

theorem height_eq_length (s : Stack α) : s.height = s.items.length :=
  s.height_eq.symm

theorem eq_empty_of_height {s : Stack α} (h : s.height = 0) : s = empty := by
  rw [height_eq_length] at h
  exact ext_items (List.length_eq_zero_iff.mp h)

theorem popMany?_append {n : Nat} (xs rest : List α) (h : xs.length = n) :
    (ofList (xs ++ rest)).popMany? n = some (xs.reverse, ofList rest) := by
  subst h
  have hle : xs.length ≤ (ofList (xs ++ rest)).height := by simp
  unfold popMany?
  rw [if_pos hle]
  congr 2
  · simp
  · exact ext_items (by simp)

theorem popMany?_short {n : Nat} {xs : List α} (h : xs.length < n) :
    (ofList xs).popMany? n = none := by
  have hlt : ¬ n ≤ (ofList xs).height := by
    rw [height_ofList]
    omega
  unfold popMany?
  rw [if_neg hlt]

theorem truncate_ofList (n : Nat) (xs : List α) :
    (ofList xs).truncate n = ofList (xs.drop (xs.length - n)) :=
  ext_items rfl

end Stack

/-! ## §2. Machines from lists. -/

namespace Machine

variable {σ α β : Type}

/-- The machine with these values and frames, top first. -/
def of (values : List Value) (frames : List Frame) (settings : Settings) (world : World σ) :
    Machine σ :=
  ⟨.ofList values, .ofList frames, settings, world⟩

theorem eq_of (m : Machine σ) : m = of m.stack.items m.frames.items m.settings m.world := by
  obtain ⟨stack, frames, settings, world⟩ := m
  unfold of
  rw [← stack.eq_ofList, ← frames.eq_ofList]

theorem exists_of (m : Machine σ) : ∃ vs fs st w, m = of vs fs st w :=
  ⟨_, _, _, _, m.eq_of⟩

section Projections

variable (vs : List Value) (fs : List Frame) (st : Settings) (w : World σ)

@[simp] theorem stack_of : (of vs fs st w).stack = .ofList vs := rfl
@[simp] theorem frames_of : (of vs fs st w).frames = .ofList fs := rfl

end Projections

/-! ## §3. Operations in sequence. -/

theorem bind_ok {x : Exec σ α} {f : α → Exec σ β} {m n : Machine σ} {a : α}
    (h : x m = (.ok a, n)) : (x >>= f) m = f a n := by
  show (StateT.bind x (ExceptT.bindCont f)) m = _
  unfold StateT.bind
  rw [h]
  rfl

theorem bind_error {x : Exec σ α} {f : α → Exec σ β} {m n : Machine σ} {e : RunError}
    (h : x m = (.error e, n)) : (x >>= f) m = (.error e, n) := by
  show (StateT.bind x (ExceptT.bindCont f)) m = _
  unfold StateT.bind
  rw [h]
  rfl

theorem andAdvance_ok {x : Exec σ Unit} {m n : Machine σ} (h : x m = (.ok (), n)) :
    andAdvance x m = (.ok .advance, n) :=
  bind_ok h

theorem andAdvance_error {x : Exec σ Unit} {m n : Machine σ} {e : RunError}
    (h : x m = (.error e, n)) : andAdvance x m = (.error e, n) :=
  bind_error h

theorem andAdvance_congr {x y : Exec σ Unit} {m n : Machine σ} (h : x m = y n) :
    andAdvance x m = andAdvance y n := by
  rcases hy : y n with ⟨e | _, k⟩
  · exact (andAdvance_error (h.trans hy)).trans (andAdvance_error hy).symm
  · exact (andAdvance_ok (h.trans hy)).trans (andAdvance_ok hy).symm

theorem get_of (m : Machine σ) : (get : Exec σ (Machine σ)) m = (.ok m, m) := rfl

/-! ## §4. The value stack. -/

section Values

variable {vs : List Value} {fs : List Frame} {st : Settings} {w : World σ} {v : Value}

theorem push_of (h : vs.length < st.maxValueStack) :
    push v (of vs fs st w) = (.ok (), of (v :: vs) fs st w) := by
  show (if vs.length < st.maxValueStack then _ else _ : Exec σ Unit) (of vs fs st w) = _
  rw [if_pos h]
  rfl

theorem push_full (h : ¬ vs.length < st.maxValueStack) :
    push v (of vs fs st w) = (.error .valueStackOverflow, of vs fs st w) := by
  show (if vs.length < st.maxValueStack then _ else _ : Exec σ Unit) (of vs fs st w) = _
  rw [if_neg h]
  rfl

theorem pop_of : pop (of (v :: vs) fs st w) = (.ok v, of vs fs st w) := rfl

theorem top_of : top (of (v :: vs) fs st w) = (.ok v, of (v :: vs) fs st w) := rfl

theorem popMany_of {n : Nat} {xs : List Value} (h : xs.length = n) :
    popMany n (of (xs ++ vs) fs st w) = (.ok xs.reverse, of vs fs st w) := by
  refine (bind_ok (get_of _)).trans ?_
  rw [stack_of, Stack.popMany?_append xs vs h]
  rfl

theorem popMany_short {n : Nat} (h : vs.length < n) :
    popMany n (of vs fs st w) = (.error .stackUnderflow, of vs fs st w) := by
  refine (bind_ok (get_of _)).trans ?_
  rw [stack_of, Stack.popMany?_short h]
  rfl

theorem rearrange_of {f : Stack Value → Option (Stack Value)} {vs' : List Value}
    (h : f (.ofList vs) = some (.ofList vs')) :
    rearrange f (of vs fs st w) = (.ok (), of vs' fs st w) := by
  refine (bind_ok (get_of _)).trans ?_
  rw [stack_of, h]
  rfl

theorem rearrange_short {f : Stack Value → Option (Stack Value)} (h : f (.ofList vs) = none) :
    rearrange f (of vs fs st w) = (.error .stackUnderflow, of vs fs st w) := by
  refine (bind_ok (get_of _)).trans ?_
  rw [stack_of, h]
  rfl

/-- Values are pushed one by one, so the last one ends on top. -/
theorem pushAll_of {items : List Value} (h : items = [] ∨ vs.length + items.length ≤ st.maxValueStack) :
    pushAll items (of vs fs st w) = (.ok (), of (items.reverse ++ vs) fs st w) := by
  induction items generalizing vs with
  | nil => rfl
  | cons item rest ih =>
      have hroom : vs.length + (rest.length + 1) ≤ st.maxValueStack := by simpa using h
      have hpush : push item (of vs fs st w) = (.ok (), of (item :: vs) fs st w) :=
        push_of (by omega)
      show (push item >>= fun _ => pushAll rest) _ = _
      rw [bind_ok hpush, ih (Or.inr (by simp only [List.length_cons]; omega))]
      simp

/-- When there is no room for all of them, as many as there is room for have
been pushed already. -/
theorem pushAll_full {items : List Value} (hne : items ≠ [])
    (h : st.maxValueStack < vs.length + items.length) :
    pushAll items (of vs fs st w)
      = (.error .valueStackOverflow,
          of ((items.take (st.maxValueStack - vs.length)).reverse ++ vs) fs st w) := by
  induction items generalizing vs with
  | nil => exact absurd rfl hne
  | cons item rest ih =>
      simp only [List.length_cons] at h
      show (push item >>= fun _ => pushAll rest) _ = _
      by_cases hpush : vs.length < st.maxValueStack
      · have hrest : rest ≠ [] := by
          intro hnil
          subst hnil
          simp at h
          omega
        have hroom : st.maxValueStack - vs.length
            = st.maxValueStack - (item :: vs).length + 1 := by
          simp only [List.length_cons]
          omega
        rw [bind_ok (push_of hpush), ih hrest (by simp only [List.length_cons]; omega), hroom]
        simp
      · have hroom : st.maxValueStack - vs.length = 0 := by omega
        rw [bind_error (push_full hpush), hroom]
        simp

end Values

/-! ## §5. Frames. -/

section Frames

variable {vs : List Value} {f : Frame} {fs : List Frame} {st : Settings} {w : World σ}

theorem frame_of : frame (of vs (f :: fs) st w) = (.ok f, of vs (f :: fs) st w) := rfl

/-- The local slots with which a function is entered when `depth` frames are
running, or why it is not. -/
def admission (g : Function Value) (args : CallArgs) (depth : Nat) (st : Settings) :
    Except RunError (Array Value) :=
  if depth < st.maxCallDepth then g.bindArguments args
  else .error (.callDepthExceeded st.maxCallDepth)

theorem depth_lt_of_admission {g : Function Value} {args : CallArgs} {depth : Nat}
    {locals : Array Value} (h : admission g args depth st = .ok locals) :
    depth < st.maxCallDepth := by
  unfold admission at h
  split at h
  · assumption
  · cases h

/-- A function is refused for the depth exactly at the limit. -/
theorem admission_eq_exceeded (g : Function Value) (args : CallArgs) {depth : Nat} :
    admission g args depth st = .error (.callDepthExceeded st.maxCallDepth)
      ↔ st.maxCallDepth ≤ depth := by
  unfold admission
  by_cases hdepth : depth < st.maxCallDepth
  · rw [if_pos hdepth]
    constructor
    · intro h
      unfold Function.bindArguments at h
      split at h <;> cases h
    · intro hle
      omega
  · rw [if_neg hdepth]
    exact ⟨fun _ => Nat.le_of_not_lt hdepth, fun _ => rfl⟩

theorem enterFrame_eq (g : Function Value) (args : CallArgs) (fs : List Frame) :
    enterFrame g args (of vs fs st w)
      = (if fs.length < st.maxCallDepth then
          ofExcept (g.bindArguments args) >>= fun locals => do
            set { (of vs fs st w) with frames := .push ⟨g, 0, vs.length, locals⟩ (.ofList fs) }
        else throw (.callDepthExceeded st.maxCallDepth) : Exec σ Unit) (of vs fs st w) := rfl

theorem enterFrame_of {g : Function Value} {args : CallArgs} {locals : Array Value}
    {fs : List Frame} (h : admission g args fs.length st = .ok locals) :
    enterFrame g args (of vs fs st w)
      = (.ok (), of vs (⟨g, 0, vs.length, locals⟩ :: fs) st w) := by
  rw [enterFrame_eq]
  unfold admission at h
  by_cases hdepth : fs.length < st.maxCallDepth
  · rw [if_pos hdepth] at h ⊢
    rw [h]
    rfl
  · rw [if_neg hdepth] at h
    cases h

theorem enterFrame_refused {g : Function Value} {args : CallArgs} {e : RunError}
    {fs : List Frame} (h : admission g args fs.length st = .error e) :
    enterFrame g args (of vs fs st w) = (.error e, of vs fs st w) := by
  rw [enterFrame_eq]
  unfold admission at h
  by_cases hdepth : fs.length < st.maxCallDepth
  · rw [if_pos hdepth] at h ⊢
    rw [h]
    rfl
  · rw [if_neg hdepth] at h ⊢
    cases h
    rfl

theorem leaveFrame_of {v : Value} :
    leaveFrame (of (v :: vs) (f :: fs) st w)
      = (.ok v, of (vs.drop (vs.length - f.base)) fs st w) := by
  show (_, { (of vs fs st w) with stack := (Stack.ofList vs).truncate f.base }) = _
  rw [Stack.truncate_ofList]
  rfl

end Frames

theorem unwind_of (depth height : Nat) (vs : List Value) (fs : List Frame) (st : Settings)
    (w : World σ) :
    unwind depth height (of vs fs st w)
      = of (vs.drop (vs.length - height)) (fs.drop (fs.length - depth)) st w := by
  unfold unwind
  rw [stack_of, frames_of, Stack.truncate_ofList, Stack.truncate_ofList]
  rfl

end Machine

end CallDecoration
