/-
  CallDecoration.Proofs.Machine.Nesting
  ──────────────────────────────────────
  **How what waits and the running frames fit together.**  While a call from
  outside runs, every activation that waits stands for a group of frames: the
  one it began with, at the height it remembers, and those that were entered
  on top by bytecode.  Host functions and operand slots wait between the
  groups.  `Nested` says so for a whole state, and the lemmas of §2 tell how
  each kind of step moves along it.
-/
import CallDecoration.Proofs.Machine.Runs

namespace CallDecoration

variable {σ : Type}

/-! ## §1. Nested activations. -/

/-- Whether bytecode is running or has called something else. -/
inductive Phase where
  | code
  | outside
  deriving DecidableEq, Repr

/-- **The shape of a call from outside** that began above the frames `floor`
with `base` values on the stack: what waits, and the frames. -/
inductive Nested (base : Nat) (floor : List Frame) :
    Phase → List (Pending σ) → List Frame → Prop where
  /-- The activation of the call itself. -/
  | outermost (entered : List Frame) (first : Frame) (hfirst : first.base = base)
      (hentered : ∀ f ∈ entered, base ≤ f.base) :
      Nested base floor .code [.activation floor.length base] (entered ++ first :: floor)
  /-- An activation that a host function began. -/
  | activation {pending : List (Pending σ)} {frames : List Frame} (entered : List Frame)
      (first : Frame) (houter : Nested base floor .outside pending frames) (hfirst : base ≤ first.base)
      (hentered : ∀ f ∈ entered, base ≤ f.base) :
      Nested base floor .code (.activation frames.length first.base :: pending)
        (entered ++ first :: frames)
  /-- A host function waits for the answer of a call. -/
  | host {pending : List (Pending σ)} {frames : List Frame}
      (next : Except RunError Value → Action σ Value)
      (houter : Nested base floor .outside pending frames) :
      Nested base floor .outside (.host next :: pending) frames
  /-- A call instruction waits for its result. -/
  | operand {pending : List (Pending σ)} {frames : List Frame}
      (houter : Nested base floor .code pending frames) :
      Nested base floor .outside (.operand :: pending) frames

/-! ## §2. Steps along the nesting. -/

namespace Nested

variable {base : Nat} {floor : List Frame} {pending : List (Pending σ)} {f : Frame}
  {frames : List Frame}

/-- While bytecode runs there is a frame, entered no lower than the call. -/
theorem exists_frame (h : Nested base floor .code pending frames) :
    ∃ f rest, frames = f :: rest ∧ base ≤ f.base := by
  cases h with
  | outermost entered first hfirst hentered =>
      cases entered with
      | nil => exact ⟨first, floor, rfl, Nat.le_of_eq hfirst.symm⟩
      | cons f rest => exact ⟨f, rest ++ first :: floor, rfl, hentered f (by simp)⟩
  | @activation pending frames entered first houter hfirst hentered =>
      cases entered with
      | nil => exact ⟨first, frames, rfl, hfirst⟩
      | cons f rest => exact ⟨f, rest ++ first :: frames, rfl, hentered f (by simp)⟩

theorem base_le (h : Nested base floor .code pending (f :: frames)) : base ≤ f.base := by
  obtain ⟨g, rest, heq, hle⟩ := h.exists_frame
  cases heq
  exact hle

/-- The running frame may change, as long as its base does not. -/
theorem replace (h : Nested base floor .code pending (f :: frames)) {g : Frame}
    (hg : g.base = f.base) : Nested base floor .code pending (g :: frames) := by
  -- the running frame is the one its group began with, or was entered on top of it
  have hle := h.base_le
  generalize hfs : f :: frames = all at h
  cases h with
  | outermost entered first hfirst hentered =>
      cases entered with
      | nil =>
          cases hfs
          exact outermost [] g (hg.trans hfirst) hentered
      | cons u entered =>
          cases hfs
          refine outermost (g :: entered) first hfirst ?_
          intro x hx
          rcases List.mem_cons.mp hx with rfl | hx
          · rw [hg]
            exact hle
          · exact hentered x (List.mem_cons_of_mem _ hx)
  | @activation pending frames entered first houter hfirst hentered =>
      cases entered with
      | nil =>
          cases hfs
          rw [← hg]
          exact activation [] g houter (by rw [hg]; exact hfirst) (by simp)
      | cons u entered =>
          cases hfs
          refine activation (g :: entered) first houter hfirst ?_
          intro x hx
          rcases List.mem_cons.mp hx with rfl | hx
          · rw [hg]
            exact hle
          · exact hentered x (List.mem_cons_of_mem _ hx)

/-- Bytecode enters a function. -/
theorem push (h : Nested base floor .code pending frames) (hf : base ≤ f.base) :
    Nested base floor .code pending (f :: frames) := by
  cases h with
  | outermost entered first hfirst hentered =>
      refine outermost (f :: entered) first hfirst ?_
      intro x hx
      rcases List.mem_cons.mp hx with rfl | hx
      · exact hf
      · exact hentered x hx
  | @activation pending frames entered first houter hfirst hentered =>
      refine activation (f :: entered) first houter hfirst ?_
      intro x hx
      rcases List.mem_cons.mp hx with rfl | hx
      · exact hf
      · exact hentered x hx

/-- A call from outside the bytecode begins an activation. -/
theorem activate (h : Nested base floor .outside pending frames) (hf : base ≤ f.base) :
    Nested base floor .code (.activation frames.length f.base :: pending) (f :: frames) :=
  activation [] f h hf (by simp)

/-- How the running frame can end: with the whole call, with an activation in
it, or into the frame below. -/
theorem pop (h : Nested base floor .code pending (f :: frames)) :
    (pending = [.activation floor.length base] ∧ frames = floor ∧ f.base = base)
      ∨ (∃ below, pending = .activation frames.length f.base :: below
        ∧ Nested base floor .outside below frames)
      ∨ (∃ limit b below, pending = .activation limit b :: below ∧ frames.length ≠ limit
        ∧ Nested base floor .code pending frames) := by
  generalize hfs : f :: frames = all at h
  cases h with
  | outermost entered first hfirst hentered =>
      cases entered with
      | nil =>
          cases hfs
          exact Or.inl ⟨rfl, rfl, hfirst⟩
      | cons u entered =>
          rw [List.cons_append] at hfs
          cases hfs
          refine Or.inr (Or.inr ⟨floor.length, base, [], rfl, ?_, ?_⟩)
          · simp only [List.length_append, List.length_cons]
            omega
          · exact outermost entered first hfirst fun x hx => hentered x (List.mem_cons_of_mem _ hx)
  | @activation pending frames entered first houter hfirst hentered =>
      cases entered with
      | nil =>
          cases hfs
          exact Or.inr (Or.inl ⟨pending, rfl, houter⟩)
      | cons u entered =>
          rw [List.cons_append] at hfs
          cases hfs
          refine Or.inr (Or.inr ⟨frames.length, first.base, pending, rfl, ?_, ?_⟩)
          · simp only [List.length_append, List.length_cons]
            omega
          · exact activation entered first houter hfirst fun x hx => hentered x (List.mem_cons_of_mem _ hx)

/-- What an error cuts back to: the start of the whole call, or of an
activation in it. -/
theorem unwind (h : Nested base floor .code pending frames) :
    (pending = [.activation floor.length base]
        ∧ frames.drop (frames.length - floor.length) = floor)
      ∨ ∃ limit b below, pending = .activation limit b :: below ∧ base ≤ b
        ∧ Nested base floor .outside below (frames.drop (frames.length - limit)) := by
  have hcut : ∀ (entered : List Frame) (first : Frame) (rest : List Frame),
      (entered ++ first :: rest).drop ((entered ++ first :: rest).length - rest.length) = rest := by
    intro entered first rest
    have hlen : (entered ++ first :: rest).length - rest.length = (entered ++ [first]).length := by
      simp only [List.length_append, List.length_cons, List.length_nil]
      omega
    rw [hlen, List.append_cons entered first rest, List.drop_left]
  cases h with
  | outermost entered first hfirst hentered => exact Or.inl ⟨rfl, hcut entered first floor⟩
  | @activation pending frames entered first houter hfirst hentered =>
      refine Or.inr ⟨frames.length, first.base, pending, rfl, hfirst, ?_⟩
      rw [hcut entered first frames]
      exact houter

theorem pending_ne_nil {phase : Phase} (h : Nested base floor phase pending frames) :
    pending ≠ [] := by
  cases h <;> simp

end Nested

/-! ## §3. States of a call. -/

/-- **The states of a call from outside that has not ended:** what is being
done fits what waits. -/
inductive Inside (base : Nat) (floor : List Frame) :
    Focus σ → List (Pending σ) → List Frame → Prop where
  | bytecode {pending : List (Pending σ)} {frames : List Frame}
      (h : Nested base floor .code pending frames) : Inside base floor .bytecode pending frames
  | action {pending : List (Pending σ)} {frames : List Frame} (a : Action σ Value)
      (h : Nested base floor .outside pending frames) :
      Inside base floor (.action a) pending frames
  | answer {pending : List (Pending σ)} {frames : List Frame} (r : Except RunError Value)
      (h : Nested base floor .outside pending frames) :
      Inside base floor (.answer r) pending frames
  /-- An error that is about to cut an activation back. -/
  | failed {pending : List (Pending σ)} {frames : List Frame} (e : RunError)
      (h : Nested base floor .code pending frames) :
      Inside base floor (.answer (.error e)) pending frames

end CallDecoration
