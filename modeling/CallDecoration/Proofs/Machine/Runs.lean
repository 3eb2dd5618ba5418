/-
  CallDecoration.Proofs.Machine.Runs
  ──────────────────────────────────────
  **Runs as iterated steps.**  A run that has ended stays where it is, so
  running for a number of steps is the same as taking that many steps and
  looking whether there is an answer (`RunState.run_succ`).  The other lemmas
  tell what one step is, from what the instruction, the request or the answer
  is; later modules use these and do not open `RunState.step`.
-/
import CallDecoration.Proofs.Bytecode.Encoding
import CallDecoration.Proofs.Machine.Effects
import Mathlib.Logic.Function.Iterate

namespace CallDecoration

variable {σ : Type}

/-! ## §1. The running frame. -/

namespace Machine

variable {vs : List Value} {f : Frame} {fs : List Frame} {st : Settings} {w : World σ}

/-- The frame moves past the instruction that it executes. -/
theorem stepFrame_of {i : Instruction} {next : Nat} (h : fetch f = .ok (i, next)) :
    stepFrame (of vs (f :: fs) st w) = execute i (of vs ({ f with ip := next } :: fs) st w) := by
  refine (bind_ok frame_of).trans ?_
  show ((ofExcept (fetch f) >>= fun fetched => do
    jumpTo fetched.2
    execute fetched.1) : Exec σ Signal) _ = _
  rw [h]
  rfl

/-- An instruction without its operands fails. -/
theorem stepFrame_short {i : Instruction} {next : Nat} (h : fetch f = .ok (i, next))
    (hlow : vs.length < i.operands) :
    stepFrame (of vs (f :: fs) st w) = (.error .stackUnderflow,
      of (if i.isOperator then [] else vs) ({ f with ip := next } :: fs) st w) :=
  (stepFrame_of h).trans (execute_short hlow)

/-- Inside the code, the next instruction is what is decoded there. -/
theorem fetch_of {i : Instruction} {next : Nat}
    (h : decodeAt f.function.body.code f.ip = .ok (i, next)) : fetch f = .ok (i, next) := by
  unfold fetch
  rw [if_pos (lt_size_of_decodeAt h), h]

theorem fetch_end (h : f.ip = f.function.body.code.size) : fetch f = .error .endOfCode := by
  unfold fetch
  rw [if_neg (by omega)]

theorem decodeAt_of_fetch {i : Instruction} {next : Nat} (h : fetch f = .ok (i, next)) :
    decodeAt f.function.body.code f.ip = .ok (i, next) := by
  unfold fetch at h
  split at h
  · split at h
    · cases h
      assumption
    · cases h
  · cases h

/-- Why there is no next instruction: the code has ended, or it does not
decode here. -/
theorem fetch_error {e : RunError} (h : fetch f = .error e) :
    (e = .endOfCode ∧ f.function.body.code.size ≤ f.ip)
      ∨ ∃ cause, e = .decode cause ∧ f.ip < f.function.body.code.size
        ∧ decodeAt f.function.body.code f.ip = .error cause := by
  unfold fetch at h
  split at h
  case isTrue hlt =>
      cases hdecode : decodeAt f.function.body.code f.ip with
      | ok fetched =>
          rw [hdecode] at h
          cases h
      | error cause =>
          rw [hdecode] at h
          cases h
          exact Or.inr ⟨cause, rfl, hlt, rfl⟩
  case isFalse hend =>
      cases h
      exact Or.inl ⟨rfl, Nat.le_of_not_lt hend⟩

theorem stepFrame_unfetched {e : RunError} (h : fetch f = .error e) :
    stepFrame (of vs (f :: fs) st w) = (.error e, of vs (f :: fs) st w) := by
  refine (bind_ok frame_of).trans ?_
  show ((ofExcept (fetch f) >>= fun fetched => do
    jumpTo fetched.2
    execute fetched.1) : Exec σ Signal) _ = _
  rw [h]
  rfl

/-- **Bytecode changes the world in its bindings only.** -/
theorem stepFrame_world (m : Machine σ) : m.world.SameButBindings (stepFrame m).2.world := by
  obtain ⟨vs, fs, st, w, rfl⟩ := exists_of m
  cases fs with
  | nil => exact rfl
  | cons f fs =>
      cases hfetch : fetch f with
      | error e =>
          rw [stepFrame_unfetched hfetch]
          rfl
      | ok fetched =>
          obtain ⟨i, next⟩ := fetched
          by_cases hlow : vs.length < i.operands
          · rw [stepFrame_short hfetch hlow]
            rfl
          · obtain ⟨ops, rest, rfl, hops⟩ := exists_taken hlow
            obtain ⟨eff, hresp, heff⟩ :=
              execute_effect { f with ip := next } fs st w rest.length i ops hops
            rw [stepFrame_of hfetch, heff rest rfl]
            cases eff with
            | goes out f' w' => exact hresp.2
            | _ => rfl

end Machine

namespace RunState

variable {host : Host σ}

/-! ## §2. Runs that have ended. -/

theorem result?_eq_some {s : RunState σ} {r : Except RunError Value} :
    s.result? = some r ↔ s.focus = .answer r ∧ s.pending = [] := by
  obtain ⟨focus, pending, machine⟩ := s
  constructor
  · intro h
    cases focus with
    | answer r' =>
        cases pending with
        | nil =>
            cases h
            exact ⟨rfl, rfl⟩
        | cons p rest => cases h
    | _ => cases h
  · rintro ⟨hfocus, hpending⟩
    simp only at hfocus hpending
    subst hfocus
    subst hpending
    rfl

/-- A run that has ended stays where it is. -/
theorem step_ended {r : Except RunError Value} {m : Machine σ} :
    step host ⟨.answer r, [], m⟩ = ⟨.answer r, [], m⟩ := by
  cases r <;> rfl

theorem iterate_ended {r : Except RunError Value} {m : Machine σ} (n : Nat) :
    (step host)^[n] ⟨.answer r, [], m⟩ = ⟨.answer r, [], m⟩ :=
  Function.iterate_fixed step_ended n

/-- **Running for `n` steps more than none is taking `n` steps** and looking
for an answer. -/
theorem run_succ (n : Nat) (s : RunState σ) :
    run host (n + 1) s
      = ((step host)^[n] s).result?.map fun r => (r, ((step host)^[n] s).machine) := by
  induction n generalizing s with
  | zero =>
      unfold run
      cases hs : s.result? with
      | none => simp [run, hs]
      | some r => simp [hs]
  | succ n ih =>
      unfold run
      cases hs : s.result? with
      | none =>
          simp only [Function.iterate_succ_apply]
          exact ih (s.step host)
      | some r =>
          obtain ⟨focus, pending, m⟩ := s
          obtain ⟨hfocus, hpending⟩ := result?_eq_some.mp hs
          simp only at hfocus hpending
          subst hfocus
          subst hpending
          rw [iterate_ended]
          rfl

/-! ## §3. Reaching a state. -/

/-- A state is reached from another in some number of steps. -/
def Reaches (host : Host σ) (s t : RunState σ) : Prop :=
  ∃ n : Nat, (step host)^[n] s = t

namespace Reaches

variable {s t u : RunState σ}

theorem refl (s : RunState σ) : Reaches host s s :=
  ⟨0, rfl⟩

theorem one (h : step host s = t) : Reaches host s t :=
  ⟨1, h⟩

theorem trans (h₁ : Reaches host s t) (h₂ : Reaches host t u) : Reaches host s u := by
  obtain ⟨m, hm⟩ := h₁
  obtain ⟨n, hn⟩ := h₂
  refine ⟨n + m, ?_⟩
  rw [Function.iterate_add_apply, hm, hn]

theorem next (h₁ : Reaches host s t) (h₂ : step host t = u) : Reaches host s u :=
  h₁.trans (one h₂)

theorem head (h₁ : step host s = t) (h₂ : Reaches host t u) : Reaches host s u :=
  (one h₁).trans h₂

/-- **What every step preserves holds of every state that is reached.** -/
theorem preserves {Inv : RunState σ → Prop} (hstep : ∀ t, Inv t → Inv (step host t))
    (h : Reaches host s t) (hs : Inv s) : Inv t := by
  obtain ⟨n, hn⟩ := h
  subst hn
  induction n with
  | zero => exact hs
  | succ n ih =>
      rw [Function.iterate_succ_apply']
      exact hstep _ ih

end Reaches

/-- **A run ends with an answer exactly when it reaches the state** in which
that answer is handed on and nothing waits. -/
theorem exists_run_iff {s : RunState σ} {r : Except RunError Value} {m : Machine σ} :
    (∃ fuel, run host fuel s = some (r, m)) ↔ Reaches host s ⟨.answer r, [], m⟩ := by
  constructor
  · rintro ⟨fuel, hrun⟩
    cases fuel with
    | zero => cases hrun
    | succ n =>
        rw [run_succ] at hrun
        obtain ⟨r', hr, hpair⟩ := Option.map_eq_some_iff.mp hrun
        cases hpair
        obtain ⟨hfocus, hpending⟩ := result?_eq_some.mp hr
        refine ⟨n, ?_⟩
        rw [← hfocus, ← hpending]
  · rintro ⟨n, hn⟩
    refine ⟨n + 1, ?_⟩
    rw [run_succ, hn]
    rfl

theorem reaches_of_run {s : RunState σ} {r : Except RunError Value} {m : Machine σ} {fuel : Nat}
    (h : run host fuel s = some (r, m)) : Reaches host s ⟨.answer r, [], m⟩ :=
  exists_run_iff.mp ⟨fuel, h⟩

/-- From its end on, a run stays where it is. -/
theorem ended_of_le {s : RunState σ} {r : Except RunError Value} {m : Machine σ} {i j : Nat}
    (hle : i ≤ j) (hi : (step host)^[i] s = ⟨.answer r, [], m⟩) :
    (step host)^[j] s = ⟨.answer r, [], m⟩ := by
  obtain ⟨k, rfl⟩ := Nat.exists_eq_add_of_le hle
  rw [Nat.add_comm, Function.iterate_add_apply, hi, iterate_ended]

namespace Reaches

variable {s t : RunState σ} {r r' : Except RunError Value} {m n : Machine σ}

/-- A run ends in one way only. -/
theorem end_eq (h₁ : Reaches host s ⟨.answer r, [], m⟩) (h₂ : Reaches host s ⟨.answer r', [], n⟩) :
    r = r' ∧ m = n := by
  obtain ⟨i, hi⟩ := h₁
  obtain ⟨j, hj⟩ := h₂
  have hleft := ended_of_le (Nat.le_max_left i j) hi
  have hright := ended_of_le (Nat.le_max_right i j) hj
  cases hleft.symm.trans hright
  exact ⟨rfl, rfl⟩

theorem answer_eq (h₁ : Reaches host s ⟨.answer r, [], m⟩)
    (h₂ : Reaches host s ⟨.answer r', [], n⟩) : r = r' :=
  (h₁.end_eq h₂).1

/-- A run that ends comes to its end from every state on the way. -/
theorem goes_on (h : Reaches host s t) (hend : Reaches host s ⟨.answer r, [], m⟩) :
    Reaches host t ⟨.answer r, [], m⟩ := by
  obtain ⟨i, rfl⟩ := h
  obtain ⟨j, hj⟩ := hend
  rcases Nat.le_total i j with hle | hle
  · refine ⟨j - i, ?_⟩
    rw [← Function.iterate_add_apply, Nat.sub_add_cancel hle, hj]
  · rw [ended_of_le hle hj]
    exact .refl _

end Reaches

/-! ## §4. The upcoming instruction. -/

/-- The running frame and the instruction that it is about to execute. -/
def upcoming? (s : RunState σ) : Option (Frame × Instruction) :=
  match s.focus, s.machine.frames.items with
  | .bytecode, f :: _ =>
      match Machine.fetch f with
      | .ok (i, _) => some (f, i)
      | .error _ => none
  | _, _ => none

/-- A state with an upcoming instruction is about to fetch it. -/
theorem upcoming?_eq_some {t : RunState σ} {f : Frame} {i : Instruction}
    (h : t.upcoming? = some (f, i)) :
    ∃ pending next vs fs st w, t = ⟨.bytecode, pending, .of vs (f :: fs) st w⟩
      ∧ Machine.fetch f = .ok (i, next) := by
  obtain ⟨focus, pending, m⟩ := t
  obtain ⟨vs, fs, st, w, rfl⟩ := Machine.exists_of m
  cases focus with
  | bytecode =>
      cases fs with
      | nil => cases h
      | cons f' fs =>
          change (match Machine.fetch f' with
            | .ok (i, _) => some (f', i)
            | .error _ => none) = some (f, i) at h
          cases hfetch : Machine.fetch f' with
          | error e =>
              rw [hfetch] at h
              cases h
          | ok fetched =>
              rw [hfetch] at h
              cases h
              exact ⟨pending, fetched.2, vs, fs, st, w, rfl, hfetch⟩
  | _ => cases h

/-- The value that the upcoming instruction is about to call. -/
def callee? (s : RunState σ) : Option Value :=
  match s.upcoming? with
  | some (_, .call shape) => s.machine.stack.items[shape.slots]?
  | _ => none

theorem upcoming?_of {pending : List (Pending σ)} {vs : List Value} {f : Frame}
    {fs : List Frame} {st : Settings} {w : World σ} {i : Instruction} {next : Nat}
    (h : Machine.fetch f = .ok (i, next)) :
    upcoming? (⟨.bytecode, pending, .of vs (f :: fs) st w⟩ : RunState σ) = some (f, i) := by
  show (match Machine.fetch f with
    | .ok (i, _) => some (f, i)
    | .error _ => none) = _
  rw [h]

theorem callee?_call {pending : List (Pending σ)} {ops rest : List Value} {callee : Value}
    {f : Frame} {fs : List Frame} {st : Settings} {w : World σ} {shape : CallShape} {next : Nat}
    (h : Machine.fetch f = .ok (.call shape, next)) (hops : ops.length = shape.slots) :
    callee? (⟨.bytecode, pending, .of (ops ++ callee :: rest) (f :: fs) st w⟩ : RunState σ)
      = some callee := by
  unfold callee?
  rw [upcoming?_of h]
  show (ops ++ callee :: rest)[shape.slots]? = _
  rw [← hops, List.getElem?_append_right (Nat.le_refl _), Nat.sub_self]
  rfl

theorem callee?_plain {pending : List (Pending σ)} {vs : List Value} {f : Frame}
    {fs : List Frame} {st : Settings} {w : World σ} {i : Instruction} {next : Nat}
    (h : Machine.fetch f = .ok (i, next)) (hi : i.shape? = none) :
    callee? (⟨.bytecode, pending, .of vs (f :: fs) st w⟩ : RunState σ) = none := by
  unfold callee?
  rw [upcoming?_of h]
  cases i with
  | call shape => cases hi
  | _ => rfl

/-! ## §5. Steps of bytecode. -/

section Bytecode

variable {pending : List (Pending σ)} {m n : Machine σ}

theorem step_advance (h : Machine.stepFrame m = (.ok .advance, n)) :
    step host ⟨.bytecode, pending, m⟩ = ⟨.bytecode, pending, n⟩ := by
  show stepBytecode host ⟨.bytecode, pending, m⟩ = _
  unfold stepBytecode
  rw [h]

theorem step_failed {e : RunError} (h : Machine.stepFrame m = (.error e, n)) :
    step host ⟨.bytecode, pending, m⟩ = ⟨.answer (.error e), pending, n⟩ := by
  show stepBytecode host ⟨.bytecode, pending, m⟩ = _
  unfold stepBytecode
  rw [h]

theorem step_returned {v : Value} (h : Machine.stepFrame m = (.ok (.returned v), n)) :
    step host ⟨.bytecode, pending, m⟩ = afterReturn v ⟨.bytecode, pending, n⟩ := by
  show stepBytecode host ⟨.bytecode, pending, m⟩ = _
  unfold stepBytecode
  rw [h]

theorem step_external {callee : Value} {args : CallArgs}
    (h : Machine.stepFrame m = (.ok (.external callee args), n)) :
    step host ⟨.bytecode, pending, m⟩
      = enter host callee args ⟨.bytecode, .operand :: pending, n⟩ := by
  show stepBytecode host ⟨.bytecode, pending, m⟩ = _
  unfold stepBytecode
  rw [h]

end Bytecode

/-! ## §6. Entering and resuming. -/

section Entering

variable {focus : Focus σ} {pending : List (Pending σ)} {vs : List Value} {fs : List Frame}
  {st : Settings} {w : World σ}

theorem resume_of {v : Value} (h : vs.length < st.maxValueStack) :
    resume v ⟨focus, pending, .of vs fs st w⟩ = ⟨.bytecode, pending, .of (v :: vs) fs st w⟩ := by
  unfold resume
  rw [Machine.push_of h]

theorem resume_full {v : Value} (h : ¬ vs.length < st.maxValueStack) :
    resume v ⟨focus, pending, .of vs fs st w⟩
      = ⟨.answer (.error .valueStackOverflow), pending, .of vs fs st w⟩ := by
  unfold resume
  rw [Machine.push_full h]

theorem activate_of {g : Function Value} {args : CallArgs} {locals : Array Value}
    (h : Machine.admission g args fs.length st = .ok locals) :
    activate g args ⟨focus, pending, .of vs fs st w⟩
      = ⟨.bytecode, .activation fs.length vs.length :: pending,
          .of vs (⟨g, 0, vs.length, locals⟩ :: fs) st w⟩ := by
  unfold activate
  rw [Machine.enterFrame_of h]
  rfl

theorem activate_refused {g : Function Value} {args : CallArgs} {e : RunError}
    (h : Machine.admission g args fs.length st = .error e) :
    activate g args ⟨focus, pending, .of vs fs st w⟩
      = ⟨.answer (.error e), pending, .of vs fs st w⟩ := by
  unfold activate
  rw [Machine.enterFrame_refused h]

/-- The activation ends with the frame that began it. -/
theorem afterReturn_last {v : Value} {base : Nat} :
    afterReturn v ⟨focus, .activation fs.length base :: pending, .of vs fs st w⟩
      = ⟨.answer (.ok v), pending, .of vs fs st w⟩ :=
  if_pos rfl

theorem afterReturn_inner {v : Value} {floor base : Nat} (h : fs.length ≠ floor) :
    afterReturn v ⟨focus, .activation floor base :: pending, .of vs fs st w⟩
      = resume v ⟨focus, .activation floor base :: pending, .of vs fs st w⟩ :=
  if_neg h

/-- Unless an activation ends, the frame below gets the result. -/
theorem afterReturn_resume {v : Value}
    (h : ∀ base rest, pending ≠ .activation fs.length base :: rest) :
    afterReturn v ⟨focus, pending, .of vs fs st w⟩
      = resume v ⟨focus, pending, .of vs fs st w⟩ := by
  match pending, h with
  | .activation floor base :: rest, h =>
      refine afterReturn_inner fun hfloor => ?_
      subst hfloor
      exact h base rest rfl
  | .operand :: rest, _ => rfl
  | .host next :: rest, _ => rfl
  | [], _ => rfl

end Entering

/-! ## §7. Attempted calls. -/

/-- The callees of the calls that are attempted in a number of steps. -/
def attempted (host : Host σ) : (steps : Nat) → RunState σ → List Value
  | 0, _ => []
  | steps + 1, s => s.callee?.toList ++ attempted host steps (s.step host)

theorem mem_attempted {steps k : Nat} {s : RunState σ} {callee : Value} (hk : k < steps)
    (h : ((step host)^[k] s).callee? = some callee) : callee ∈ s.attempted host steps := by
  induction steps generalizing s k with
  | zero => omega
  | succ steps ih =>
      unfold attempted
      cases k with
      | zero =>
          rw [Function.iterate_zero, id_eq] at h
          rw [h]
          simp
      | succ k =>
          rw [Function.iterate_succ_apply] at h
          exact List.mem_append_right _ (ih (by omega) h)

/-- **The calls of a run that has ended** are those of its steps. -/
theorem mem_attempted_of_run {fuel : Nat} {s t : RunState σ} {callee : Value}
    {last : Except RunError Value × Machine σ} (hrun : run host fuel s = some last)
    (hreach : Reaches host s t) (h : t.callee? = some callee) :
    callee ∈ s.attempted host fuel := by
  obtain ⟨k, rfl⟩ := hreach
  cases fuel with
  | zero => cases hrun
  | succ n =>
      by_cases hk : k < n + 1
      · exact mem_attempted hk h
      · -- the run has ended before, so that no instruction is upcoming
        exfalso
        rw [run_succ] at hrun
        obtain ⟨r, hr, _⟩ := Option.map_eq_some_iff.mp hrun
        obtain ⟨hfocus, hpending⟩ := result?_eq_some.mp hr
        have hended : (step host)^[n] s = ⟨.answer r, [], ((step host)^[n] s).machine⟩ := by
          rw [← hfocus, ← hpending]
        have hsplit : (step host)^[k] s = (step host)^[k - n] ((step host)^[n] s) := by
          rw [← Function.iterate_add_apply]
          congr 2
          omega
        rw [hsplit, hended, iterate_ended] at h
        cases h

end RunState

end CallDecoration
