/-
  CallDecoration.Proofs.Machine.Watching
  ──────────────────────────────────────
  **Watching a run.**  A watched state is a state with a flag for each frame,
  which tells whether the frame was entered from outside, by a call
  instruction of a flagged frame whose callee is a function, or by a call of a
  function that is named from the start.  Two events are noted: a host function
  of the host's own is called, and a flagged frame is about to call a function.
  Flags and events do not take part in the run; `Passes` tells which events lie
  between two watched states.
-/
import CallDecoration.Proofs.Machine.Runs

namespace CallDecoration

variable {σ : Type}

/-! ## §1. Watched states. -/

/-- What is noted of a run. -/
inductive Event where
  /-- A host function of the host's own is called. -/
  | applied (n : Native Value) (args : CallArgs)
  /-- A flagged frame is about to call a function. -/
  | called (g : Function Value)

/-- What is noted of the call of a host function: nothing if it is one of the
library's own. -/
def Native.noted (n : Native Value) (args : CallArgs) : List Event :=
  match n.role with
  | .host => [.applied n args]
  | _ => []

theorem Native.noted_host {n : Native Value} (h : n.role = .host) (args : CallArgs) :
    n.noted args = [.applied n args] := by
  unfold Native.noted
  rw [h]

theorem Native.noted_own {n : Native Value} (h : n.role ≠ .host) (args : CallArgs) :
    n.noted args = [] := by
  unfold Native.noted
  split
  · rename_i hrole
    exact absurd hrole h
  · rfl

/-- What is noted of a call instruction of a frame with the flag. -/
def Value.noted (flag : Bool) (callee : Value) (args : CallArgs) : List Event :=
  match callee with
  | .function g => if flag then [.called g] else []
  | .native n => n.noted args
  | _ => []

/-- The flag of the frame that a call instruction of a frame with the flag
enters. -/
def Value.entryFlag (carried : FunctionId → Bool) (flag : Bool) : Value → Bool
  | .function g => flag || carried g.id
  | _ => false

/-- A state with the flags of its frames, innermost first. -/
structure Watched (σ : Type) where
  state : RunState σ
  flags : List Bool

namespace Watched

/-- Whether the running frame is flagged. -/
def isFlagged (x : Watched σ) : Bool :=
  x.flags.headD false

/-- The flag of a frame that is entered in the next step. -/
def entryFlag (carried : FunctionId → Bool) (x : Watched σ) : Bool :=
  match x.state.focus with
  | .bytecode =>
      match x.state.callee? with
      | some callee => callee.entryFlag carried x.isFlagged
      | none => false
  | _ => true

/-- The events of the next step. -/
def events (x : Watched σ) : List Event :=
  match x.state.focus with
  | .bytecode =>
      match (Machine.stepFrame x.state.machine).1, x.state.callee? with
      | .ok (.external (.native n) args), _ => n.noted args
      | _, some (.function g) => if x.isFlagged then [.called g] else []
      | _, _ => []
  | .action (.call (.native n) args _) => n.noted args
  | _ => []

/-- **One step of a watched run.** -/
def next (host : Host σ) (carried : FunctionId → Bool) (x : Watched σ) : Watched σ :=
  let t := x.state.step host
  ⟨t,
    if x.state.machine.frames.height < t.machine.frames.height then x.entryFlag carried :: x.flags
    else x.flags.drop (x.state.machine.frames.height - t.machine.frames.height)⟩

/-- The events of a number of steps, in order. -/
def log (host : Host σ) (carried : FunctionId → Bool) : (steps : Nat) → Watched σ → List Event
  | 0, _ => []
  | steps + 1, x => x.events ++ log host carried steps (x.next host carried)

/-! ## §2. Single steps. -/

section Next

variable {host : Host σ} {carried : FunctionId → Bool} {s t : RunState σ} {flags : List Bool}

theorem next_level (h : s.step host = t)
    (hlevel : t.machine.frames.height = s.machine.frames.height) :
    next host carried ⟨s, flags⟩ = ⟨t, flags⟩ := by
  unfold next
  dsimp only
  rw [h, hlevel, if_neg (Nat.lt_irrefl _), Nat.sub_self]
  rfl

theorem next_entered (h : s.step host = t)
    (hlevel : t.machine.frames.height = s.machine.frames.height + 1) :
    next host carried ⟨s, flags⟩ = ⟨t, entryFlag carried ⟨s, flags⟩ :: flags⟩ := by
  unfold next
  dsimp only
  rw [h, hlevel, if_pos (Nat.lt_succ_self _)]

theorem next_left {flag : Bool} (h : s.step host = t)
    (hlevel : s.machine.frames.height = t.machine.frames.height + 1) :
    next host carried ⟨s, flag :: flags⟩ = ⟨t, flags⟩ := by
  unfold next
  dsimp only
  rw [h, hlevel, if_neg (by omega), Nat.add_sub_cancel_left]
  rfl

end Next

/-! ## §3. Passing from one watched state to another. -/

/-- **The events between two watched states** of a run. -/
inductive Passes (host : Host σ) (carried : FunctionId → Bool) :
    Watched σ → List Event → Watched σ → Prop where
  | refl (x : Watched σ) : Passes host carried x [] x
  | step {x y : Watched σ} {evs : List Event} (h : Passes host carried (x.next host carried) evs y) :
      Passes host carried x (x.events ++ evs) y

namespace Passes

variable {host : Host σ} {carried : FunctionId → Bool} {x y z : Watched σ} {evs evs' : List Event}

theorem trans (hxy : Passes host carried x evs y) (hyz : Passes host carried y evs' z) :
    Passes host carried x (evs ++ evs') z := by
  induction hxy with
  | refl x => exact hyz
  | step h ih =>
      rw [List.append_assoc]
      exact step (ih hyz)

/-- A step of which these are the events. -/
theorem one (hnext : x.next host carried = y) (hevents : x.events = evs) :
    Passes host carried x evs y := by
  have h : Passes host carried x (x.events ++ []) (x.next host carried) := step (refl _)
  rw [hnext, hevents, List.append_nil] at h
  exact h

theorem silent (hxy : Passes host carried x [] y) (hyz : Passes host carried y evs z) :
    Passes host carried x evs z :=
  hxy.trans hyz

theorem then_silent (hxy : Passes host carried x evs y) (hyz : Passes host carried y [] z) :
    Passes host carried x evs z := by
  have h := hxy.trans hyz
  rw [List.append_nil] at h
  exact h

theorem reaches (h : Passes host carried x evs y) :
    RunState.Reaches host x.state y.state := by
  induction h with
  | refl x => exact RunState.Reaches.refl x.state
  | step h ih => exact RunState.Reaches.head rfl ih

end Passes

/-! ## §4. Runs that end. -/

section Ends

variable {host : Host σ} {carried : FunctionId → Bool} {x y z : Watched σ} {evs : List Event}

/-- A watched run that has ended. -/
def IsEnded (x : Watched σ) : Prop :=
  ∃ r m, x.state = ⟨.answer r, [], m⟩

theorem next_ended (h : x.IsEnded) : x.next host carried = x := by
  obtain ⟨r, m, hx⟩ := h
  obtain ⟨s, flags⟩ := x
  change s = _ at hx
  subst hx
  exact next_level RunState.step_ended rfl

theorem events_ended (h : x.IsEnded) : x.events = [] := by
  obtain ⟨r, m, hx⟩ := h
  unfold events
  rw [hx]

theorem iterate_next_ended (h : x.IsEnded) (n : Nat) : (next host carried)^[n] x = x :=
  Function.iterate_fixed (next_ended h) n

theorem log_ended (h : x.IsEnded) (n : Nat) : log host carried n x = [] := by
  induction n with
  | zero => rfl
  | succ n ih => rw [log, events_ended h, next_ended h, ih, List.nil_append]

theorem log_add (m n : Nat) (x : Watched σ) :
    log host carried (m + n) x
      = log host carried m x ++ log host carried n ((next host carried)^[m] x) := by
  induction m generalizing x with
  | zero => simp [log]
  | succ m ih =>
      rw [Nat.add_right_comm, log, log, ih, Function.iterate_succ_apply, List.append_assoc]

/-- The steps of a watched run are those of the run. -/
theorem state_iterate (n : Nat) (x : Watched σ) :
    ((next host carried)^[n] x).state = (RunState.step host)^[n] x.state := by
  induction n generalizing x with
  | zero => rfl
  | succ n ih =>
      rw [Function.iterate_succ_apply, Function.iterate_succ_apply, ih]
      rfl

/-- A run that has ended within some steps is where it has ended. -/
theorem state_of_run {s : RunState σ} {r : Except RunError Value} {m : Machine σ} {fuel : Nat}
    (h : RunState.run host fuel s = some (r, m)) (flags : List Bool) :
    ((next host carried)^[fuel] ⟨s, flags⟩).state = ⟨.answer r, [], m⟩ := by
  rw [state_iterate]
  cases fuel with
  | zero => cases h
  | succ n =>
      rw [RunState.run_succ] at h
      obtain ⟨r', hr, hpair⟩ := Option.map_eq_some_iff.mp h
      obtain ⟨rfl, rfl⟩ := Prod.mk.inj hpair
      obtain ⟨hfocus, hpending⟩ := RunState.result?_eq_some.mp hr
      have hended : (RunState.step host)^[n] s
          = ⟨.answer r', [], ((RunState.step host)^[n] s).machine⟩ := by
        rw [← hfocus, ← hpending]
      rw [Function.iterate_succ_apply']
      show RunState.step host ((RunState.step host)^[n] s) = _
      rw [hended]
      exact RunState.step_ended

/-- **The events of one or more steps.** -/
def Advances (host : Host σ) (carried : FunctionId → Bool) (x : Watched σ) (evs : List Event)
    (y : Watched σ) : Prop :=
  ∃ n, (next host carried)^[n + 1] x = y ∧ log host carried (n + 1) x = evs

theorem Passes.exists_steps (h : Passes host carried x evs y) :
    ∃ n, (next host carried)^[n] x = y ∧ log host carried n x = evs := by
  induction h with
  | refl x => exact ⟨0, rfl, rfl⟩
  | step h ih =>
      obtain ⟨n, hn, hlog⟩ := ih
      refine ⟨n + 1, hn, ?_⟩
      rw [log, hlog]

theorem Passes.advances {evs' : List Event} (hxy : Passes host carried x evs y)
    (hyz : Advances host carried y evs' z) : Advances host carried x (evs ++ evs') z := by
  obtain ⟨m, rfl, rfl⟩ := hxy.exists_steps
  obtain ⟨n, hn, hlog⟩ := hyz
  refine ⟨m + n, ?_, ?_⟩
  · rw [← hn, ← Function.iterate_add_apply]
    congr 1
    omega
  · rw [Nat.add_assoc, log_add, hlog]

theorem Advances.one (hnext : x.next host carried = y) (hevents : x.events = evs) :
    Advances host carried x evs y := by
  refine ⟨0, hnext, ?_⟩
  rw [log, log, hevents, List.append_nil]

/-- What is reached by steps is passed to. -/
theorem Passes.of_steps (n : Nat) (x : Watched σ) :
    Passes host carried x (log host carried n x) ((next host carried)^[n] x) := by
  induction n generalizing x with
  | zero => exact refl x
  | succ n ih =>
      rw [log, Function.iterate_succ_apply]
      exact step (ih _)

theorem Advances.passes (h : Advances host carried x evs y) : Passes host carried x evs y := by
  obtain ⟨n, rfl, rfl⟩ := h
  exact Passes.of_steps (n + 1) x

/-- To pass to another state takes a step. -/
theorem Passes.advances_of_ne (h : Passes host carried x evs y) (hne : x ≠ y) :
    Advances host carried x evs y := by
  obtain ⟨n, hn, hlog⟩ := h.exists_steps
  cases n with
  | zero => exact absurd hn hne
  | succ n => exact ⟨n, hn, hlog⟩

theorem Advances.then_passes {evs' : List Event} (hxy : Advances host carried x evs y)
    (hyz : Passes host carried y evs' z) : Advances host carried x (evs ++ evs') z := by
  obtain ⟨m, hm, rfl⟩ := hxy
  obtain ⟨n, hn, hlog⟩ := hyz.exists_steps
  refine ⟨n + m, ?_, ?_⟩
  · rw [← hn, ← hm, ← Function.iterate_add_apply]
    rfl
  · rw [show n + m + 1 = m + 1 + n by omega, log_add, hm, hlog]

/-- A run that has ended within some steps, and passes to a state in which it
has not ended, ends from there. -/
theorem Passes.exists_rest {n : Nat} (hxy : Passes host carried x evs y) (hy : ¬ y.IsEnded)
    (hend : ((next host carried)^[n] x).IsEnded) :
    ∃ k, log host carried n x = evs ++ log host carried k y
      ∧ (next host carried)^[n] x = (next host carried)^[k] y := by
  obtain ⟨m, hm, hlog⟩ := hxy.exists_steps
  by_cases hle : m ≤ n
  · obtain ⟨k, rfl⟩ := Nat.exists_eq_add_of_le hle
    refine ⟨k, ?_, ?_⟩
    · rw [log_add, hlog, hm]
    · rw [Nat.add_comm, Function.iterate_add_apply, hm]
  · obtain ⟨l, rfl⟩ := Nat.exists_eq_add_of_le (Nat.le_of_not_le hle)
    rw [Nat.add_comm, Function.iterate_add_apply, iterate_next_ended hend] at hm
    rw [hm] at hend
    exact absurd hend hy

/-- The end of a run that passes to its end. -/
theorem Passes.eq_ended {n : Nat} (hxy : Passes host carried x evs y) (hy : y.IsEnded)
    (hend : ((next host carried)^[n] x).IsEnded) : (next host carried)^[n] x = y := by
  obtain ⟨m, hm, _⟩ := hxy.exists_steps
  rcases Nat.le_total m n with hle | hle
  · obtain ⟨k, rfl⟩ := Nat.exists_eq_add_of_le hle
    rw [Nat.add_comm, Function.iterate_add_apply, hm, iterate_next_ended hy]
  · obtain ⟨l, rfl⟩ := Nat.exists_eq_add_of_le hle
    rw [Nat.add_comm, Function.iterate_add_apply, iterate_next_ended hend] at hm
    exact hm

/-- **What holds of the log of a run that ends** can be shown from one stretch
of the run to the next: each stretch ends the run, or leads to a state from
which the next one goes on. -/
theorem log_induction {Inv : Watched σ → Prop} {Good : Watched σ → List Event → Watched σ → Prop}
    (hrunning : ∀ x, Inv x → ¬ x.IsEnded)
    (hstretch : ∀ x, Inv x → ∃ y evs, Advances host carried x evs y
      ∧ ((y.IsEnded ∧ Good x evs y)
        ∨ (Inv y ∧ ∀ later z, Good y later z → Good x (evs ++ later) z)))
    {n : Nat} {x : Watched σ} (hx : Inv x) (hend : ((next host carried)^[n] x).IsEnded) :
    Good x (log host carried n x) ((next host carried)^[n] x) := by
  induction n using Nat.strongRecOn generalizing x with
  | ind n ih =>
      obtain ⟨y, evs, ⟨k, hy, hlog⟩, hcase⟩ := hstretch x hx
      by_cases hk : k + 1 ≤ n
      · -- the stretch lies within the steps that are taken
        obtain ⟨l, rfl⟩ := Nat.exists_eq_add_of_le hk
        have hsplit : (next host carried)^[k + 1 + l] x = (next host carried)^[l] y := by
          rw [Nat.add_comm, Function.iterate_add_apply, hy]
        rw [hsplit] at hend
        rw [log_add, hlog, hsplit, hy]
        rcases hcase with ⟨hended, hgood⟩ | ⟨hinv, hgood⟩
        · rw [log_ended hended, List.append_nil, iterate_next_ended hended]
          exact hgood
        · exact hgood _ _ (ih l (by omega) hinv hend)
      · -- the run has ended within the stretch
        obtain ⟨l, hl⟩ := Nat.exists_eq_add_of_le (Nat.le_of_not_le hk)
        have hsame : (next host carried)^[n] x = y := by
          rw [← hy, hl, Nat.add_comm n l, Function.iterate_add_apply, iterate_next_ended hend]
        have hevs : log host carried n x = evs := by
          rw [← hlog, hl, log_add, log_ended hend, List.append_nil]
        rw [hsame] at hend ⊢
        rw [hevs]
        rcases hcase with ⟨_, hgood⟩ | ⟨hinv, _⟩
        · exact hgood
        · exact absurd hend (hrunning y hinv)

end Ends

/-! ## §5. Steps of bytecode. -/

section Bytecode

variable {host : Host σ} {carried : FunctionId → Bool} {pending : List (Pending σ)}
  {vs : List Value} {f : Frame} {fs : List Frame} {st : Settings} {w : World σ}
  {flags : List Bool}

theorem events_of {s : RunState σ} (hfocus : s.focus = .bytecode)
    (hnative : ∀ n args, (Machine.stepFrame s.machine).1 ≠ .ok (.external (.native n) args))
    (hfunction : ∀ g, s.callee? ≠ some (.function g)) : events ⟨s, flags⟩ = [] := by
  unfold events
  rw [hfocus]
  dsimp only
  split
  · rename_i n args hstep
    exact absurd hstep (hnative n args)
  · rename_i g hcallee _
    exact absurd hcallee (hfunction g)
  · rfl

/-- Whether the events that are noted in a step go on, unless an instruction
finds no room, which cannot be if `room` holds. -/
def Proceeds (host : Host σ) (carried : FunctionId → Bool) (pending : List (Pending σ))
    (room : Prop) (x : Watched σ) (evs : List Event) (y : Watched σ) : Prop :=
  Passes host carried x evs y
    ∨ (¬ room ∧ ∃ evs' m flags, Passes host carried x evs'
        ⟨⟨.answer (.error .valueStackOverflow), pending, m⟩, flags⟩)

namespace Proceeds

variable {room : Prop} {x y z : Watched σ} {evs evs' : List Event}

theorem of_passes (h : Passes host carried x evs y) : Proceeds host carried pending room x evs y :=
  Or.inl h

theorem trans (hxy : Proceeds host carried pending room x evs y)
    (hyz : Proceeds host carried pending room y evs' z) :
    Proceeds host carried pending room x (evs ++ evs') z := by
  rcases hxy with hxy | hfail
  · rcases hyz with hyz | ⟨hroom, evs'', m, flags, hfail⟩
    · exact Or.inl (hxy.trans hyz)
    · exact Or.inr ⟨hroom, evs ++ evs'', m, flags, hxy.trans hfail⟩
  · exact Or.inr hfail

theorem silent (hxy : Proceeds host carried pending room x [] y)
    (hyz : Proceeds host carried pending room y evs z) :
    Proceeds host carried pending room x evs z :=
  hxy.trans hyz

theorem then_silent (hxy : Proceeds host carried pending room x evs y)
    (hyz : Proceeds host carried pending room y [] z) :
    Proceeds host carried pending room x evs z := by
  have h := hxy.trans hyz
  rw [List.append_nil] at h
  exact h

theorem mono {room' : Prop} (h : Proceeds host carried pending room x evs y)
    (hroom : room' → room) : Proceeds host carried pending room' x evs y := by
  rcases h with h | ⟨hno, hfail⟩
  · exact Or.inl h
  · exact Or.inr ⟨fun h => hno (hroom h), hfail⟩

theorem passes (h : Proceeds host carried pending room x evs y) (hroom : room) :
    Passes host carried x evs y := by
  rcases h with h | ⟨hno, _⟩
  · exact h
  · exact absurd hroom hno

end Proceeds

/-- **The run fails:** an error is handed to what waits. -/
def Fails (host : Host σ) (carried : FunctionId → Bool) (pending : List (Pending σ))
    (x : Watched σ) : Prop :=
  ∃ e evs m flags, Passes host carried x evs ⟨⟨.answer (.error e), pending, m⟩, flags⟩

theorem Fails.of_passes {x y : Watched σ} {evs : List Event} (hxy : Passes host carried x evs y)
    (hy : Fails host carried pending y) : Fails host carried pending x := by
  obtain ⟨e, evs', m, flags, hfailed⟩ := hy
  exact ⟨e, evs ++ evs', m, flags, hxy.trans hfailed⟩

/-- An error that a call instruction waits for fails the run. -/
theorem Fails.of_operand (e : RunError) (m : Machine σ) :
    Fails host carried pending ⟨⟨.answer (.error e), .operand :: pending, m⟩, flags⟩ :=
  ⟨e, [], m, flags, Passes.one (next_level rfl rfl) rfl⟩

theorem Proceeds.passes_or_fails {x y : Watched σ} {evs : List Event} {room : Prop}
    (h : Proceeds host carried pending room x evs y) :
    Passes host carried x evs y ∨ Fails host carried pending x := by
  rcases h with h | ⟨_, evs', m, flags, hfailed⟩
  · exact Or.inl h
  · exact Or.inr ⟨_, evs', m, flags, hfailed⟩

theorem shape?_of_isPlain {i : Instruction} (h : i.isPlain = true) : i.shape? = none := by
  cases i with
  | call shape => cases h
  | _ => rfl

/-- An instruction that is no call, and goes on, has no events. -/
theorem advances_silent {i : Instruction} {next : Nat} {n : Machine σ}
    (hfetch : Machine.fetch f = .ok (i, next)) (hi : i.shape? = none)
    (hexec : Machine.execute i (.of vs ({ f with ip := next } :: fs) st w) = (.ok .advance, n))
    (hlevel : n.frames.height = fs.length + 1) :
    Advances host carried ⟨⟨.bytecode, pending, .of vs (f :: fs) st w⟩, flags⟩ []
      ⟨⟨.bytecode, pending, n⟩, flags⟩ := by
  have hframe := (Machine.stepFrame_of hfetch).trans hexec
  have hstep : RunState.step host ⟨.bytecode, pending, .of vs (f :: fs) st w⟩
      = ⟨.bytecode, pending, n⟩ := RunState.step_advance hframe
  refine Advances.one (next_level hstep hlevel) (events_of rfl ?_ ?_)
  · intro n args h
    rw [hframe] at h
    cases h
  · intro g
    rw [RunState.callee?_plain hfetch hi]
    simp

/-- An instruction that fails leaves its error to what waits. -/
theorem exists_failed {n : Machine σ} {e : RunError}
    (hframe : Machine.stepFrame (.of vs (f :: fs) st w) = (.error e, n)) :
    ∃ evs flags', Passes host carried ⟨⟨.bytecode, pending, .of vs (f :: fs) st w⟩, flags⟩ evs
      ⟨⟨.answer (.error e), pending, n⟩, flags'⟩ := by
  have hstep : RunState.step host ⟨.bytecode, pending, .of vs (f :: fs) st w⟩
      = ⟨.answer (.error e), pending, n⟩ := RunState.step_failed hframe
  refine ⟨_, (next host carried ⟨⟨.bytecode, pending, .of vs (f :: fs) st w⟩, flags⟩).flags,
    Passes.one ?_ rfl⟩
  unfold next
  dsimp only
  rw [hstep]

theorem Fails.of_stepFrame {n : Machine σ} {e : RunError}
    (hframe : Machine.stepFrame (.of vs (f :: fs) st w) = (.error e, n)) :
    Fails host carried pending ⟨⟨.bytecode, pending, .of vs (f :: fs) st w⟩, flags⟩ := by
  obtain ⟨evs, flags', hfailed⟩ := exists_failed hframe
  exact ⟨e, evs, n, flags', hfailed⟩

/-- An instruction with its operands and the room that it needs goes on. -/
theorem advances_plain (ops rest : List Value) {i : Instruction} {next : Nat}
    {out : List Value} (hfetch : Machine.fetch f = .ok (i, next)) (hi : i.isPlain = true)
    (hops : ops.length = i.operands) (hr : i.results f w ops = .ok out) (hfits : i.Fits st rest out) :
    Advances host carried ⟨⟨.bytecode, pending, .of (ops ++ rest) (f :: fs) st w⟩, flags⟩ []
      ⟨⟨.bytecode, pending, .of (out ++ rest)
        (i.frameAfter { f with ip := next } ops :: fs) st (i.worldAfter f w ops)⟩, flags⟩ := by
  rw [← Instruction.results_ip next] at hr
  refine advances_silent hfetch (shape?_of_isPlain hi) ?_ rfl
  rw [← Instruction.worldAfter_ip next]
  exact Machine.execute_ok hi hops hr hfits

/-- **An instruction with its operands goes on,** if there is room for what it
pushes. -/
theorem proceeds_plain (ops rest : List Value) {i : Instruction} {next : Nat}
    {out : List Value} {room : Prop}
    (hfetch : Machine.fetch f = .ok (i, next)) (hi : i.isPlain = true)
    (hops : ops.length = i.operands) (hr : i.results f w ops = .ok out)
    (hroom : room → i.Fits st rest out) :
    Proceeds host carried pending room
      ⟨⟨.bytecode, pending, .of (ops ++ rest) (f :: fs) st w⟩, flags⟩ []
      ⟨⟨.bytecode, pending, .of (out ++ rest)
        (i.frameAfter { f with ip := next } ops :: fs) st (i.worldAfter f w ops)⟩, flags⟩ := by
  by_cases hfits : i.Fits st rest out
  · exact Or.inl (advances_plain ops rest hfetch hi hops hr hfits).passes
  · rw [← Instruction.results_ip next] at hr
    obtain ⟨junk, _, hjunk⟩ := Machine.execute_full fs hi hops hr hfits
    obtain ⟨evs, flags', hfailed⟩ := exists_failed ((Machine.stepFrame_of hfetch).trans
      (hjunk rest rfl))
    exact Or.inr ⟨fun h => hfits (hroom h), evs, _, flags', hfailed⟩

/-- **An instruction that neither calls nor returns goes on or fails.** -/
theorem advances_or_fails {i : Instruction} {next : Nat}
    (hfetch : Machine.fetch f = .ok (i, next)) (hi : i.isPlain = true) :
    (∃ ops rest out, vs = ops ++ rest ∧ i.results f w ops = .ok out
      ∧ Advances host carried ⟨⟨.bytecode, pending, .of vs (f :: fs) st w⟩, flags⟩ []
        ⟨⟨.bytecode, pending, .of (out ++ rest)
          (i.frameAfter { f with ip := next } ops :: fs) st (i.worldAfter f w ops)⟩, flags⟩)
      ∨ Fails host carried pending ⟨⟨.bytecode, pending, .of vs (f :: fs) st w⟩, flags⟩ := by
  by_cases hlow : vs.length < i.operands
  · exact Or.inr (Fails.of_stepFrame (Machine.stepFrame_short hfetch hlow))
  · obtain ⟨ops, rest, rfl, hops⟩ := Machine.exists_taken hlow
    cases hr : i.results f w ops with
    | error e =>
        rw [← Instruction.results_ip next] at hr
        exact Or.inr (Fails.of_stepFrame ((Machine.stepFrame_of hfetch).trans
          (Machine.execute_error hi hops hr)))
    | ok out =>
        by_cases hfits : i.Fits st rest out
        · exact Or.inl ⟨ops, rest, out, rfl, hr, advances_plain ops rest hfetch hi hops hr hfits⟩
        · rw [← Instruction.results_ip next] at hr
          obtain ⟨junk, _, hjunk⟩ := Machine.execute_full fs hi hops hr hfits
          exact Or.inr (Fails.of_stepFrame ((Machine.stepFrame_of hfetch).trans (hjunk rest rfl)))

/-- An answer that a call instruction waits for is pushed, if there is room
for it. -/
theorem proceeds_resume {v : Value} {room : Prop} (hroom : room → vs.length < st.maxValueStack) :
    Proceeds host carried pending room
      ⟨⟨.answer (.ok v), .operand :: pending, .of vs fs st w⟩, flags⟩ []
      ⟨⟨.bytecode, pending, .of (v :: vs) fs st w⟩, flags⟩ := by
  have hresume : RunState.step host ⟨.answer (.ok v), .operand :: pending, .of vs fs st w⟩
      = RunState.resume v ⟨.answer (.ok v), pending, .of vs fs st w⟩ := rfl
  by_cases hfits : vs.length < st.maxValueStack
  · rw [RunState.resume_of hfits] at hresume
    exact Or.inl (Passes.one (next_level hresume rfl) rfl)
  · rw [RunState.resume_full hfits] at hresume
    exact Or.inr ⟨fun h => hfits (hroom h), [], _, flags,
      Passes.one (next_level hresume rfl) rfl⟩

/-- A call of a host function, by an instruction, takes callee and operands
away and lets it act. -/
theorem passes_native (ops rest : List Value) {shape : CallShape} {next : Nat}
    {n : Native Value} {args : CallArgs}
    (hfetch : Machine.fetch f = .ok (.call shape, next))
    (hops : ops.length = shape.slots)
    (hargs : collectArgs (.native n) shape ops.reverse = .ok args) :
    Passes host carried
      ⟨⟨.bytecode, pending, .of (ops ++ .native n :: rest) (f :: fs) st w⟩, flags⟩ (n.noted args)
      ⟨⟨.action (n.respond host args), .operand :: pending,
        .of rest ({ f with ip := next } :: fs) st w⟩, flags⟩ := by
  have hframe : Machine.stepFrame (.of (ops ++ .native n :: rest) (f :: fs) st w)
      = (.ok (.external (.native n) args), .of rest ({ f with ip := next } :: fs) st w) :=
    (Machine.stepFrame_of hfetch).trans (Machine.execute_call_external hops hargs rfl)
  have hstep : RunState.step host
        ⟨.bytecode, pending, .of (ops ++ .native n :: rest) (f :: fs) st w⟩
      = RunState.enter host (.native n) args ⟨.bytecode, .operand :: pending,
          .of rest ({ f with ip := next } :: fs) st w⟩ := RunState.step_external hframe
  refine Passes.one (next_level hstep rfl) ?_
  unfold events
  dsimp only
  rw [hframe]

/-- A call that enters a frame. -/
theorem advances_entered (ops rest : List Value) {shape : CallShape} {next : Nat} {callee : Value}
    {args given : CallArgs} {g : Function Value} {locals : Array Value} {flag : Bool}
    (hfetch : Machine.fetch f = .ok (.call shape, next)) (hops : ops.length = shape.slots)
    (hargs : collectArgs callee shape ops.reverse = .ok args)
    (hcallee : callee.entered? args = some (g, given))
    (hlocals : Machine.admission g given (f :: fs).length st = .ok locals) :
    Advances host carried
      ⟨⟨.bytecode, pending, .of (ops ++ callee :: rest) (f :: fs) st w⟩, flag :: flags⟩
      (callee.noted flag args)
      ⟨⟨.bytecode, pending,
        .of rest (⟨g, 0, rest.length, locals⟩ :: { f with ip := next } :: fs) st w⟩,
        callee.entryFlag carried flag :: flag :: flags⟩ := by
  have hframe : Machine.stepFrame (.of (ops ++ callee :: rest) (f :: fs) st w)
      = (.ok .advance,
        .of rest (⟨g, 0, rest.length, locals⟩ :: { f with ip := next } :: fs) st w) :=
    ((Machine.stepFrame_of hfetch).trans (Machine.execute_call_entered hops hargs hcallee)).trans
      (Machine.andAdvance_ok (Machine.enterFrame_of hlocals))
  have hsite : RunState.callee? (⟨.bytecode, pending, .of (ops ++ callee :: rest) (f :: fs) st w⟩ :
      RunState σ) = some callee := RunState.callee?_call hfetch hops
  have hflag : entryFlag carried (⟨⟨.bytecode, pending, .of (ops ++ callee :: rest) (f :: fs) st w⟩,
      flag :: flags⟩ : Watched σ) = callee.entryFlag carried flag := by
    unfold entryFlag
    dsimp only
    rw [hsite]
    rfl
  rw [← hflag]
  refine Advances.one (next_entered (RunState.step_advance hframe) rfl) ?_
  unfold events
  dsimp only
  rw [hframe, hsite]
  cases callee with
  | native n => cases hcallee
  | _ => rfl

/-- A call that is answered at once. -/
theorem advances_answered (ops rest : List Value) {shape : CallShape} {next : Nat} {callee : Value}
    {args : CallArgs} {r : Except RunError Value}
    (hfetch : Machine.fetch f = .ok (.call shape, next)) (hops : ops.length = shape.slots)
    (hargs : collectArgs callee shape ops.reverse = .ok args)
    (hcallee : callee.entered? args = none) (hnative : ∀ n, callee ≠ .native n)
    (henter : ∀ s : RunState σ, RunState.enter host callee args s = { s with focus := .answer r }) :
    Advances host carried
      ⟨⟨.bytecode, pending, .of (ops ++ callee :: rest) (f :: fs) st w⟩, flags⟩ []
      ⟨⟨.answer r, .operand :: pending, .of rest ({ f with ip := next } :: fs) st w⟩, flags⟩ := by
  have hframe : Machine.stepFrame (.of (ops ++ callee :: rest) (f :: fs) st w)
      = (.ok (.external callee args), .of rest ({ f with ip := next } :: fs) st w) :=
    (Machine.stepFrame_of hfetch).trans (Machine.execute_call_external hops hargs hcallee)
  have hstep : RunState.step host
        ⟨.bytecode, pending, .of (ops ++ callee :: rest) (f :: fs) st w⟩
      = ⟨.answer r, .operand :: pending, .of rest ({ f with ip := next } :: fs) st w⟩ :=
    (RunState.step_external hframe).trans (henter _)
  refine Advances.one (next_level hstep rfl) (events_of rfl ?_ ?_)
  · intro n args' h
    rw [hframe] at h
    cases h
    exact hnative n rfl
  · intro g h
    rw [RunState.callee?_call hfetch hops] at h
    cases h
    cases hcallee

/-- The call of one of the library's own host functions is not noted. -/
theorem passes_own (ops rest : List Value) {shape : CallShape} {next : Nat}
    {n : Native Value} {args : CallArgs} (hown : n.role ≠ .host)
    (hfetch : Machine.fetch f = .ok (.call shape, next))
    (hops : ops.length = shape.slots)
    (hargs : collectArgs (.native n) shape ops.reverse = .ok args) :
    Passes host carried
      ⟨⟨.bytecode, pending, .of (ops ++ .native n :: rest) (f :: fs) st w⟩, flags⟩ []
      ⟨⟨.action (n.respond host args), .operand :: pending,
        .of rest ({ f with ip := next } :: fs) st w⟩, flags⟩ := by
  rw [← Native.noted_own hown args]
  exact passes_native ops rest hfetch hops hargs

end Bytecode

end Watched

end CallDecoration
