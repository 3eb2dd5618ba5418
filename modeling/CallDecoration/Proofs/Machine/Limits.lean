/-
  CallDecoration.Proofs.Machine.Limits
  ──────────────────────────────────────
  **The limits of a machine hold everywhere, and calls put the frames back.**
  A machine starts without frames and values, and calls from outside and host
  code follow each other on it, whether they fail or not (`AtRest`).  In every
  state that any of them gets to there are no more frames and no more values
  than the settings allow.  Whatever a call does, it leaves the frames that it
  found and no more values than it found.

  An instruction pushes after it has looked at the limit, and it fails as it
  is where there is no room, so the limits are a matter of single steps.  That
  a call gives back its room is not: the stack is cut back to what the first
  frame of the call remembers (`Capped`).
-/
import CallDecoration.Proofs.Machine.Moves
import CallDecoration.Proofs.Machine.Returning

namespace CallDecoration

variable {σ : Type}

/-! ## §1. Machines between calls. -/

/-- **The machines that are left when calls have been made** on one that was
new, from outside or by host code, with any changes of the world in between. -/
inductive AtRest (host : Host σ) (st : Settings) : Machine σ → Prop where
  | fresh (w : World σ) : AtRest host st (.new st w)
  | changed {m : Machine σ} (w : World σ) (h : AtRest host st m) :
      AtRest host st { m with world := w }
  | called {m n : Machine σ} {callee : Value} {args : CallArgs} {r : Except RunError Value}
      {fuel : Nat} (h : AtRest host st m)
      (hrun : RunState.run host fuel (.ofCall host m callee args) = some (r, n)) :
      AtRest host st n
  | acted {m n : Machine σ} {a : Action σ Value} {r : Except RunError Value} {fuel : Nat}
      (h : AtRest host st m) (hrun : RunState.run host fuel (.ofAction m a) = some (r, n)) :
      AtRest host st n

namespace RunState

/-- The states that calls and host code get to on such a machine. -/
inductive Reachable (host : Host σ) (st : Settings) (s : RunState σ) : Prop where
  | ofCall {m : Machine σ} {callee : Value} {args : CallArgs} (h : AtRest host st m)
      (hreach : Reaches host (ofCall host m callee args) s)
  | ofAction {m : Machine σ} {a : Action σ Value} (h : AtRest host st m)
      (hreach : Reaches host (ofAction m a) s)

variable {host : Host σ} {s t : RunState σ} {pending : List (Pending σ)} {vs : List Value}
  {fs : List Frame} {st : Settings} {w : World σ}

/-! ## §2. The limits. -/

/-- **A machine within its limits.** -/
structure InLimits (m : Machine σ) : Prop where
  frames : m.frames.height ≤ m.settings.maxCallDepth
  values : m.stack.height ≤ m.settings.maxValueStack

theorem inLimits_of : InLimits (.of vs fs st w : Machine σ)
    ↔ fs.length ≤ st.maxCallDepth ∧ vs.length ≤ st.maxValueStack :=
  ⟨fun h => ⟨h.frames, h.values⟩, fun h => ⟨h.1, h.2⟩⟩

theorem InLimits.opens {callee : Value} {args : CallArgs}
    (h : Opens host pending vs fs st w callee args t)
    (hs : InLimits (.of vs fs st w : Machine σ)) : InLimits t.machine := by
  cases h with
  | activates _ hslots => exact inLimits_of.mpr ⟨Machine.depth_lt_of_admission hslots, hs.values⟩
  | acts => exact hs
  | answers => exact hs

theorem InLimits.resumes {v : Value} (h : Resumes pending vs fs st w v t)
    (hs : InLimits (.of vs fs st w : Machine σ)) : InLimits t.machine := by
  cases h with
  | room hroom => exact inLimits_of.mpr ⟨hs.frames, hroom⟩
  | full => exact hs

/-- **No step exceeds the limits.** -/
theorem InLimits.move (h : Move host s t) (hs : InLimits s.machine) : InLimits t.machine := by
  -- a move says how high the stack is at most, and admission that there is room for a frame
  cases h with
  | fails hf he hheight =>
      obtain ⟨hframes, hvalues⟩ := inLimits_of.mp hs
      exact inLimits_of.mpr ⟨hframes, by omega⟩
  | advances hf hheight =>
      obtain ⟨hframes, hvalues⟩ := inLimits_of.mp hs
      exact inLimits_of.mpr ⟨hframes, by omega⟩
  | enters hf hslots hheight =>
      obtain ⟨hframes, hvalues⟩ := inLimits_of.mp hs
      exact inLimits_of.mpr ⟨Machine.depth_lt_of_admission hslots, by omega⟩
  | calls hf hcallee hheight hcall =>
      obtain ⟨hframes, hvalues⟩ := inLimits_of.mp hs
      exact InLimits.opens hcall (inLimits_of.mpr ⟨hframes, by omega⟩)
  | leaves hheight hbase =>
      obtain ⟨hframes, hvalues⟩ := inLimits_of.mp hs
      rw [List.length_cons] at hframes
      exact inLimits_of.mpr ⟨by omega, by omega⟩
  | returns hpending hheight hresume =>
      obtain ⟨hframes, hvalues⟩ := inLimits_of.mp hs
      rw [List.length_cons] at hframes
      exact InLimits.resumes hresume (inLimits_of.mpr ⟨by omega, by omega⟩)
  | requests hcall => exact InLimits.opens hcall hs
  | writes => exact ⟨hs.frames, hs.values⟩
  | resumes hresume => exact InLimits.resumes hresume hs
  | @unwinds _ _ floor base m =>
      obtain ⟨vs, fs, st, w, rfl⟩ := Machine.exists_of m
      obtain ⟨hframes, hvalues⟩ := inLimits_of.mp hs
      show InLimits (Machine.unwind floor base _)
      rw [Machine.unwind_of]
      refine inLimits_of.mpr ⟨?_, ?_⟩
      · rw [List.length_drop]
        omega
      · rw [List.length_drop]
        omega
  | _ => exact hs

theorem Reaches.inLimits (h : Reaches host s t) (hs : InLimits s.machine) :
    InLimits t.machine :=
  Reaches.preserves (fun t ht => InLimits.move (move_step host t) ht) h hs

/-! ## §3. What the stack comes back to. -/

/-- **What keeps the stack of a call at `cap` values** once the frames are
back at `depth`: the frame with which an activation there began was entered
on top of no more, and no activation there remembers more. -/
structure Capped (depth cap : Nat) (pending : List (Pending σ)) (m : Machine σ) : Prop where
  height : m.frames.height = depth → m.stack.height ≤ cap
  base : ∀ f rest, f :: rest <:+ m.frames.items → rest.length = depth → f.base ≤ cap
  waiting : ∀ base, .activation depth base ∈ pending → base ≤ cap

variable {depth cap : Nat} {m n : Machine σ}

/-- Before a call, or host code, begins. -/
theorem capped_start : Capped fs.length vs.length ([] : List (Pending σ)) (.of vs fs st w) := by
  refine ⟨fun _ => Nat.le_refl _, fun f rest hsuffix hrest => ?_, fun base hmem => ?_⟩
  · have hlen : (f :: rest).length ≤ fs.length := hsuffix.length_le
    rw [List.length_cons] at hlen
    omega
  · cases hmem

/-- What is put on top of what waits is no activation. -/
theorem Capped.waits {first : Pending σ} (hfirst : ∀ limit base, first ≠ .activation limit base)
    (hs : Capped depth cap pending m) : Capped depth cap (first :: pending) m := by
  refine ⟨hs.height, hs.base, fun base hmem => ?_⟩
  rcases List.mem_cons.mp hmem with heq | hmem
  · exact absurd heq.symm (hfirst depth base)
  · exact hs.waiting base hmem

/-- What waited on top is gone. -/
theorem Capped.handed {first : Pending σ} (hs : Capped depth cap (first :: pending) m) :
    Capped depth cap pending m :=
  ⟨hs.height, hs.base, fun base hmem => hs.waiting base (List.mem_cons_of_mem _ hmem)⟩

/-- The running frame has moved on, and it is above those at `depth`. -/
theorem Capped.executed {vs' : List Value} {w' : World σ} {f f' : Frame}
    (hbase : f'.base = f.base) (hdepth : depth < fs.length + 1)
    (hs : Capped depth cap pending (.of vs (f :: fs) st w)) :
    Capped depth cap pending (.of vs' (f' :: fs) st w') := by
  refine ⟨fun hheight => ?_, fun g rest hsuffix hrest => ?_, hs.waiting⟩
  · change fs.length + 1 = depth at hheight
    omega
  · rcases List.suffix_cons_iff.mp hsuffix with heq | hsuffix
    · cases heq
      rw [hbase]
      exact hs.base f fs (List.suffix_refl _) hrest
    · exact hs.base g rest (hsuffix.trans (List.suffix_cons f fs)) hrest

theorem Capped.opens {callee : Value} {args : CallArgs}
    (h : Opens host pending vs fs st w callee args t) (hdepth : depth ≤ fs.length)
    (hs : Capped depth cap pending (.of vs fs st w)) : Capped depth cap t.pending t.machine := by
  cases h with
  | activates hcallee hslots =>
      -- at `depth`, the new frame and the new activation remember the height that is capped
      refine ⟨fun hheight => ?_, fun f rest hsuffix hrest => ?_, fun base hmem => ?_⟩
      · change fs.length + 1 = depth at hheight
        omega
      · rcases List.suffix_cons_iff.mp hsuffix with heq | hsuffix
        · cases heq
          exact hs.height hrest
        · exact hs.base f rest hsuffix hrest
      · rcases List.mem_cons.mp hmem with heq | hmem
        · cases heq
          exact hs.height rfl
        · exact hs.waiting base hmem
  | acts => exact hs
  | answers => exact hs

theorem Capped.resumes {v : Value} (h : Resumes pending vs fs st w v t)
    (hdepth : depth < fs.length) (hs : Capped depth cap pending (.of vs fs st w)) :
    Capped depth cap t.pending t.machine := by
  cases h with
  | room =>
      refine ⟨fun hheight => ?_, hs.base, hs.waiting⟩
      change fs.length = depth at hheight
      omega
  | full => exact hs

/-- **Every step within a run keeps what caps its stack.** -/
theorem Capped.move {floor : List Frame} {st' : Settings} (hw : Within floor st' s)
    (h : Move host s t) (hs : Capped floor.length cap s.pending s.machine) :
    Capped floor.length cap t.pending t.machine := by
  cases h with
  | fails hf he hheight => exact hs.executed hf.base hw.code.length_lt
  | advances hf hheight => exact hs.executed hf.base hw.code.length_lt
  | @enters pending _ vs' _ f' fs st w _ _ _ _ _ hf hslots hheight =>
      have hlt : floor.length < fs.length + 1 := hw.code.length_lt
      have hmoved : Capped floor.length cap pending (.of vs' (f' :: fs) st w) :=
        hs.executed hf.base hlt
      -- the new frame lies above those that count
      refine ⟨fun heq => ?_, fun g rest hsuffix hrest => ?_, hs.waiting⟩
      · change fs.length + 1 + 1 = floor.length at heq
        omega
      · rcases List.suffix_cons_iff.mp hsuffix with heq | hsuffix
        · cases heq
          rw [List.length_cons] at hrest
          omega
        · exact hmoved.base g rest hsuffix hrest
  | @calls pending _ vs' _ f' fs st w _ _ _ _ _ hf hcallee hheight hcall =>
      have hlt := hw.code.length_lt
      have hmoved : Capped floor.length cap pending (.of vs' (f' :: fs) st w) :=
        hs.executed hf.base hlt
      exact (hmoved.waits (by simp)).opens hcall (Nat.le_of_lt hlt)
  | @leaves _ _ _ f fs _ _ _ base hheight hbase =>
      refine ⟨fun heq => ?_, fun g rest hsuffix hrest => ?_, hs.handed.waiting⟩
      · exact Nat.le_trans hbase (hs.base f fs (List.suffix_refl _) heq)
      · exact hs.base g rest (hsuffix.trans (List.suffix_cons f fs)) hrest
  | @returns pending _ vs' f fs st w _ _ hpending hheight hresume =>
      have hlt : floor.length < fs.length := by
        rcases hw.code.pop with ⟨base, below, hlast, _⟩ | ⟨_, _, _, _, _, hcode⟩
        · exact absurd hlast (hpending base below)
        · exact hcode.length_lt
      have hmoved : Capped floor.length cap pending (.of vs' fs st w) := by
        refine ⟨fun heq => ?_, fun g rest hsuffix hrest => ?_, hs.waiting⟩
        · exact absurd heq (Nat.ne_of_gt hlt)
        · exact hs.base g rest (hsuffix.trans (List.suffix_cons f fs)) hrest
      exact hmoved.resumes hresume hlt
  | requests hcall => exact (hs.waits (by simp)).opens hcall hw.outside.length_le
  | resumes hresume => exact hs.handed.resumes hresume hw.below_operand.length_lt
  | passes => exact hs.handed
  | hands => exact hs.handed
  | continues => exact hs.handed
  | @unwinds _ e limit base m =>
      obtain ⟨vs, fs, st, w, rfl⟩ := Machine.exists_of m
      have hlimit : limit < fs.length := hw.failing.2.limit_lt
      show Capped floor.length cap _ (Machine.unwind limit base _)
      rw [Machine.unwind_of]
      refine ⟨fun heq => ?_, fun g rest hsuffix hrest => ?_, hs.handed.waiting⟩
      · -- the frames are back, and the activation remembers no more than the cap
        change (fs.drop (fs.length - limit)).length = floor.length at heq
        show (vs.drop (vs.length - base)).length ≤ cap
        rw [List.length_drop] at heq ⊢
        have hsame : limit = floor.length := by omega
        subst hsame
        have hbase := hs.waiting base List.mem_cons_self
        omega
      · exact hs.base g rest (hsuffix.trans (List.drop_suffix _ _)) hrest
  | _ => exact ⟨hs.height, hs.base, hs.waiting⟩

/-! ## §4. Calls give back their room. -/

/-- **A run that ends leaves the frames that it found, and no more values.** -/
theorem restored_of_ended {r : Except RunError Value} (hw : Within fs st s)
    (hs : Capped fs.length vs.length s.pending s.machine)
    (h : Reaches host s ⟨.answer r, [], n⟩) :
    n.frames = .ofList fs ∧ n.stack.height ≤ vs.length := by
  obtain ⟨hwithin, hcapped⟩ := @Reaches.preserves _ _ _ _
    (fun t => Within fs st t ∧ Capped fs.length vs.length t.pending t.machine)
    (fun t ht => ⟨ht.1.step, Capped.move ht.1 (move_step host t) ht.2⟩) h ⟨hw, hs⟩
  obtain ⟨vs', w', rfl⟩ := hwithin.ended
  exact ⟨rfl, hcapped.height rfl⟩

theorem restored_of_called {callee : Value} {args : CallArgs} {r : Except RunError Value}
    (h : Reaches host (ofCall host m callee args) ⟨.answer r, [], n⟩) :
    n.frames = m.frames ∧ n.stack.height ≤ m.stack.height := by
  obtain ⟨vs, fs, st, w, rfl⟩ := Machine.exists_of m
  exact restored_of_ended (within_ofCall callee args vs w)
    (capped_start.opens (opens_enter callee args) (Nat.le_refl _)) h

theorem restored_of_acted {a : Action σ Value} {r : Except RunError Value}
    (h : Reaches host (ofAction m a) ⟨.answer r, [], n⟩) :
    n.frames = m.frames ∧ n.stack.height ≤ m.stack.height := by
  obtain ⟨vs, fs, st, w, rfl⟩ := Machine.exists_of m
  exact restored_of_ended (within_ofAction a vs w) capped_start h

theorem Opens.settings {callee : Value} {args : CallArgs}
    (h : Opens host pending vs fs st w callee args t) : t.machine.settings = st := by
  cases h <;> rfl

/-- **The settings stay.** -/
theorem Move.settings (h : Move host s t) : t.machine.settings = s.machine.settings := by
  cases h with
  | calls hf hcallee hheight hcall => exact hcall.settings
  | requests hcall => exact hcall.settings
  | returns hpending hheight hresume => cases hresume <;> rfl
  | resumes hresume => cases hresume <;> rfl
  | _ => rfl

theorem Reaches.settings (h : Reaches host s t) : t.machine.settings = s.machine.settings :=
  Reaches.preserves (fun t ht => (Move.settings (move_step host t)).trans ht) h rfl

theorem settings_ofCall (callee : Value) (args : CallArgs) :
    (ofCall host m callee args).machine.settings = m.settings := by
  obtain ⟨vs, fs, st, w, rfl⟩ := Machine.exists_of m
  exact Opens.settings (opens_enter callee args)

/-- Between calls there are no frames and no values, and the settings are those
of the start. -/
theorem atRest_empty (h : AtRest host st m) :
    m.settings = st ∧ m.frames = .empty ∧ m.stack = .empty := by
  induction h with
  | fresh w => exact ⟨rfl, rfl, rfl⟩
  | changed w h ih => exact ih
  | called h hrun ih =>
      obtain ⟨hsettings, hframes, hstack⟩ := ih
      have hreach := reaches_of_run hrun
      obtain ⟨hkept, hheight⟩ := restored_of_called hreach
      rw [hstack] at hheight
      exact ⟨hreach.settings.trans ((settings_ofCall _ _).trans hsettings), hkept.trans hframes,
        Stack.eq_empty_of_height (Nat.le_zero.mp hheight)⟩
  | acted h hrun ih =>
      obtain ⟨hsettings, hframes, hstack⟩ := ih
      have hreach := reaches_of_run hrun
      obtain ⟨hkept, hheight⟩ := restored_of_acted hreach
      rw [hstack] at hheight
      exact ⟨hreach.settings.trans hsettings, hkept.trans hframes,
        Stack.eq_empty_of_height (Nat.le_zero.mp hheight)⟩

/-! ## §5. The limits of a machine. -/

theorem inLimits_of_atRest (h : AtRest host st m) : InLimits m := by
  obtain ⟨_, hframes, hstack⟩ := atRest_empty h
  refine ⟨?_, ?_⟩
  · rw [hframes]
    exact Nat.zero_le _
  · rw [hstack]
    exact Nat.zero_le _

/-- **Every reachable state is within the limits** of the settings. -/
theorem inLimits_of_reachable (h : Reachable host st s) :
    s.machine.settings = st ∧ InLimits s.machine := by
  cases h with
  | @ofCall m callee args h hreach =>
      have hlimits := inLimits_of_atRest h
      have hsettings := hreach.settings.trans (settings_ofCall callee args)
      refine ⟨hsettings.trans (atRest_empty h).1, hreach.inLimits ?_⟩
      obtain ⟨vs, fs, st, w, rfl⟩ := Machine.exists_of m
      exact InLimits.opens (opens_enter callee args) hlimits
  | ofAction h hreach =>
      exact ⟨hreach.settings.trans (atRest_empty h).1, hreach.inLimits (inLimits_of_atRest h)⟩

/-- No frames lie below those of a reachable state. -/
theorem within_of_reachable (h : Reachable host st s) : Within [] st s := by
  have hempty : ∀ m : Machine σ, AtRest host st m → ∃ vs w, m = .of vs [] st w := by
    intro m hm
    obtain ⟨rfl, hframes, _⟩ := atRest_empty hm
    obtain ⟨vs, fs, st, w, rfl⟩ := Machine.exists_of m
    have hnil : fs = [] := congrArg Stack.items hframes
    subst hnil
    exact ⟨vs, w, rfl⟩
  cases h with
  | @ofCall m callee args h hreach =>
      obtain ⟨vs, w, rfl⟩ := hempty m h
      exact Reaches.preserves (fun _ => Within.step) hreach (within_ofCall callee args vs w)
  | @ofAction m a h hreach =>
      obtain ⟨vs, w, rfl⟩ := hempty m h
      exact Reaches.preserves (fun _ => Within.step) hreach (within_ofAction a vs w)

/-- **What the limits of a machine promise,** for any host and whatever is
called. -/
structure RespectsLimits (host : Host σ) (st : Settings) : Prop where
  /-- In every state, those in which a host function acts included, there are
  no more frames than the call depth allows. -/
  depth : ∀ s, Reachable host st s → s.machine.frames.height ≤ st.maxCallDepth
  /-- And no more values than the stack may hold. -/
  height : ∀ s, Reachable host st s → s.machine.stack.height ≤ st.maxValueStack
  /-- When a call comes back, with a result or an error, over whatever waits for
  it, the frames are those before the call and there are no more values. -/
  restores : ∀ focus pending m callee args r n,
    Returns host (enter host callee args ⟨focus, pending, m⟩) pending r n →
      n.frames = m.frames ∧ n.stack.height ≤ m.stack.height
  /-- Between calls, however they have ended, both stacks are empty. -/
  empty : ∀ m, AtRest host st m → m.frames = .empty ∧ m.stack = .empty

/-- **The limits hold everywhere and every call puts the frames back.** -/
theorem respectsLimits (host : Host σ) (st : Settings) : RespectsLimits host st where
  depth s hs := by
    obtain ⟨rfl, hlimits⟩ := inLimits_of_reachable hs
    exact hlimits.frames
  height s hs := by
    obtain ⟨rfl, hlimits⟩ := inLimits_of_reachable hs
    exact hlimits.values
  restores _ _ _ _ _ _ _ h := restored_of_called (returns_enter_iff.mp h)
  empty _ h := (atRest_empty h).2

/-- A function that pushes a value and then does not decode. -/
def breaksOff : Function Value :=
  ⟨⟨1⟩, "g", ⟨"g", encode [.pushNil] ++ #[0xff], #[], #[], Signature.none, 0⟩,
    ⟨⟨0⟩, "m"⟩, [], [], #[]⟩

/-- A host function that calls it and goes on leaves nothing behind. -/
example :
    let host : Host Unit := fun _ _ => .call (.function breaksOff) .none fun _ => .done (.ok .nil)
    run host 7 (ofCall host (.new .standard (World.new ())) (.native ⟨⟨0⟩, "try", .host⟩) .none)
      = some (.ok .nil, .new .standard (World.new ())) := rfl

end RunState

end CallDecoration
