/-
  CallDecoration.Proofs.Machine.Stepping
  ──────────────────────────────────────
  **Stepping agrees with decoding whole bodies.**  A frame decodes the
  instruction at its offset when it is about to execute it, and that a jump
  lands where an instruction begins is only checked when a whole body is
  decoded.  In a run that calls no body but such as decode, the two agree all
  the same (`FollowsBodies`): every frame, running or suspended, stands on an
  instruction of its decoded body or at the end.

  What carries this is where a frame comes from (`Move.frames`): it has just
  been entered, or it has executed an instruction and has not been left since
  (`Executes`).
-/
import CallDecoration.Proofs.Bytecode.Bodies
import CallDecoration.Proofs.Machine.Errors
import CallDecoration.Proofs.Machine.Returning

namespace CallDecoration

variable {σ : Type}

/-! ## §1. Standing on a body. -/

/-- **A frame stands on its body:** the body decodes, and the frame is where one
of the decoded instructions begins, or at the end. -/
def Frame.Stands (f : Frame) : Prop :=
  ∃ rows, decode f.function.body.code = .ok rows
    ∧ (f.ip = f.function.body.code.size ∨ ∃ i, (f.ip, i) ∈ rows)

section Rows

variable {f f' : Frame} {i : Instruction} {next : Nat} {rows : List (Nat × Instruction)}

/-- The instruction that is fetched is the one that the decoded body has there. -/
theorem Frame.fetches_row (hdecode : decode f.function.body.code = .ok rows)
    (hstands : f.ip = f.function.body.code.size ∨ ∃ j, (f.ip, j) ∈ rows)
    (hfetch : Machine.fetch f = .ok (i, next)) : (f.ip, i) ∈ rows := by
  have hat := Machine.decodeAt_of_fetch hfetch
  rcases hstands with hend | ⟨j, hmem⟩
  · rw [hend] at hat
    exact absurd hat decodeAt_size
  · obtain ⟨_, _, _, _, hrow, _⟩ := (rows_of_decode hdecode).split hmem
    rw [hat] at hrow
    cases hrow
    exact hmem

/-- **Executing an instruction keeps a frame on its body:** what comes next, and
the target of a jump, is a row again or the end. -/
theorem Frame.Executed.stands (h : f.Executed f' i next)
    (hdecode : decode f.function.body.code = .ok rows) (hmem : (f.ip, i) ∈ rows) :
    f'.ip = f.function.body.code.size ∨ ∃ j, (f'.ip, j) ∈ rows := by
  obtain ⟨hrows, haligned⟩ := decode_eq_ok.mp hdecode
  obtain ⟨before, after, next', hsplit, hrow, hafter⟩ := hrows.split hmem
  rw [Machine.decodeAt_of_fetch h.fetched] at hrow
  cases hrow
  rcases h.ip with hnext | htarget
  · rw [hnext]
    rcases hafter.begins with hend | ⟨j, hj⟩
    · exact Or.inl hend
    · refine Or.inr ⟨j, ?_⟩
      rw [hsplit]
      exact List.mem_append_right before (List.mem_cons_of_mem _ hj)
  · exact Or.inr (haligned _ hmem _ htarget)

/-- **Only the last instruction leads to the end.** -/
theorem Frame.Executed.last (h : f.Executed f' i next)
    (hdecode : decode f.function.body.code = .ok rows) (hmem : (f.ip, i) ∈ rows)
    (hend : f'.ip = f.function.body.code.size) : rows.getLast? = some (f.ip, i) := by
  have hrows := rows_of_decode hdecode
  obtain ⟨before, after, next', hsplit, hrow, hafter⟩ := hrows.split hmem
  rw [Machine.decodeAt_of_fetch h.fetched] at hrow
  cases hrow
  rcases h.ip with hnext | htarget
  · rw [← hnext, hend] at hafter
    rw [hsplit, hafter.eq_nil]
    exact List.getLast?_concat
  · -- a jump stays inside the code
    have hwritten := hrows.isWritten hmem
    have hlt : f'.ip < f.function.body.code.size := by
      cases i with
      | jump target =>
          cases htarget
          exact hwritten
      | jumpIfFalse target =>
          cases htarget
          exact hwritten
      | _ => cases htarget
    omega

end Rows

namespace RunState

variable {host : Host σ} {s t : RunState σ} {f : Frame} {fs : List Frame}

/-! ## §2. Where frames come from. -/

/-- The frames below, or one that has been entered. -/
theorem Opens.frames {pending : List (Pending σ)} {vs : List Value} {below : List Frame}
    {st : Settings} {w : World σ} {callee : Value} {args : CallArgs}
    (h : Opens host pending vs below st w callee args t)
    (hf : f :: fs <:+ t.machine.frames.items) : f :: fs <:+ below ∨ f.ip = 0 := by
  cases h with
  | activates hcallee hslots =>
      rcases List.suffix_cons_iff.mp hf with heq | hf
      · cases heq
        exact Or.inr rfl
      · exact Or.inl hf
  | acts => exact Or.inl hf
  | answers => exact Or.inl hf

theorem Resumes.frames {pending : List (Pending σ)} {vs : List Value} {below : List Frame}
    {st : Settings} {w : World σ} {v : Value} (h : Resumes pending vs below st w v t) :
    t.machine.frames.items = below := by
  cases h <;> rfl

/-- **The running frame is about to execute an instruction** after which it is
`f`, over the frames `fs`. -/
def Makes (s : RunState σ) (f : Frame) (fs : List Frame) : Prop :=
  ∃ f₀ i next, s.upcoming? = some (f₀, i) ∧ s.machine.frames.items = f₀ :: fs
    ∧ f₀.Executed f i next

theorem Makes.of_executed {pending : List (Pending σ)} {vs : List Value} {f₀ f' : Frame}
    {below : List Frame} {st : Settings} {w : World σ} {i : Instruction} {next : Nat}
    (h : f₀.Executed f' i next) (hf : f :: fs <:+ f' :: below) :
    f :: fs <:+ f₀ :: below
      ∨ Makes (⟨.bytecode, pending, .of vs (f₀ :: below) st w⟩ : RunState σ) f fs := by
  rcases List.suffix_cons_iff.mp hf with heq | hf
  · cases heq
    exact Or.inr ⟨f₀, i, next, upcoming?_of h.fetched, rfl, h⟩
  · exact Or.inl (hf.trans (List.suffix_cons f₀ below))

/-- **Where the frames of a state come from:** a frame was there before, or it
is the running frame, which has executed an instruction, or it has just been
entered. -/
theorem Move.frames (h : Move host s t) (hf : f :: fs <:+ t.machine.frames.items) :
    f :: fs <:+ s.machine.frames.items ∨ s.Makes f fs ∨ f.ip = 0 := by
  cases h with
  | fails hx hcause hheight => exact (Makes.of_executed hx hf).imp_right Or.inl
  | advances hx hheight => exact (Makes.of_executed hx hf).imp_right Or.inl
  | enters hx hslots hheight =>
      rcases List.suffix_cons_iff.mp hf with heq | hf
      · cases heq
        exact Or.inr (Or.inr rfl)
      · exact (Makes.of_executed hx hf).imp_right Or.inl
  | calls hx hcallee hheight hcall =>
      rcases hcall.frames hf with hf | hnew
      · exact (Makes.of_executed hx hf).imp_right Or.inl
      · exact Or.inr (Or.inr hnew)
  | leaves => exact Or.inl (hf.trans (List.suffix_cons _ _))
  | returns hpending hheight hresume =>
      rw [hresume.frames] at hf
      exact Or.inl (hf.trans (List.suffix_cons _ _))
  | requests hcall => exact (hcall.frames hf).imp_right Or.inr
  | resumes hresume =>
      rw [hresume.frames] at hf
      exact Or.inl hf
  | @unwinds _ _ floor base m =>
      obtain ⟨vs, frames, st, w, rfl⟩ := Machine.exists_of m
      change f :: fs <:+ (Machine.unwind floor base _).frames.items at hf
      rw [Machine.unwind_of] at hf
      exact Or.inl (hf.trans (List.drop_suffix _ _))
  | _ => exact Or.inl hf

/-! ## §3. The last instruction of a frame. -/

/-- **After `k` steps, the frame `f` over `fs` is what executing `i` has made of
it** when it was `f₀`, after `j` steps, and it has not been left since. -/
structure Executes (host : Host σ) (s : RunState σ) (k : Nat) (f : Frame) (fs : List Frame)
    (j : Nat) (f₀ : Frame) (i : Instruction) : Prop where
  before : j < k
  upcoming : ((step host)^[j] s).upcoming? = some (f₀, i)
  frames : ((step host)^[j] s).machine.frames.items = f₀ :: fs
  executed : ∃ next, f₀.Executed f i next
  kept : ∀ l, j < l → l ≤ k → fs.length < ((step host)^[l] s).machine.frames.height

theorem height_lt_of_suffix {m : Machine σ} (h : f :: fs <:+ m.frames.items) :
    fs.length < m.frames.height := by
  have hlen := h.length_le
  rw [List.length_cons, ← Stack.height_eq_length] at hlen
  omega

/-- **Every frame has just been entered or has executed an instruction last.** -/
theorem executes_or_entered (hs : ∀ f ∈ s.machine.frames.items, f.ip = 0) (k : Nat)
    (hf : f :: fs <:+ ((step host)^[k] s).machine.frames.items) :
    f.ip = 0 ∨ ∃ j f₀ i, Executes host s k f fs j f₀ i := by
  induction k with
  | zero => exact Or.inl (hs f (hf.subset List.mem_cons_self))
  | succ k ih =>
      have hheight := height_lt_of_suffix hf
      rw [Function.iterate_succ_apply'] at hf
      rcases (move_step host ((step host)^[k] s)).frames hf with
        hold | ⟨f₀, i, next, hup, hfs, hx⟩ | hnew
      · -- nothing has happened to the frame, and it is still there
        refine (ih hold).imp_right ?_
        rintro ⟨j, f₀, i, hexec⟩
        refine ⟨j, f₀, i, by have := hexec.before; omega, hexec.upcoming, hexec.frames,
          hexec.executed, fun l hj hl => ?_⟩
        rcases Nat.le_succ_iff.mp hl with hl | rfl
        · exact hexec.kept l hj hl
        · exact hheight
      · refine Or.inr ⟨k, f₀, i, Nat.lt_succ_self k, hup, hfs, ⟨next, hx⟩, fun l hj hl => ?_⟩
        have hlast : l = k + 1 := by omega
        rw [hlast]
        exact hheight
      · exact Or.inl hnew

/-- **Frames stand on their bodies,** whatever else happens in the run. -/
theorem stands_iterate (hs : ∀ f ∈ s.machine.frames.items, f.ip = 0) (k : Nat)
    (hf : f :: fs <:+ ((step host)^[k] s).machine.frames.items)
    {rows : List (Nat × Instruction)} (hdecode : decode f.function.body.code = .ok rows) :
    f.ip = f.function.body.code.size ∨ ∃ i, (f.ip, i) ∈ rows := by
  -- the frame stood on its body when it executed its last instruction
  induction k using Nat.strongRecOn generalizing f fs with
  | ind k ih =>
      rcases executes_or_entered hs k hf with hnew | ⟨j, f₀, i, hexec⟩
      · rw [hnew]
        exact (rows_of_decode hdecode).begins
      · obtain ⟨next, hx⟩ := hexec.executed
        rw [hx.function] at hdecode ⊢
        have hrunning : f₀ :: fs <:+ ((step host)^[j] s).machine.frames.items :=
          ⟨[], hexec.frames.symm⟩
        have hbefore := ih j hexec.before hrunning hdecode
        exact hx.stands hdecode (Frame.fetches_row hdecode hbefore hx.fetched)

/-- The instruction that a frame has executed last is a row of its body. -/
theorem Executes.row (hs : ∀ f ∈ s.machine.frames.items, f.ip = 0) {k j : Nat} {f₀ : Frame}
    {i : Instruction} (h : Executes host s k f fs j f₀ i) {rows : List (Nat × Instruction)}
    (hdecode : decode f₀.function.body.code = .ok rows) : (f₀.ip, i) ∈ rows := by
  obtain ⟨next, hx⟩ := h.executed
  have hrunning : f₀ :: fs <:+ ((step host)^[j] s).machine.frames.items :=
    ⟨[], h.frames.symm⟩
  exact Frame.fetches_row hdecode (stands_iterate hs j hrunning hdecode) hx.fetched

/-! ## §4. Runs whose bodies decode. -/

/-- **Every body that a run calls decodes.** -/
def BodiesDecode (host : Host σ) (s : RunState σ) : Prop :=
  ∀ t, Reaches host s t → ∀ f ∈ t.machine.frames.items,
    ∃ rows, decode f.function.body.code = .ok rows

/-- **What stepping has in common with decoding whole bodies,** in the run that
begins in `s`. -/
structure FollowsBodies (host : Host σ) (s : RunState σ) : Prop where
  /-- Every frame of every state is where an instruction of its decoded body
  begins, or at the end. -/
  stands : ∀ t, Reaches host s t → ∀ f ∈ t.machine.frames.items, f.Stands
  /-- The instruction that is executed is the one of the decoded body. -/
  executes : ∀ t f i, Reaches host s t → t.upcoming? = some (f, i) →
    ∃ rows, decode f.function.body.code = .ok rows ∧ (f.ip, i) ∈ rows
  /-- No instruction fails to decode. -/
  decodes : Unraised host s fun e => ∃ cause, e = .decode cause
  /-- Control is past the end of a body only if the body is empty, or the
  last instruction that the frame has executed is the last of its body. -/
  ends : ∀ k f fs, ((step host)^[k] s).focus = .bytecode →
    ((step host)^[k] s).machine.frames.items = f :: fs →
    (Machine.stepFrame ((step host)^[k] s).machine).1 = .error .endOfCode →
    ∃ rows, decode f.function.body.code = .ok rows
      ∧ (rows = [] ∨ ∃ j f₀ i, Executes host s k f fs j f₀ i
          ∧ rows.getLast? = some (f₀.ip, i))

section Bodies

variable {m : Machine σ} {callee : Value} {args : CallArgs}

/-- The frame with which a run begins has just been entered. -/
theorem entered_ofCall (host : Host σ) (callee : Value) (args : CallArgs)
    (hm : m.frames = .empty) :
    ∀ f ∈ (ofCall host m callee args).machine.frames.items, f.ip = 0 := by
  intro f hf
  obtain ⟨vs, fs, st, w, rfl⟩ := Machine.exists_of m
  have hnil : fs = [] := congrArg Stack.items hm
  subst hnil
  obtain ⟨before, after, hsplit⟩ := List.append_of_mem hf
  have hsuffix : f :: after <:+ (ofCall host (.of vs [] st w) callee args).machine.frames.items :=
    ⟨before, hsplit.symm⟩
  rcases (opens_enter callee args).frames hsuffix with hbelow | hnew
  · have hlen := hbelow.length_le
    cases hlen
  · exact hnew

theorem unexecuted_decode : Unexecuted fun e => ∃ cause, e = .decode cause := by
  rintro e ⟨cause, rfl⟩
  exact ⟨rfl, by simp⟩

theorem unexecuted_endOfCode : Unexecuted (· = .endOfCode) := by
  rintro e rfl
  exact ⟨rfl, by simp⟩

theorem unexecuted_noActiveFrame : Unexecuted (· = .noActiveFrame) := by
  rintro e rfl
  exact ⟨rfl, by simp⟩

/-- A frame that stands on its body fetches an instruction unless it is at the
end. -/
theorem fetch_of_stands {e : RunError} (hstands : f.Stands)
    (hfetch : Machine.fetch f = .error e) :
    e = .endOfCode ∧ f.ip = f.function.body.code.size := by
  obtain ⟨rows, hdecode, hend | ⟨i, hmem⟩⟩ := hstands
  · rw [Machine.fetch_end hend] at hfetch
    cases hfetch
    exact ⟨rfl, hend⟩
  · obtain ⟨_, _, next, _, hrow, _⟩ := (rows_of_decode hdecode).split hmem
    rw [Machine.fetch_of hrow] at hfetch
    cases hfetch

theorem followsBodies_of_bodiesDecode (hm : m.frames = .empty)
    (hbodies : BodiesDecode host (ofCall host m callee args)) :
    FollowsBodies host (ofCall host m callee args) := by
  have hentered := entered_ofCall host callee args hm
  have hstands : ∀ t, Reaches host (ofCall host m callee args) t →
      ∀ f ∈ t.machine.frames.items, f.Stands := by
    rintro t ⟨k, rfl⟩ f hf
    obtain ⟨rows, hdecode⟩ := hbodies _ ⟨k, rfl⟩ f hf
    obtain ⟨before, after, hsplit⟩ := List.append_of_mem hf
    exact ⟨rows, hdecode, stands_iterate hentered k ⟨before, hsplit.symm⟩ hdecode⟩
  -- so a frame fetches a row or is at the end, and never fails to decode what it fetches
  refine ⟨hstands, fun t f i hreach hup => ?_, ?_, fun k f fs hfocus hframes hfails => ?_⟩
  · obtain ⟨pending, next, vs, fs, st, w, rfl, hfetch⟩ := upcoming?_eq_some hup
    obtain ⟨rows, hdecode, hat⟩ := hstands _ hreach f List.mem_cons_self
    exact ⟨rows, hdecode, Frame.fetches_row hdecode hat hfetch⟩
  · refine unraised_of_not_arises unexecuted_decode ?_
    rintro e ⟨cause, rfl⟩ ⟨t, hreach, hfocus, hfails⟩
    rcases stepFrame_unexecuted unexecuted_decode ⟨cause, rfl⟩ hfails with
      ⟨_, hnone⟩ | ⟨f, fs, hframes, hfetch⟩
    · cases hnone
    · have hmem : f ∈ t.machine.frames.items := by
        rw [hframes]
        exact List.mem_cons_self
      cases (fetch_of_stands (hstands t hreach f hmem) hfetch).1
  · have hsuffix : f :: fs <:+ ((step host)^[k] (ofCall host m callee args)).machine.frames.items :=
      ⟨[], hframes.symm⟩
    have hmem := hsuffix.subset List.mem_cons_self
    have hend : f.ip = f.function.body.code.size := by
      rcases stepFrame_unexecuted unexecuted_endOfCode rfl hfails with
        ⟨_, hnone⟩ | ⟨f', fs', hframes', hfetch⟩
      · cases hnone
      · rw [hframes] at hframes'
        cases hframes'
        exact (fetch_of_stands (hstands _ ⟨k, rfl⟩ f hmem) hfetch).2
    obtain ⟨rows, hdecode⟩ := hbodies _ ⟨k, rfl⟩ f hmem
    refine ⟨rows, hdecode, ?_⟩
    rcases executes_or_entered hentered k hsuffix with hnew | ⟨j, f₀, i, hexec⟩
    · -- a frame that has just been entered is at the end of an empty body
      have hrows := rows_of_decode hdecode
      rw [← hnew, hend] at hrows
      exact Or.inl hrows.eq_nil
    · refine Or.inr ⟨j, f₀, i, hexec, ?_⟩
      obtain ⟨next, hx⟩ := hexec.executed
      rw [hx.function] at hdecode hend
      exact hx.last hdecode (hexec.row hentered hdecode) hend

end Bodies

/-! ## §5. Runs never lack a frame. -/

/-- **No instruction is executed without a frame,** whatever is called. -/
theorem not_arises_noActiveFrame (m : Machine σ) (callee : Value) (args : CallArgs) :
    ¬ Arises host (ofCall host m callee args) .noActiveFrame := by
  rintro ⟨t, hreach, hfocus, hfails⟩
  obtain ⟨vs, fs, st, w, rfl⟩ := Machine.exists_of m
  have hwithin : Within fs st t :=
    Reaches.preserves (fun _ => Within.step) hreach (within_ofCall callee args vs w)
  obtain ⟨focus, pending, n⟩ := t
  cases hfocus
  obtain ⟨f, rest, hframes⟩ := hwithin.code.exists_frame
  rcases stepFrame_unexecuted unexecuted_noActiveFrame rfl hfails with
    ⟨hnil, _⟩ | ⟨f', _, _, hfetch⟩
  · rw [hframes] at hnil
    cases hnil
  · rcases Machine.fetch_error hfetch with ⟨hcause, _⟩ | ⟨_, hcause, _⟩
    · cases hcause
    · cases hcause

/-- **Stepping agrees with decoding whole bodies** in every run from rest in
which all bodies decode, and no run at all has an instruction to execute
without a frame. -/
theorem stepping_agrees_with_decode (host : Host σ) (m : Machine σ) (callee : Value)
    (args : CallArgs) :
    (m.frames = .empty → BodiesDecode host (ofCall host m callee args) →
        FollowsBodies host (ofCall host m callee args))
      ∧ Unraised host (ofCall host m callee args) (· = .noActiveFrame) := by
  refine ⟨followsBodies_of_bodiesDecode, unraised_of_not_arises unexecuted_noActiveFrame ?_⟩
  rintro e rfl
  exact not_arises_noActiveFrame m callee args

/-- A run that has ended calls no more bodies. -/
theorem bodiesDecode_of_ended {n : Nat} (hended : ((step host)^[n] s).result?.isSome = true)
    (hbodies : ∀ k, k < n → ((step host)^[k] s).machine.frames.items.all
      (fun f => (decode f.function.body.code).isOk) = true)
    (hlast : ((step host)^[n] s).machine.frames.items = []) : BodiesDecode host s := by
  rintro t ⟨k, rfl⟩ f hf
  by_cases hk : k < n
  · have hok := List.all_eq_true.mp (hbodies k hk) f hf
    cases hdecode : decode f.function.body.code with
    | ok rows => exact ⟨rows, rfl⟩
    | error e =>
        rw [hdecode] at hok
        cases hok
  · exfalso
    obtain ⟨r, hr⟩ := Option.isSome_iff_exists.mp hended
    obtain ⟨hfocus, hpending⟩ := result?_eq_some.mp hr
    have hend : (step host)^[n] s = ⟨.answer r, [], ((step host)^[n] s).machine⟩ := by
      rw [← hfocus, ← hpending]
    have hsplit : (step host)^[k] s = (step host)^[k - n] ((step host)^[n] s) := by
      rw [← Function.iterate_add_apply, Nat.sub_add_cancel (Nat.le_of_not_lt hk)]
    rw [hsplit, hend, iterate_ended, hlast] at hf
    cases hf

/-- A function that jumps over a part of its body. -/
def jumpsForward : Function Value :=
  ⟨⟨1⟩, "f", ⟨"f", encode [.pushFalse, .jumpIfFalse 6, .pushTrue, .return, .pushNil, .return],
    #[], #[], Signature.none, 0⟩, ⟨⟨0⟩, "m"⟩, [], [], #[]⟩

theorem stepping_agrees_with_decode_jumpsForward :
    BodiesDecode (fun _ _ => .done (.ok .nil))
        (ofCall (fun _ _ => .done (.ok .nil)) (.new .standard (World.new ()))
          (.function jumpsForward) .none)
      ∧ FollowsBodies (fun _ _ => .done (.ok .nil))
        (ofCall (fun _ _ => .done (.ok .nil)) (.new .standard (World.new ()))
          (.function jumpsForward) .none) := by
  have hbodies : BodiesDecode (fun _ _ => .done (.ok .nil))
      (ofCall (fun _ _ => .done (.ok .nil)) (.new .standard (World.new ()))
        (.function jumpsForward) .none) := by
    refine bodiesDecode_of_ended (n := 4) rfl ?_ rfl
    decide
  exact ⟨hbodies, (stepping_agrees_with_decode _ _ _ _).1 rfl hbodies⟩

end RunState

end CallDecoration
