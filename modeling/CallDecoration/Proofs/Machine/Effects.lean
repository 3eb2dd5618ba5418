/-
  CallDecoration.Proofs.Machine.Effects
  ──────────────────────────────────────
  **What an instruction does is decided by its operands.**  When the operands
  of an instruction are on the stack, how it ends is one of five things
  (`Effect`), and which one depends on the operands, the running frame, the
  world, the settings and the two heights, but not on the values below the
  operands.  Such an instruction never fails with an underflow, so an
  instruction underflows exactly when the whole stack is too low for it
  (`execute_underflow_iff`).
-/
import CallDecoration.Proofs.Except
import CallDecoration.Proofs.Machine.Instructions

namespace CallDecoration

/-! ## §1. Effects. -/

/-- The second world is the first with other bindings. -/
def World.SameButBindings {σ : Type} (w w' : World σ) : Prop :=
  w' = { w with scopes := w'.scopes }

/-- How an instruction ends that has its operands. -/
inductive Effect (σ : Type) where
  /-- The frame goes on, with these values in place of the operands. -/
  | goes (out : List Value) (f : Frame) (w : World σ)
  /-- It fails, with these values left in place of the operands. -/
  | fails (e : RunError) (left : List Value)
  /-- A function is entered. -/
  | enters (g : Function Value) (locals : Array Value)
  /-- A value that is not run by bytecode is called. -/
  | calls (callee : Value) (args : CallArgs)
  /-- The frame ends. -/
  | returns (v : Value)

namespace Effect

variable {σ : Type}

/-- The machine after an effect of frame `f`, above the frames `fs` and the
values `rest`. -/
def apply (f : Frame) (fs : List Frame) (st : Settings) (w : World σ) (rest : List Value) :
    Effect σ → Except RunError Signal × Machine σ
  | goes out f' w' => (.ok .advance, .of (out ++ rest) (f' :: fs) st w')
  | fails e left => (.error e, .of (left ++ rest) (f :: fs) st w)
  | enters g locals => (.ok .advance, .of rest (⟨g, 0, rest.length, locals⟩ :: f :: fs) st w)
  | calls callee args => (.ok (.external callee args), .of rest (f :: fs) st w)
  | returns v => (.ok (.returned v), .of (rest.drop (rest.length - f.base)) fs st w)

/-- What every effect of a frame respects: the frame keeps its base, the world
changes in its bindings only, and no operand is missing. -/
def Respects (f : Frame) (w : World σ) : Effect σ → Prop
  | goes _ f' w' => f'.base = f.base ∧ w.SameButBindings w'
  | fails e _ => e ≠ .stackUnderflow
  | _ => True

end Effect

/-! ## §2. Operands that are there are not missed. -/

/-- **Errors that tell that there is nothing to go on with:** no operand, no
instruction or no frame. -/
def RunError.isFault : RunError → Bool
  | stackUnderflow | decode _ | endOfCode | noActiveFrame => true
  | _ => false

theorem RunError.ne_underflow {e : RunError} (h : e.isFault = false) : e ≠ .stackUnderflow := by
  rintro rfl
  cases h

theorem BinaryOp.isFault_apply {op : BinaryOp} {a b : Value} {e : RunError}
    (h : op.apply a b = .error e) : e.isFault = false := by
  have hexact : ∀ n : Int, exact n = .error e → e.isFault = false := by
    intro n hn
    unfold exact at hn
    cases hto : Text.toInt64? n <;> rw [hto] at hn <;> cases hn
    rfl
  unfold BinaryOp.apply at h
  split at h
  all_goals first
    | exact hexact _ h
    | cases h <;> rfl

theorem Machine.isFault_entriesOf {entries : Dict String Value} {operands : List Value}
    {e : RunError} (h : Machine.entriesOf entries operands = .error e) : e.isFault = false := by
  induction entries, operands using Machine.entriesOf.induct with
  | case1 entries name value rest ih =>
      rw [Machine.entriesOf] at h
      exact ih h
  | case2 entries name value rest hname =>
      rw [Machine.entriesOf] at h
      · cases h
        rfl
      · exact hname
  | case3 entries operands hpair hother =>
      rw [Machine.entriesOf] at h
      · cases h
      · exact hpair
      · exact hother

theorem Instruction.isFault_results {σ : Type} {i : Instruction} {f : Frame} {w : World σ}
    {ops : List Value} {e : RunError} (hops : ops.length = i.operands)
    (h : i.results f w ops = .error e) : e.isFault = false := by
  have hentry : ∀ (entry : Option Value) (e' : RunError), e'.isFault = false →
      entryOr entry e' = .error e → e.isFault = false := by
    intro entry e' he hr
    cases entry with
    | none =>
        cases hr
        exact he
    | some value => cases hr
  have hbinary : ∀ op : BinaryOp, ops.length = 2 → binary op ops = .error e →
      e.isFault = false := by
    intro op htwo hr
    obtain ⟨b, a, rfl⟩ := List.length_eq_two.mp htwo
    exact BinaryOp.isFault_apply (map_eq_error_iff.mp hr)
  -- `results` speaks of an underflow only where the number of operands is wrong
  cases i with
  | dup | not =>
      obtain ⟨x, rfl⟩ := List.length_eq_one_iff.mp hops
      cases h
  | swap =>
      obtain ⟨x, y, rfl⟩ := List.length_eq_two.mp hops
      cases h
  | rot3 =>
      obtain ⟨x, y, z, rfl⟩ := List.length_eq_three.mp hops
      cases h
  | pushConstant _ | loadLocal _ | loadCapture _ => exact hentry _ _ rfl h
  | storeLocal _ | storeGlobal _ =>
      dsimp only [results] at h
      split at h <;> cases h
      rfl
  | loadGlobal index =>
      dsimp only [results, globalOf] at h
      split at h
      · exact hentry _ _ rfl h
      · cases h
        rfl
  | buildDict count => exact Machine.isFault_entriesOf (map_eq_error_iff.mp h)
  | unpackSequence count =>
      obtain ⟨x, rfl⟩ := List.length_eq_one_iff.mp hops
      cases x with
      | tuple items =>
          dsimp only [results, unpacked] at h
          split at h <;> cases h
          rfl
      | _ =>
          cases h
          rfl
  | add | sub | mul | lt | eq => exact hbinary _ hops h
  | _ => cases h

theorem isFault_addKeyword {callee : Value} {keyword : Dict String Value} {name : String}
    {value : Value} {e : RunError} (h : addKeyword callee keyword name value = .error e) :
    e.isFault = false := by
  unfold addKeyword at h
  split at h <;> cases h
  rfl

/-- Enough operands for all pairs of name and value leave those behind them. -/
theorem takeKeywords_length (callee : Value) (count : Nat) (keyword : Dict String Value)
    (operands : List Value) (h : 2 * count ≤ operands.length) :
    (∃ keyword' operands', takeKeywords callee count keyword operands = .ok (keyword', operands')
        ∧ operands'.length = operands.length - 2 * count)
      ∨ ∃ e, takeKeywords callee count keyword operands = .error e ∧ e.isFault = false := by
  induction count generalizing keyword operands with
  | zero => exact Or.inl ⟨keyword, operands, rfl, rfl⟩
  | succ count ih =>
      match operands, h with
      | [], h => simp at h
      | [x], h =>
          simp only [List.length_singleton] at h
          omega
      | name :: value :: operands, h =>
          simp only [List.length_cons] at h ⊢
          cases name with
          | str name =>
              simp only [takeKeywords]
              cases hadd : addKeyword callee keyword name value with
              | error e => exact Or.inr ⟨e, rfl, isFault_addKeyword hadd⟩
              | ok keyword' =>
                  rcases ih keyword' operands (by omega) with
                    ⟨k, o, htake, hlen⟩ | ⟨e, htake, he⟩
                  · exact Or.inl ⟨k, o, htake, by omega⟩
                  · exact Or.inr ⟨e, htake, he⟩
          | _ => exact Or.inr ⟨_, rfl, rfl⟩

theorem takeTuple_length (present : Bool) (operands : List Value)
    (h : present.toNat ≤ operands.length) :
    (∃ items operands', takeTuple present operands = .ok (items, operands')
        ∧ operands'.length = operands.length - present.toNat)
      ∨ ∃ e, takeTuple present operands = .error e ∧ e.isFault = false := by
  cases present with
  | false => exact Or.inl ⟨[], operands, rfl, rfl⟩
  | true =>
      match operands, h with
      | [], h => simp at h
      | x :: rest, h =>
          cases x with
          | tuple items => exact Or.inl ⟨items, rest, rfl, rfl⟩
          | _ => exact Or.inr ⟨_, rfl, rfl⟩

theorem isFault_addEntries {callee : Value} {keyword : Dict String Value}
    {entries : List (String × Value)} {e : RunError}
    (h : addEntries callee keyword entries = .error e) : e.isFault = false := by
  induction entries generalizing keyword with
  | nil => cases h
  | cons entry rest ih =>
      rcases bind_eq_error_iff.mp h with hadd | ⟨keyword', -, hrest⟩
      · exact isFault_addKeyword hadd
      · exact ih hrest

theorem isFault_takeDict {callee : Value} {present : Bool} {keyword : Dict String Value}
    {operands : List Value} {e : RunError} (hops : present.toNat ≤ operands.length)
    (h : takeDict callee present keyword operands = .error e) : e.isFault = false := by
  cases present with
  | false => cases h
  | true =>
      match operands, hops with
      | [], hops => simp at hops
      | x :: rest, hops =>
          cases x with
          | dict entries => exact isFault_addEntries h
          | _ =>
              cases h
              rfl

/-- **As many operands as a call's shape tells are enough for it.** -/
theorem isFault_collectArgs {callee : Value} {shape : CallShape} {operands : List Value}
    {e : RunError} (hops : operands.length = shape.slots)
    (h : collectArgs callee shape operands = .error e) : e.isFault = false := by
  unfold CallShape.slots at hops
  simp only [collectArgs] at h
  rcases takeKeywords_length callee shape.keyword.toNat []
      (operands.drop shape.positional.toNat) (by rw [List.length_drop]; omega) with
    ⟨keyword, rest, htake, hlen⟩ | ⟨e', htake, he⟩
  · rw [List.length_drop] at hlen
    rw [htake] at h
    rcases takeTuple_length shape.varPositional rest (by omega) with
      ⟨items, rest', htuple, hlen'⟩ | ⟨e', htuple, he⟩
    · simp only [bind, Except.bind, htuple] at h
      cases hdict : takeDict callee shape.varKeyword keyword rest' with
      | error e' =>
          rw [hdict] at h
          cases h
          exact isFault_takeDict (by omega) hdict
      | ok keyword' =>
          rw [hdict] at h
          cases h
    · simp only [bind, Except.bind, htuple] at h
      cases h
      exact he
  · rw [htake] at h
    cases h
    exact he

theorem Machine.isFault_admission {g : Function Value} {args : CallArgs} {depth : Nat}
    {st : Settings} {e : RunError} (h : admission g args depth st = .error e) :
    e.isFault = false := by
  unfold admission Function.bindArguments at h
  split at h
  · split at h <;> cases h
    rfl
  · cases h
    rfl

/-! ## §3. Every instruction with its operands has an effect. -/

namespace Machine

variable {σ : Type} {f : Frame} {fs : List Frame} {st : Settings} {w : World σ} {height : Nat}

theorem worldAfter_same (i : Instruction) (f : Frame) (w : World σ) (ops : List Value) :
    w.SameButBindings (i.worldAfter f w ops) := by
  unfold Instruction.worldAfter
  split
  · split <;> rfl
  · rfl

/-- The effect of an instruction that neither calls nor returns. -/
theorem execute_effect_plain {i : Instruction} {ops : List Value} (hi : i.isPlain = true)
    (hops : ops.length = i.operands) :
    ∃ eff : Effect σ, eff.Respects f w ∧ ∀ rest : List Value, rest.length = height →
      execute i (of (ops ++ rest) (f :: fs) st w) = eff.apply f fs st w rest := by
  cases hr : i.results f w ops with
  | error e =>
      exact ⟨.fails e [], RunError.ne_underflow (Instruction.isFault_results hops hr),
        fun rest _ => execute_error hi hops hr⟩
  | ok out =>
      -- whether the results fit depends on the height below the operands alone
      by_cases hroom : i.Fits st (List.replicate height Value.nil) out
      · refine ⟨.goes out (i.frameAfter f ops) (i.worldAfter f w ops),
          ⟨i.frameAfter_base f ops, worldAfter_same i f w ops⟩,
          fun rest hrest => execute_ok hi hops hr ?_⟩
        unfold Instruction.Fits at hroom ⊢
        rw [List.length_replicate, ← hrest] at hroom
        exact hroom
      · obtain ⟨junk, _, hjunk⟩ := execute_full fs hi hops hr hroom
        refine ⟨.fails .valueStackOverflow junk, (by intro h; cases h), fun rest hrest => ?_⟩
        exact hjunk rest (by rw [hrest, List.length_replicate])

/-- The effect of a call. -/
theorem execute_effect_call {shape : CallShape} {ops : List Value}
    (hops : ops.length = shape.slots + 1) :
    ∃ eff : Effect σ, eff.Respects f w ∧ ∀ rest : List Value, rest.length = height →
      execute (.call shape) (of (ops ++ rest) (f :: fs) st w) = eff.apply f fs st w rest := by
  obtain ⟨given, callee, rfl⟩ : ∃ given callee, ops = given ++ [callee] := by
    have hne : ops ≠ [] := by
      intro hnil
      subst hnil
      simp at hops
    exact ⟨ops.dropLast, ops.getLast hne, (List.dropLast_append_getLast hne).symm⟩
  have hgiven : given.length = shape.slots := by simpa using hops
  have hsplit : ∀ rest : List Value, given ++ [callee] ++ rest = given ++ callee :: rest := by
    intro rest
    rw [List.append_assoc, List.singleton_append]
  cases hargs : collectArgs callee shape given.reverse with
  | error e =>
      have hops' : given.reverse.length = shape.slots := by rw [List.length_reverse, hgiven]
      refine ⟨.fails e [], RunError.ne_underflow (isFault_collectArgs hops' hargs), fun rest _ => ?_⟩
      rw [hsplit]
      exact execute_call_refused hgiven hargs
  | ok args =>
      cases hcallee : callee.entered? args with
      | none =>
          refine ⟨.calls callee args, trivial, fun rest _ => ?_⟩
          rw [hsplit]
          exact execute_call_external hgiven hargs hcallee
      | some entered =>
          obtain ⟨g, args'⟩ := entered
          cases hslots : admission g args' (f :: fs).length st with
          | error e =>
              refine ⟨.fails e [], RunError.ne_underflow (isFault_admission hslots), fun rest _ => ?_⟩
              rw [hsplit, execute_call_entered hgiven hargs hcallee]
              exact andAdvance_error (enterFrame_refused hslots)
          | ok locals =>
              refine ⟨.enters g locals, trivial, fun rest _ => ?_⟩
              rw [hsplit, execute_call_entered hgiven hargs hcallee]
              exact andAdvance_ok (enterFrame_of hslots)

/-- **The effect of an instruction is decided by its operands:** it is the same
over whatever values lie below them, as long as these are as many. -/
theorem execute_effect (f : Frame) (fs : List Frame) (st : Settings) (w : World σ)
    (height : Nat) (i : Instruction) (ops : List Value) (hops : ops.length = i.operands) :
    ∃ eff : Effect σ, eff.Respects f w ∧ ∀ rest : List Value, rest.length = height →
      execute i (of (ops ++ rest) (f :: fs) st w) = eff.apply f fs st w rest := by
  by_cases hi : i.isPlain = true
  · exact execute_effect_plain hi hops
  · cases i with
    | call shape => exact execute_effect_call hops
    | «return» =>
        obtain ⟨v, rfl⟩ := List.length_eq_one_iff.mp hops
        exact ⟨.returns v, trivial, fun rest _ => execute_return⟩
    | _ => exact absurd rfl hi

/-- **An instruction underflows exactly when the whole stack is too low for
it,** whichever frames its values belong to. -/
theorem execute_underflow_iff (i : Instruction) (vs : List Value) :
    (execute i (of vs (f :: fs) st w)).1 = .error .stackUnderflow ↔ vs.length < i.operands := by
  constructor
  · intro h
    by_cases hlow : vs.length < i.operands
    · exact hlow
    · exfalso
      obtain ⟨ops, rest, rfl, hops⟩ := exists_taken hlow
      obtain ⟨eff, hresp, heff⟩ := execute_effect f fs st w rest.length i ops hops
      rw [heff rest rfl] at h
      cases eff with
      | fails e left =>
          cases h
          exact hresp rfl
      | _ => cases h
  · intro hlow
    rw [execute_short hlow]

end Machine

end CallDecoration
