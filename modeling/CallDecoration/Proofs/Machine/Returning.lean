/-
  CallDecoration.Proofs.Machine.Returning
  ──────────────────────────────────────
  **When a call comes back.**  A call is made over whatever waits at that
  moment, and it has returned when an answer is handed to that for the first
  time (`Returns`).  Since a step does not look below what has been put on
  top, a call returns exactly as the same call made alone ends
  (`returns_enter_iff`).  So what holds of runs that end holds of every call
  that a host function or an instruction makes.
-/
import CallDecoration.Proofs.Machine.Suspension

namespace CallDecoration

variable {σ : Type}

namespace RunState

/-! ## §1. Returning. -/

/-- **From this state a run comes back** to what waits there: it hands the
answer `r` to it and leaves the machine `n`. -/
def Returns (host : Host σ) (s : RunState σ) (pending : List (Pending σ))
    (r : Except RunError Value) (n : Machine σ) : Prop :=
  ∃ k, (step host)^[k] s = ⟨.answer r, pending, n⟩
    ∧ ∀ j, j < k → ∀ r' n', (step host)^[j] s ≠ ⟨.answer r', pending, n'⟩

variable {host : Host σ} {floor : List Frame} {st : Settings} {below : List (Pending σ)}

/-! ## §2. Over what waits, and alone. -/

/-- A run of an action stays within that run. -/
theorem within_iterate {s : RunState σ} (h : Within floor st s) (k : Nat) :
    Within floor st ((step host)^[k] s) :=
  Reaches.preserves (fun _ => Within.step) ⟨k, rfl⟩ h

/-- **Until the run ends, it takes the same steps over more that waits.** -/
theorem iterate_deepened {s : RunState σ} (h : Within floor st s) {k : Nat}
    (hk : ∀ j, j < k → ((step host)^[j] s).result? = none) :
    (step host)^[k] (s.deepened below) = ((step host)^[k] s).deepened below := by
  induction k with
  | zero => rfl
  | succ k ih =>
      have hlast := hk k (Nat.lt_succ_self k)
      rw [Function.iterate_succ_apply', Function.iterate_succ_apply',
        ih fun j hj => hk j (Nat.lt_succ_of_lt hj)]
      exact step_deepened ((within_iterate h k).goes_on hlast)

/-- The state over more that waits hands an answer to it exactly when the
state itself has ended. -/
theorem deepened_eq_answer {s : RunState σ} {r : Except RunError Value} {n : Machine σ} :
    s.deepened below = ⟨.answer r, below, n⟩ ↔ s = ⟨.answer r, [], n⟩ := by
  obtain ⟨focus, pending, m⟩ := s
  constructor
  · intro h
    have hpending : pending ++ below = below := congrArg RunState.pending h
    have hnil : pending = [] := List.append_left_eq_self.mp hpending
    subst hnil
    change (⟨focus, below, m⟩ : RunState σ) = _ at h
    cases h
    rfl
  · intro h
    rw [h]
    rfl

/-- A run that ends has a first state in which it has. -/
theorem exists_first_result {s : RunState σ} {r : Except RunError Value} {n : Machine σ}
    (h : Reaches host s ⟨.answer r, [], n⟩) :
    ∃ k, (step host)^[k] s = ⟨.answer r, [], n⟩
      ∧ ∀ j, j < k → ((step host)^[j] s).result? = none := by
  obtain ⟨k, hk⟩ := h
  induction k generalizing s with
  | zero => exact ⟨0, hk, fun j hj => absurd hj (Nat.not_lt_zero j)⟩
  | succ k ih =>
      cases hs : s.result? with
      | some r' =>
          -- a run that has ended stays where it is
          obtain ⟨focus, pending, m⟩ := s
          obtain ⟨hfocus, hpending⟩ := result?_eq_some.mp hs
          dsimp only at hfocus hpending
          subst hfocus
          subst hpending
          rw [iterate_ended] at hk
          exact ⟨0, hk, fun j hj => absurd hj (Nat.not_lt_zero j)⟩
      | none =>
          rw [Function.iterate_succ_apply] at hk
          obtain ⟨k', hend, hbefore⟩ := ih hk
          refine ⟨k' + 1, by rw [Function.iterate_succ_apply, hend], fun j hj => ?_⟩
          match j with
          | 0 => exact hs
          | j + 1 =>
              rw [Function.iterate_succ_apply]
              exact hbefore j (Nat.lt_of_succ_lt_succ hj)

/-- **A run comes back to what waits exactly as it ends where nothing does.** -/
theorem returns_deepened_iff {s : RunState σ} {r : Except RunError Value} {n : Machine σ}
    (h : Within floor st s) :
    Returns host (s.deepened below) below r n ↔ Reaches host s ⟨.answer r, [], n⟩ := by
  constructor
  · rintro ⟨k, hk, hbefore⟩
    -- before the run comes back, the run alone has no result
    have hnone : ∀ j, j < k → ((step host)^[j] s).result? = none := by
      intro j
      induction j using Nat.strongRecOn with
      | ind j ih =>
          intro hj
          have hsame : (step host)^[j] (s.deepened below) = ((step host)^[j] s).deepened below :=
            iterate_deepened h fun i hi => ih i hi (by omega)
          cases hres : ((step host)^[j] s).result? with
          | none => rfl
          | some r' =>
              obtain ⟨hfocus, hpending⟩ := result?_eq_some.mp hres
              have hended : (step host)^[j] s = ⟨.answer r', [], ((step host)^[j] s).machine⟩ := by
                rw [← hfocus, ← hpending]
              exact absurd (hsame.trans (deepened_eq_answer.mpr hended)) (hbefore j hj _ _)
    rw [iterate_deepened h hnone] at hk
    exact ⟨k, deepened_eq_answer.mp hk⟩
  · intro hreach
    obtain ⟨k, hk, hbefore⟩ := exists_first_result hreach
    refine ⟨k, ?_, fun j hj r' n' hj' => ?_⟩
    · rw [iterate_deepened h hbefore]
      exact deepened_eq_answer.mpr hk
    · rw [iterate_deepened h fun i hi => hbefore i (Nat.lt_trans hi hj)] at hj'
      have hres := hbefore j hj
      rw [deepened_eq_answer.mp hj'] at hres
      cases hres

/-! ## §3. Calls. -/

theorem within_ofCall (callee : Value) (args : CallArgs) (vs : List Value) (w : World σ) :
    Within floor st (ofCall host (.of vs floor st w) callee args) :=
  Within.opens (opens_enter callee args) .start

theorem within_ofAction (a : Action σ Value) (vs : List Value) (w : World σ) :
    Within floor st (ofAction (.of vs floor st w) a) :=
  Within.action a vs w .start

/-- A call over what waits is the call alone, with that below it. -/
theorem enter_eq_deepened (focus : Focus σ) (m : Machine σ) (callee : Value) (args : CallArgs) :
    enter host callee args ⟨focus, below, m⟩ = (ofCall host m callee args).deepened below := by
  rw [ofCall, ← enter_deepened]
  cases callee <;> rfl

/-- **A call over what waits returns exactly as the call alone ends.** -/
theorem returns_enter_iff {focus : Focus σ} {m n : Machine σ} {callee : Value} {args : CallArgs}
    {r : Except RunError Value} :
    Returns host (enter host callee args ⟨focus, below, m⟩) below r n
      ↔ Reaches host (ofCall host m callee args) ⟨.answer r, [], n⟩ := by
  obtain ⟨vs, fs, st, w, rfl⟩ := Machine.exists_of m
  rw [enter_eq_deepened]
  exact returns_deepened_iff (within_ofCall callee args vs w)

/-! ## §4. Host functions that call. -/

section Hosts

variable {callee : Value} {args : CallArgs} {next : Except RunError Value → Action σ Value}
  {m n : Machine σ} {r answer : Except RunError Value}

/-- A host function goes on where its call has ended. -/
theorem reaches_called (h : Reaches host (ofCall host m callee args) ⟨.answer answer, [], n⟩) :
    Reaches host ⟨.action (.call callee args next), below, m⟩
      ⟨.action (next answer), below, n⟩ := by
  obtain ⟨k, hk, -⟩ := returns_enter_iff.mpr h
  exact .head rfl (Reaches.next ⟨k, hk⟩ (by cases answer <;> rfl))

/-- A host function does not end before its call has. -/
theorem exists_called (h : Reaches host ⟨.action (.call callee args next), [], m⟩
      ⟨.answer r, [], n⟩) :
    ∃ answer m', Reaches host (ofCall host m callee args) ⟨.answer answer, [], m'⟩ := by
  by_contra hends
  -- a call that never ends leaves what waits for it where it is
  have hentered : Reaches host
      (enter host callee args ⟨.action (.call callee args next), [.host next], m⟩)
      ⟨.answer r, [], n⟩ := (Reaches.one rfl).goes_on h
  obtain ⟨k, hk⟩ := hentered
  obtain ⟨vs, fs, st, w, rfl⟩ := Machine.exists_of m
  have hnone : ∀ j, j < k → ((step host)^[j] (ofCall host (.of vs fs st w) callee args)).result?
      = none := by
    intro j _
    refine Option.eq_none_iff_forall_ne_some.mpr fun answer hresult => hends ?_
    obtain ⟨hfocus, hpending⟩ := result?_eq_some.mp hresult
    exact ⟨answer, _, j, by rw [← hfocus, ← hpending]⟩
  rw [enter_eq_deepened, iterate_deepened (within_ofCall callee args vs w) hnone] at hk
  have hpending := congrArg RunState.pending hk
  exact List.append_ne_nil_of_right_ne_nil _ (List.cons_ne_nil _ _) hpending

/-- **A host function that calls ends as it goes on from the end of its call.** -/
theorem reaches_end_call_iff :
    Reaches host ⟨.action (.call callee args next), [], m⟩ ⟨.answer r, [], n⟩
      ↔ ∃ answer m', Reaches host (ofCall host m callee args) ⟨.answer answer, [], m'⟩
        ∧ Reaches host ⟨.action (next answer), [], m'⟩ ⟨.answer r, [], n⟩ := by
  constructor
  · intro h
    obtain ⟨answer, m', hcall⟩ := exists_called h
    exact ⟨answer, m', hcall, (reaches_called hcall).goes_on h⟩
  · rintro ⟨answer, m', hcall, hnext⟩
    exact (reaches_called hcall).trans hnext

/-- A host function that does nothing but call ends as its call does. -/
theorem reaches_end_call_done_iff :
    Reaches host (ofAction m (.call callee args .done)) ⟨.answer r, [], n⟩
      ↔ Reaches host (ofCall host m callee args) ⟨.answer r, [], n⟩ := by
  refine reaches_end_call_iff.trans ⟨?_, fun h => ⟨r, n, h, .one rfl⟩⟩
  rintro ⟨answer, m', hcall, hdone⟩
  obtain ⟨rfl, rfl⟩ := (Reaches.one rfl).end_eq hdone
  exact hcall

end Hosts

end RunState

end CallDecoration
