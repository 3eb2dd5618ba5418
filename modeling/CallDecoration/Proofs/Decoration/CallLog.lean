/-
  CallDecoration.Proofs.Decoration.CallLog
  ──────────────────────────────────────
  **Logs of calls.**  What is noted of one call of a decorated program is an
  application of each wrapper and the call itself, or a call of a function that
  carries the wrapper from the start, or an application of another host
  function, or nothing (`CallNoted`).  In a log made of such pieces the
  arguments of each wrapper are the called functions, by name and in order
  (`FollowsCalls.argumentsOf?`).
-/
import CallDecoration.Proofs.Decoration.Programs

namespace CallDecoration

variable {σ : Type}

/-! ## §1. Pieces of a log. -/

/-- The function that a flagged frame calls, unless it carries the wrapper from
the start. -/
def Event.called? (carried : FunctionId → Bool) : Event → Option (Function Value)
  | .called g => if carried g.id then none else some g
  | .applied _ _ => none

/-- The arguments to which `n` is applied. -/
def Event.argumentsOf? (n : Native Value) : Event → Option CallArgs
  | .applied m args => if m.id = n.id ∧ m.name = n.name then some args else none
  | .called _ => none

/-- **What is noted of one call** of a program. -/
inductive CallNoted (wrappers : List (Native Value)) (carried : FunctionId → Bool) :
    List Event → Prop where
  /-- A call of a type or a method, or one from a frame that is not flagged. -/
  | silent : CallNoted wrappers carried []
  /-- The wrappers are applied before the call. -/
  | wrapped {g : Function Value} {evs : List Event} (happlied : AppliedTo wrappers g.name evs)
      (hnew : carried g.id = false) : CallNoted wrappers carried (evs ++ [.called g])
  /-- The callee carries the wrapper from the start. -/
  | carried {g : Function Value} (hcarried : carried g.id = true) :
      CallNoted wrappers carried [.called g]
  /-- A host function of the program. -/
  | native {n : Native Value} {args : CallArgs} (hother : ∀ m ∈ wrappers, m.id ≠ n.id) :
      CallNoted wrappers carried [.applied n args]

/-- **A log that is made of what is noted of one call after the other.** -/
inductive FollowsCalls (wrappers : List (Native Value)) (carried : FunctionId → Bool) :
    List Event → Prop where
  | nil : FollowsCalls wrappers carried []
  | call {evs later : List Event} (h : CallNoted wrappers carried evs)
      (hs : FollowsCalls wrappers carried later) : FollowsCalls wrappers carried (evs ++ later)

/-! ## §2. Arguments of the wrappers. -/

section Noted

variable {wrappers ns : List (Native Value)} {carried : FunctionId → Bool} {n : Native Value}
  {name : String} {evs : List Event}

/-- Applications are no calls. -/
theorem AppliedTo.called? (h : AppliedTo ns name evs) :
    evs.filterMap (Event.called? carried) = [] := by
  induction h with
  | nil => rfl
  | cons hfirst _ ih =>
      obtain ⟨g, _, rfl⟩ := hfirst
      exact ih

/-- A wrapper with another name is not applied. -/
theorem AppliedTo.argumentsOf?_other (h : AppliedTo ns name evs) (hn : ∀ m ∈ ns, m.name ≠ n.name) :
    evs.filterMap (Event.argumentsOf? n) = [] := by
  induction h with
  | nil => rfl
  | @cons m e ns evs hfirst _ ih =>
      obtain ⟨g, _, rfl⟩ := hfirst
      have hnone : Event.argumentsOf? n (.applied m (.one (.function g))) = none :=
        if_neg fun hsame => hn m List.mem_cons_self hsame.2
      rw [List.filterMap_cons_none hnone]
      exact ih fun m hm => hn m (List.mem_cons_of_mem _ hm)

/-- Each wrapper is applied once. -/
theorem AppliedTo.argumentsOf? (h : AppliedTo ns name evs) (hnames : (ns.map Native.name).Nodup)
    (hn : n ∈ ns) : ∃ g : Function Value, g.name = name
      ∧ evs.filterMap (Event.argumentsOf? n) = [.one (.function g)] := by
  induction h with
  | nil => cases hn
  | @cons m e ns evs hfirst hrest ih =>
      obtain ⟨g, hg, rfl⟩ := hfirst
      rw [List.map_cons, List.nodup_cons] at hnames
      rcases List.mem_cons.mp hn with rfl | hn
      · have hother : ∀ m ∈ ns, m.name ≠ n.name := by
          intro m hm hname
          exact hnames.1 (List.mem_map.mpr ⟨m, hm, hname⟩)
        have hsome : Event.argumentsOf? n (.applied n (.one (.function g)))
            = some (.one (.function g)) := if_pos ⟨rfl, rfl⟩
        refine ⟨g, hg, ?_⟩
        rw [List.filterMap_cons_some hsome, AppliedTo.argumentsOf?_other hrest hother]
      · obtain ⟨x, hx, harguments⟩ := ih hnames.2 hn
        have hnone : Event.argumentsOf? n (.applied m (.one (.function g))) = none := by
          refine if_neg fun hsame => hnames.1 ?_
          rw [hsame.2]
          exact List.mem_map_of_mem hn
        refine ⟨x, hx, ?_⟩
        rw [List.filterMap_cons_none hnone, harguments]

/-- A call adds to the arguments of a wrapper what it adds to the calls. -/
theorem CallNoted.argumentsOf? (h : CallNoted wrappers carried evs)
    (hnames : (wrappers.map Native.name).Nodup) (hn : n ∈ wrappers) :
    ∃ gs : List (Function Value),
      evs.filterMap (Event.argumentsOf? n) = gs.map (fun g => .one (.function g))
        ∧ gs.map Function.name = (evs.filterMap (Event.called? carried)).map Function.name := by
  cases h with
  | silent => exact ⟨[], rfl, rfl⟩
  | @wrapped g evs happlied hnew =>
      obtain ⟨x, hx, harguments⟩ := happlied.argumentsOf? hnames hn
      have hcalled : Event.called? carried (.called g) = some g :=
        if_neg (ne_true_of_eq_false hnew)
      refine ⟨[x], ?_, ?_⟩
      · rw [List.filterMap_append, harguments]
        rfl
      · rw [List.filterMap_append, happlied.called?, List.nil_append,
          List.filterMap_cons_some hcalled, List.map_cons, hx]
        rfl
  | @carried g hcarried =>
      have hnone : Event.called? carried (.called g) = none := if_pos hcarried
      refine ⟨[], rfl, ?_⟩
      rw [List.filterMap_cons_none hnone]
      rfl
  | @native m args hother =>
      have hnone : Event.argumentsOf? n (.applied m args) = none :=
        if_neg fun hsame => hother n hn hsame.1.symm
      refine ⟨[], ?_, rfl⟩
      rw [List.filterMap_cons_none hnone]
      rfl

/-- **The arguments of each wrapper are the called functions,** by name and in
order. -/
theorem FollowsCalls.argumentsOf? (h : FollowsCalls wrappers carried evs)
    (hnames : (wrappers.map Native.name).Nodup) (hn : n ∈ wrappers) :
    ∃ gs : List (Function Value),
      evs.filterMap (Event.argumentsOf? n) = gs.map (fun g => .one (.function g))
        ∧ gs.map Function.name = (evs.filterMap (Event.called? carried)).map Function.name := by
  induction h with
  | nil => exact ⟨[], rfl, rfl⟩
  | call hcall _ ih =>
      obtain ⟨gs, harguments, hcalled⟩ := hcall.argumentsOf? hnames hn
      obtain ⟨later, harguments', hcalled'⟩ := ih
      refine ⟨gs ++ later, ?_, ?_⟩
      · rw [List.filterMap_append, harguments, harguments', List.map_append]
      · rw [List.filterMap_append, List.map_append, List.map_append, hcalled, hcalled']

end Noted

end CallDecoration
