/-
  CallDecoration.Proofs.Decoration.Chains
  ──────────────────────────────────────
  **Decorations by several wrappers in turn.**  A host function decorates by
  one wrapper after the other and calls what comes out (`decorateAndCall`); the
  instructions that several passes have inserted before a call do the same with
  its callee.  Either all decorations are made (`DecoratesAll`), or one of them
  meets a function that cannot be instrumented (`Stuck`) and the run fails.
-/
import CallDecoration.Proofs.Decoration.Expansion
import CallDecoration.Proofs.Instrumentation.Layers
import Mathlib.Data.List.Forall2

namespace CallDecoration

variable {σ : Type}

/-! ## §1. Chains. -/

/-- **Decorations by several wrappers:** of a value, and then of what the one
before has answered.  `before` is what happens to the world before each. -/
inductive DecoratesAll (registry : RegistryId) (before : World σ → World σ) :
    List (Native Value) → World σ → Value → Value → World σ → List Event → Prop where
  | nil (w : World σ) (v : Value) : DecoratesAll registry before [] w v v w []
  | cons {n : Native Value} {ns : List (Native Value)} {w w' w'' : World σ} {v v' v'' : Value}
      {evs evs' : List Event} (h : Decorates registry n (before w) v v' w' evs)
      (hs : DecoratesAll registry before ns w' v' v'' w'' evs') :
      DecoratesAll registry before (n :: ns) w v v'' w'' (evs ++ evs')

/-- **One of the decorations meets a function that cannot be instrumented.** -/
inductive Stuck (registry : RegistryId) (before : World σ → World σ) :
    List (Native Value) → World σ → Value → Prop where
  | here {n : Native Value} {ns : List (Native Value)} {w : World σ} {g : Function Value}
      {e : InstrumentError}
      (heligible : ((before w).registry registry).isEligible (.function g) n.name = true)
      (hbody : g.instrumentedBody = .error e) : Stuck registry before (n :: ns) w (.function g)
  | later {n : Native Value} {ns : List (Native Value)} {w w' : World σ} {v v' : Value}
      {evs : List Event} (h : Decorates registry n (before w) v v' w' evs)
      (hs : Stuck registry before ns w' v') : Stuck registry before (n :: ns) w v

/-- There is no third case. -/
theorem decoratesAll_or_stuck (registry : RegistryId) (before : World σ → World σ)
    (ns : List (Native Value)) (w : World σ) (v : Value) :
    (∃ v' w' evs, DecoratesAll registry before ns w v v' w' evs)
      ∨ Stuck registry before ns w v := by
  induction ns generalizing w v with
  | nil => exact Or.inl ⟨v, w, [], DecoratesAll.nil w v⟩
  | cons n ns ih =>
      have hthen : ∀ {v' w' evs}, Decorates registry n (before w) v v' w' evs →
          (∃ v' w' evs, DecoratesAll registry before (n :: ns) w v v' w' evs)
            ∨ Stuck registry before (n :: ns) w v := by
        intro v' w' evs h
        rcases ih w' v' with ⟨v'', w'', evs', hs⟩ | hs
        · exact Or.inl ⟨v'', w'', evs ++ evs', DecoratesAll.cons h hs⟩
        · exact Or.inr (Stuck.later h hs)
      cases heligible : ((before w).registry registry).isEligible v n.name with
      | false => exact hthen (Decorates.kept heligible)
      | true =>
          cases v with
          | function g =>
              cases hbody : g.instrumentedBody with
              | error e => exact Or.inr (Stuck.here heligible hbody)
              | ok body => exact hthen (Decorates.copied heligible hbody)
          | _ => cases heligible

/-! ## §2. The inserted instructions of several passes. -/

namespace Watched

section Inserted

variable {host : Host σ} {carried : FunctionId → Bool} {registry : RegistryId}
  {ns : List (Native Value)} {ls : List CaptureSlots} {pending : List (Pending σ)} {f : Frame}
  {fs : List Frame} {st : Settings} {w w' : World σ} {flags : List Bool} {callee callee' : Value}
  {ops rest : List Value} {evs : List Event}

/-- **The inserted instructions make the decorations,** unless one of them
finds no room. -/
theorem passes_insertedBy {p last : Nat} {count : UInt8} (hns : ∀ n ∈ ns, host.Echoes n)
    (hcount : ops.length = count.toNat)
    (hkeeps : List.Forall₂ (fun slots n => f.function.Keeps slots registry n) ls ns)
    (hall : DecoratesAll registry (fun w => w.freshObject.2) ns w callee callee' w' evs)
    (hcode : Decodes f.function.body.code p (insertedBy ls count) last) :
    Passes host carried
        ⟨⟨.bytecode, pending, .of (ops ++ callee :: rest) ({ f with ip := p } :: fs) st w⟩, flags⟩
        evs
        ⟨⟨.bytecode, pending, .of (ops ++ callee' :: rest) ({ f with ip := last } :: fs) st w'⟩,
          flags⟩
      ∨ Fails host carried pending
        ⟨⟨.bytecode, pending, .of (ops ++ callee :: rest) ({ f with ip := p } :: fs) st w⟩,
          flags⟩ := by
  induction hkeeps generalizing w callee p evs with
  | nil =>
      cases hall
      cases hcode
      exact Or.inl (Passes.refl _)
  | @cons slots n ls ns hkeep _ ih =>
      cases hall with
      | cons h hs =>
          -- one block of instructions for each wrapper, the first wrapper's first
          obtain ⟨q, hfirst, hlater⟩ := Decodes.split (slots.inserted count) (insertedBy ls count)
            hcode
          rcases (proceeds_inserted (hns n List.mem_cons_self) hcount hkeep h
            hfirst).passes_or_fails with hpasses | hfails
          · rcases ih (fun m hm => hns m (List.mem_cons_of_mem n hm)) hs hlater with
              hrest | hfails
            · exact Or.inl (hpasses.trans hrest)
            · exact Or.inr (Fails.of_passes hpasses hfails)
          · exact Or.inr hfails

/-- The inserted instructions fail without the operands or the callee. -/
theorem fails_insertedBy_short {vs : List Value} {p last : Nat} {count : UInt8} (hls : ls ≠ [])
    (hlow : vs.length < count.toNat + 1)
    (hcode : Decodes f.function.body.code p (insertedBy ls count) last) :
    Fails host carried pending
      ⟨⟨.bytecode, pending, .of vs ({ f with ip := p } :: fs) st w⟩, flags⟩ := by
  cases ls with
  | nil => exact absurd rfl hls
  | cons slots ls =>
      obtain ⟨q, hfirst, _⟩ := Decodes.split (slots.inserted count) (insertedBy ls count) hcode
      exact fails_short hlow hfirst

/-- The inserted instructions fail with a decoration. -/
theorem fails_insertedBy {p last : Nat} {count : UInt8} (hns : ∀ n ∈ ns, host.Echoes n)
    (hcount : ops.length = count.toNat)
    (hkeeps : List.Forall₂ (fun slots n => f.function.Keeps slots registry n) ls ns)
    (hstuck : Stuck registry (fun w => w.freshObject.2) ns w callee)
    (hcode : Decodes f.function.body.code p (insertedBy ls count) last) :
    Fails host carried pending
      ⟨⟨.bytecode, pending, .of (ops ++ callee :: rest) ({ f with ip := p } :: fs) st w⟩,
        flags⟩ := by
  induction hkeeps generalizing w callee p with
  | nil => cases hstuck
  | @cons slots n ls ns hkeep _ ih =>
      obtain ⟨q, hfirst, hlater⟩ := Decodes.split (slots.inserted count) (insertedBy ls count)
        hcode
      cases hstuck with
      | here heligible hbody => exact fails_decoration hcount hkeep heligible hbody hfirst
      | later h hs =>
          rcases (proceeds_inserted (hns n List.mem_cons_self) hcount hkeep h
            hfirst).passes_or_fails with hpasses | hfails
          · exact Fails.of_passes hpasses
              (ih (fun m hm => hns m (List.mem_cons_of_mem n hm)) hs hlater)
          · exact hfails

end Inserted

end Watched

/-! ## §3. Decorating and calling. -/

/-- **Decorates a value by one host function after the other** and calls what
comes out. -/
def decorateAndCall (registry : RegistryId) (args : CallArgs) :
    List (Native Value) → Value → Action σ Value
  | [], v => Action.callValue v args
  | n :: ns, v =>
      (decorate registry v (plainAdapter n)).bind fun v' => decorateAndCall registry args ns v'

namespace Watched

section Host

variable {host : Host σ} {carried : FunctionId → Bool} {registry : RegistryId} {args : CallArgs}
  {ns : List (Native Value)} {pending : List (Pending σ)} {vs : List Value} {fs : List Frame}
  {st : Settings} {w w' : World σ} {flags : List Bool} {v v' : Value} {evs : List Event}

/-- All decorations are made before the call. -/
theorem passes_decorateAll (hns : ∀ n ∈ ns, host.Echoes n)
    (hall : DecoratesAll registry id ns w v v' w' evs) :
    Passes host carried
      ⟨⟨.action (decorateAndCall registry args ns v), pending, .of vs fs st w⟩, flags⟩ evs
      ⟨⟨.action (Action.callValue v' args), pending, .of vs fs st w'⟩, flags⟩ := by
  induction hall with
  | nil w v => exact Passes.refl _
  | @cons n ns w w' w'' v v' v'' evs evs' h hs ih =>
      unfold decorateAndCall
      rw [Action.bind_eq_handle]
      exact (passes_decorate (hns n List.mem_cons_self) h _).trans
        (ih fun m hm => hns m (List.mem_cons_of_mem n hm))

/-- A decoration that cannot be made ends the host function. -/
theorem fails_decorateAll (hns : ∀ n ∈ ns, host.Echoes n) (hstuck : Stuck registry id ns w v) :
    Fails host carried pending
      ⟨⟨.action (decorateAndCall registry args ns v), pending, .of vs fs st w⟩, flags⟩ := by
  induction hstuck with
  | @here n ns w g e heligible hbody =>
      unfold decorateAndCall
      rw [Action.bind_eq_handle]
      exact ⟨.instrument e, [], _, flags,
        (passes_decorate_error heligible hbody _).silent passes_done⟩
  | @later n ns w w' v v' evs h hs ih =>
      unfold decorateAndCall
      rw [Action.bind_eq_handle]
      exact Fails.of_passes (passes_decorate (hns n List.mem_cons_self) h _)
        (ih fun m hm => hns m (List.mem_cons_of_mem n hm))

end Host

end Watched

end CallDecoration
