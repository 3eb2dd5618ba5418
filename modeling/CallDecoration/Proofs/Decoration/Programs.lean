/-
  CallDecoration.Proofs.Decoration.Programs
  ──────────────────────────────────────
  **Programs, and what decorating makes of their functions.**  A program is
  given by its functions, its host functions and what is bound
  (`Program`); its values are data and what is made of those
  (`Vocabulary.Holds`).  Decorating a function by several wrappers in turn
  gives a copy that carries all of them (`Function.DecoratedBy`), applies each
  wrapper once, and leaves everything else that a program can see as it was
  (`Program.Tracks`).
-/
import CallDecoration.Proofs.Decoration.Chains
import CallDecoration.Proofs.Decoration.Copies
import CallDecoration.Proofs.Decoration.Histories
import CallDecoration.Proofs.Machine.Deep
import Mathlib.Data.List.Nodup

namespace CallDecoration

variable {σ : Type}

/-! ## §1. The values of a program. -/

/-- What the values of a program are made of. -/
structure Vocabulary where
  /-- Functions as they were made. -/
  plain : Function Value → Prop
  /-- Results of earlier decorations. -/
  decorated : Function Value → Prop
  natives : Native Value → Prop

/-- **The values of a program.** -/
inductive Vocabulary.Holds (V : Vocabulary) : Value → Prop where
  | nil : V.Holds .nil
  | bool (b : Bool) : V.Holds (.bool b)
  | int (n : Int64) : V.Holds (.int n)
  | str (s : String) : V.Holds (.str s)
  | type (t : TypeObject) : V.Holds (.type t)
  | module (scope : ScopeRef) : V.Holds (.module scope)
  | tuple {items : List Value} (h : ∀ v ∈ items, V.Holds v) : V.Holds (.tuple items)
  | dict {entries : List (String × Value)} (h : ∀ entry ∈ entries, V.Holds entry.2) :
      V.Holds (.dict entries)
  | plain {g : Function Value} (h : V.plain g) : V.Holds (.function g)
  | decorated {g : Function Value} (h : V.decorated g) : V.Holds (.function g)
  | native {n : Native Value} (h : V.natives n) : V.Holds (.native n)
  | method {m : BoundMethod Value} (hreceiver : V.Holds m.receiver) (h : V.plain m.function) :
      V.Holds (.method m)

theorem Vocabulary.deep (V : Vocabulary) : Deep V.Holds where
  nil := .nil
  bool := .bool
  int := .int
  str := .str
  tuple := by
    intro items
    constructor
    · intro h
      cases h with
      | tuple h => exact h
    · exact .tuple
  dict := by
    intro entries
    constructor
    · intro h
      cases h with
      | dict h => exact h
    · exact .dict

/-- A value is a function of the program, a result of an earlier decoration, or
no function. -/
theorem Vocabulary.Holds.kinds {V : Vocabulary} {v : Value} (h : V.Holds v) :
    (∃ g, v = .function g ∧ V.plain g) ∨ (∃ x, v = .function x ∧ V.decorated x)
      ∨ ∀ g, v ≠ .function g := by
  cases h with
  | plain h => exact Or.inl ⟨_, rfl, h⟩
  | decorated h => exact Or.inr (Or.inl ⟨_, rfl, h⟩)
  | _ => exact Or.inr (Or.inr (by simp))

/-! ## §2. Copies by several wrappers. -/

/-- An instruction whose jump several wrappers have carried along is otherwise
the same. -/
theorem MovedBy.sameButTarget {R : Nat → Nat → Prop} {i i' : Instruction} (h : MovedBy R i i') :
    i.SameButTarget i' := by
  rcases h with ⟨_, rfl⟩ | ⟨t, t', _, rfl, _⟩
  · exact .refl i'
  · exact .retarget i t'

/-- **`g'` is what decorations by `ns`, in this order, have made of `g`.** -/
structure Function.DecoratedBy (registry : RegistryId) (ns : List (Native Value))
    (ls : List CaptureSlots) (R : Nat → Nat → Prop) (g g' : Function Value) : Prop where
  layers : Layers g.body.code ls g'.body.code R
  keeps : List.Forall₂ (fun slots n => g'.Keeps slots registry n) ls ns
  constants : g'.body.constants = g.body.constants
  names : g'.body.names = g.body.names
  name : g'.name = g.name
  scope : g'.scope = g.scope
  captures : ∀ index < g.captures.size, g'.captures[index]? = g.captures[index]?
  admission : ∀ args depth st, Machine.admission g' args depth st = Machine.admission g args depth st

section Copies

variable {registry : RegistryId} {g x x' : Function Value} {n : Native Value} {slots : CaptureSlots}

/-- A copy keeps what the copied function keeps. -/
theorem Function.Keeps.of_copied {earlier : CaptureSlots} {m : Native Value}
    (h : x.Keeps earlier registry m) (hcopied : x.Copied slots registry n x') :
    x'.Keeps earlier registry m := by
  have hsame : ∀ (index : Nat) (v : Value), x.captures[index]?.map Capture.value = some v →
      x'.captures[index]?.map Capture.value = some v := by
    intro index v hv
    obtain ⟨capture, hcapture, rfl⟩ := Option.map_eq_some_iff.mp hv
    obtain ⟨hlt, _⟩ := Array.getElem?_eq_some_iff.mp hcapture
    rw [hcopied.captures index hlt, hcapture]
    rfl
  obtain ⟨entry, hrole, hentry⟩ := h.entry
  exact ⟨⟨entry, hrole, hsame _ _ hentry⟩, hsame _ _ h.adapter⟩

/-- The first decoration. -/
theorem Function.DecoratedBy.first (hmarks : Unmarked g.body.code)
    (hcopied : g.Copied slots registry n x) : ∃ ls R, g.DecoratedBy registry [n] ls R x := by
  obtain ⟨L⟩ := hcopied.layout
  exact ⟨_, _, Layers.first L hmarks, .cons hcopied.keeps .nil, hcopied.constants, hcopied.names,
    hcopied.name, hcopied.scope, hcopied.captures, Machine.admission_copied hcopied⟩

/-- One decoration more. -/
theorem Function.DecoratedBy.more {ns : List (Native Value)} {ls : List CaptureSlots}
    {R : Nat → Nat → Prop} (h : g.DecoratedBy registry ns ls R x)
    (hcopied : x.Copied slots registry n x') :
    ∃ ls' R', g.DecoratedBy registry (ns ++ [n]) ls' R' x' := by
  obtain ⟨L⟩ := hcopied.layout
  refine ⟨_, _, h.layers.more L, ?_, hcopied.constants.trans h.constants,
    hcopied.names.trans h.names, hcopied.name.trans h.name, hcopied.scope.trans h.scope, ?_, ?_⟩
  · refine List.rel_append ?_ (.cons hcopied.keeps .nil)
    exact h.keeps.imp fun _ _ hkeeps => hkeeps.of_copied hcopied
  · intro index hindex
    have hsame := h.captures index hindex
    rw [Array.getElem?_eq_getElem hindex] at hsame
    obtain ⟨hlt, _⟩ := Array.getElem?_eq_some_iff.mp hsame
    rw [hcopied.captures index hlt, h.captures index hindex]
  · intro args depth st
    rw [Machine.admission_copied hcopied, h.admission]

/-- A function, or what decorations have made of it. -/
inductive Stage (registry : RegistryId) (g : Function Value) :
    List (Native Value) → Function Value → Prop where
  | start : Stage registry g [] g
  | copied {ns : List (Native Value)} {ls : List CaptureSlots} {R : Nat → Nat → Prop}
      {x : Function Value} (h : g.DecoratedBy registry ns ls R x) : Stage registry g ns x

theorem Stage.name {ns : List (Native Value)} (h : Stage registry g ns x) : x.name = g.name := by
  cases h with
  | start => rfl
  | copied h => exact h.name

theorem Stage.next {ns : List (Native Value)} {body : Chunk Value} (h : Stage registry g ns x)
    (hmarks : Unmarked g.body.code) (hbody : x.instrumentedBody = .ok body) (w : World σ) :
    Stage registry g (ns ++ [n]) (x.copyIn registry n body w) := by
  have hcopied : ∃ slots, x.Copied slots registry n (x.copyIn registry n body w) :=
    Function.copied_copyIn hbody w
  obtain ⟨slots, hcopied⟩ := hcopied
  cases h with
  | start =>
      obtain ⟨_, _, h⟩ := Function.DecoratedBy.first hmarks hcopied
      exact Stage.copied h
  | copied h =>
      obtain ⟨_, _, h⟩ := h.more hcopied
      exact Stage.copied h

end Copies

/-! ## §3. Applications. -/

/-- **Each of the wrappers is applied once, in this order,** to a function of
the name. -/
def AppliedTo (ns : List (Native Value)) (name : String) (evs : List Event) : Prop :=
  List.Forall₂ (fun n e => ∃ g : Function Value, g.name = name
    ∧ e = .applied n (.one (.function g))) ns evs

/-- A change of the world that numbers host functions at most. -/
def World.Idle (before : World σ → World σ) : Prop :=
  ∀ w, before w = { w with nextObject := (before w).nextObject }

namespace World.Idle

variable {before : World σ → World σ}

theorem nextFunction (h : World.Idle before) (w : World σ) :
    (before w).nextFunction = w.nextFunction := by
  rw [h w]

theorem registry (h : World.Idle before) (w : World σ) (registry : RegistryId) :
    (before w).registry registry = w.registry registry := by
  rw [h w]
  rfl

end World.Idle

/-- Only functions are decorated. -/
theorem Registry.isEligible_other {r : Registry} {v : Value} {name : String}
    (h : ∀ g, v ≠ .function g) : r.isEligible v name = false := by
  cases v with
  | function g => exact absurd rfl (h g)
  | _ => rfl

/-- A copy has the history of what was copied, with one wrapper more, or none
if it is gone already. -/
theorem World.historyOf_afterCopy (registry : RegistryId) (n : Native Value) (w : World σ)
    (x : Function Value) :
    ((w.afterCopy registry n x).registry registry).historyOf ⟨w.nextFunction⟩
        = ((w.registry registry).historyOf x.id).extend n.name
      ∨ ((w.afterCopy registry n x).registry registry).historyOf ⟨w.nextFunction⟩ = .empty := by
  unfold World.afterCopy
  exact World.historyOf_recordHistory_self _ _ _ _

/-! ## §4. Programs. -/

/-- **A program that is decorated by `wrappers`,** with the world `w₀` in which
it begins.  Its own functions have no marks, load only captures that they have
and carry none of the transformations; if there is a single wrapper, results of
decorating by it may be among its values, and `carried` tells which functions
these are.  Host functions other than the wrappers depend on their arguments
alone. -/
structure Program (host : Host σ) (registry : RegistryId) (wrappers : List (Native Value))
    (carried : FunctionId → Bool) (w₀ : World σ) extends Vocabulary where
  nonempty : wrappers ≠ []
  distinct : (wrappers.map Native.name).Nodup
  echoes : ∀ n ∈ wrappers, host.Echoes n
  unmarked : ∀ g, plain g → Unmarked g.body.code
  inRange : ∀ g, plain g → g.CapturesInRange
  tables : ∀ g, plain g → g.All toVocabulary.Holds
  known : ∀ g, plain g ∨ decorated g →
    g.id.number < w₀.nextFunction ∧ w₀.isLive g.id = true
  untouched : ∀ g, plain g → carried g.id = false
    ∧ ∀ n ∈ wrappers, ((w₀.registry registry).historyOf g.id).contains n.name = false
  earlier : ∀ id, carried id = true → id.number < w₀.nextFunction
  copies : ∀ x, decorated x → carried x.id = true
    ∧ ∃ n g slots, wrappers = [n] ∧ plain g ∧ g.Copied slots registry n x
      ∧ ((w₀.registry registry).historyOf x.id).contains n.name = true
  answers : ∀ n, natives n → n.role = .host ∧ (∀ m ∈ wrappers, m.id ≠ n.id)
    ∧ ∀ args : CallArgs, args.All toVocabulary.Holds →
      ∃ r, host n.id args = .done r ∧ ∀ v, r = .ok v → toVocabulary.Holds v
  bound : w₀.All toVocabulary.Holds

namespace Program

variable {host : Host σ} {registry : RegistryId} {wrappers : List (Native Value)}
  {carried : FunctionId → Bool} {w₀ : World σ} (P : Program host registry wrappers carried w₀)

/-- **What a world keeps of the one in which the program began.** -/
structure Tracks (w : World σ) : Prop where
  later : w₀.nextFunction ≤ w.nextFunction
  dropped : w.dropped = w₀.dropped
  histories : ∀ id : FunctionId, id.number < w₀.nextFunction → w₀.isLive id = true →
    (w.registry registry).historyOf id = (w₀.registry registry).historyOf id
  bound : w.All P.Holds

theorem tracks_start : P.Tracks w₀ :=
  ⟨Nat.le_refl _, rfl, fun _ _ _ => rfl, P.bound⟩

variable {P} {w : World σ}

theorem Tracks.idle {before : World σ → World σ} (h : P.Tracks w) (hidle : World.Idle before) :
    P.Tracks (before w) := by
  rw [hidle w]
  exact ⟨h.later, h.dropped, h.histories, h.bound⟩

/-- A new copy is none of the functions of the program. -/
theorem Tracks.afterCopy (h : P.Tracks w) (n : Native Value) (x : Function Value) :
    P.Tracks (w.afterCopy registry n x) where
  later := Nat.le_succ_of_le h.later
  dropped := h.dropped
  histories := by
    intro id hid hlive
    have hlater := h.later
    have hne : (⟨w.nextFunction⟩ : FunctionId) ≠ id := by
      rintro rfl
      exact absurd hid (by simp only; omega)
    have hlive' : ((w.newEntryPoint registry).2.freshFunction.2).isLive id = true := by
      show (!w.dropped.contains id) = true
      rw [h.dropped]
      exact hlive
    unfold World.afterCopy
    rw [World.historyOf_recordHistory hlive', if_neg (fun hsame => hne hsame.2)]
    exact h.histories id hid hlive
  bound := h.bound

/-- After an instruction. -/
theorem Tracks.worldAfter (h : P.Tracks w) {i : Instruction} {f : Frame} {ops : List Value}
    (hops : ∀ v ∈ ops, P.Holds v) : P.Tracks (i.worldAfter f w ops) := by
  have hsame := Machine.worldAfter_same i f w ops
  have hbound : (i.worldAfter f w ops).All P.Holds := Deep.worldAfter h.bound hops
  refine ⟨?_, ?_, ?_, hbound⟩
  · rw [hsame]
    exact h.later
  · rw [hsame]
    exact h.dropped
  · rw [hsame]
    exact h.histories

/-- A result of an earlier decoration is not decorated again. -/
theorem Tracks.not_eligible {x : Function Value} {n : Native Value} (hw : P.Tracks w)
    (hx : P.decorated x) (hn : n ∈ wrappers) :
    (w.registry registry).isEligible (.function x) n.name = false := by
  obtain ⟨_, m, _, _, hone, _, _, hcontains⟩ := P.copies x hx
  obtain ⟨hid, hlive⟩ := P.known x (Or.inr hx)
  have hsame : n = m := by
    rw [hone] at hn
    exact List.mem_singleton.mp hn
  show (!((w.registry registry).historyOf x.id).contains n.name) = false
  rw [hw.histories x.id hid hlive, hsame, hcontains]
  rfl

/-- Values that cannot be decorated are left alone. -/
theorem Tracks.kept_all {before : World σ → World σ} {ns : List (Native Value)} {w' : World σ}
    {v v' : Value} {evs : List Event} (hw : P.Tracks w) (hidle : World.Idle before)
    (hkept : ∀ n ∈ ns, ∀ w, P.Tracks w → (w.registry registry).isEligible v n.name = false)
    (hall : DecoratesAll registry before ns w v v' w' evs) :
    v' = v ∧ evs = [] ∧ P.Tracks w' ∧ w'.nextFunction = w.nextFunction := by
  induction hall with
  | nil w v => exact ⟨rfl, rfl, hw, rfl⟩
  | @cons n ns w w' w'' v v' v'' evs evs' h hs ih =>
      have hbefore := hw.idle hidle
      cases h with
      | kept heligible =>
          obtain ⟨rfl, rfl, hw', hnext⟩ := ih hbefore
            fun m hm => hkept m (List.mem_cons_of_mem n hm)
          exact ⟨rfl, rfl, hw', hnext.trans (hidle.nextFunction w)⟩
      | copied heligible hbody =>
          rw [hkept n List.mem_cons_self _ hbefore] at heligible
          cases heligible

/-- Wrappers of one name are one wrapper. -/
theorem eq_of_name_eq (P : Program host registry wrappers carried w₀) {m n : Native Value}
    (hm : m ∈ wrappers) (hn : n ∈ wrappers) (hname : m.name = n.name) : m = n :=
  List.inj_on_of_nodup_map P.distinct hm hn hname

/-- **A function of the program to which the wrappers `done` have been applied,**
in a world that they have left: none of the others is in its history. -/
structure Underway (P : Program host registry wrappers carried w₀) (g : Function Value)
    (done : List (Native Value)) (x : Function Value) (w : World σ) : Prop where
  stage : Stage registry g done x
  new : carried x.id = false
  tracks : P.Tracks w
  history : ∀ m ∈ wrappers,
    ((w.registry registry).historyOf x.id).contains m.name = true → m ∈ done

theorem underway_start (hw : P.Tracks w) {g : Function Value} (hg : P.plain g) :
    P.Underway g [] g w := by
  refine ⟨Stage.start, (P.untouched g hg).1, hw, ?_⟩
  intro m hm hcontains
  obtain ⟨hid, hlive⟩ := P.known g (Or.inl hg)
  rw [hw.histories g.id hid hlive, (P.untouched g hg).2 m hm] at hcontains
  cases hcontains

namespace Underway

variable {before : World σ → World σ} {done ns : List (Native Value)} {n : Native Value}
  {w' : World σ} {g x : Function Value} {v' : Value} {evs : List Event}

/-- The function is eligible for the next wrapper, which would else have been
applied before. -/
theorem isEligible (h : P.Underway g done x w) (hidle : World.Idle before)
    (hsplit : wrappers = done ++ n :: ns) :
    ((before w).registry registry).isEligible (.function x) n.name = true := by
  rw [hidle.registry]
  show (!((w.registry registry).historyOf x.id).contains n.name) = true
  rw [Bool.not_eq_true']
  refine Bool.eq_false_iff.mpr fun hcontains => ?_
  have hdone : n ∈ done := h.history n (by simp [hsplit]) hcontains
  have hnodup : ((done ++ n :: ns).map Native.name).Nodup := hsplit ▸ P.distinct
  rw [List.map_append, List.nodup_append] at hnodup
  exact hnodup.2.2 _ (List.mem_map_of_mem hdone) _ (List.mem_map_of_mem List.mem_cons_self) rfl

/-- The copy that the next wrapper is applied to. -/
theorem afterCopy (h : P.Underway g done x w) (hg : P.plain g) (hidle : World.Idle before)
    (hn : n ∈ wrappers) {body : Chunk Value} (hbody : x.instrumentedBody = .ok body) :
    P.Underway g (done ++ [n]) (x.copyIn registry n body (before w))
      ((before w).afterCopy registry n x) := by
  have hbefore := h.tracks.idle hidle
  refine ⟨h.stage.next (P.unmarked g hg) hbody (before w), ?_, hbefore.afterCopy n x, ?_⟩
  · -- what is carried by the program is older than the copy
    cases hcarried : carried (x.copyIn registry n body (before w)).id with
    | false => rfl
    | true => exact absurd (P.earlier _ hcarried) (Nat.not_lt.mpr hbefore.later)
  · intro m hm hcontains
    have hcases := World.historyOf_afterCopy registry n (before w) x
    rw [hidle.registry] at hcases
    rcases hcases with hsame | hempty
    · replace hcontains := hsame ▸ hcontains
      rcases History.contains_extend.mp hcontains with hearlier | hname
      · exact List.mem_append_left _ (h.history m hm hearlier)
      · rw [P.eq_of_name_eq hm hn hname]
        exact List.mem_append_right _ List.mem_cons_self
    · replace hcontains := hempty ▸ hcontains
      cases hcontains

/-- **The next wrapper is applied,** to a copy that is made for it. -/
theorem next (h : P.Underway g done x w) (hg : P.plain g) (hidle : World.Idle before)
    (hsplit : wrappers = done ++ n :: ns)
    (hnext : Decorates registry n (before w) (.function x) v' w' evs) :
    ∃ y, v' = .function y ∧ P.Underway g (done ++ [n]) y w'
      ∧ evs = [.applied n (.one (.function y))] ∧ w'.nextFunction = w.nextFunction + 1 := by
  cases hnext with
  | kept heligible =>
      rw [h.isEligible hidle hsplit] at heligible
      cases heligible
  | copied heligible hbody =>
      refine ⟨_, rfl, h.afterCopy hg hidle (by simp [hsplit]) hbody, rfl, ?_⟩
      show (before w).nextFunction + 1 = _
      rw [hidle.nextFunction]

/-- **The wrappers that are left are applied once each.** -/
theorem all (h : P.Underway g done x w) (hg : P.plain g) (hidle : World.Idle before)
    (hsplit : wrappers = done ++ ns)
    (hall : DecoratesAll registry before ns w (.function x) v' w' evs) :
    ∃ y, v' = .function y ∧ P.Underway g wrappers y w' ∧ AppliedTo ns g.name evs
      ∧ w'.nextFunction = w.nextFunction + ns.length := by
  induction ns generalizing done w x evs with
  | nil =>
      cases hall
      rw [List.append_nil] at hsplit
      subst hsplit
      exact ⟨x, rfl, h, List.Forall₂.nil, rfl⟩
  | cons n ns ih =>
      cases hall with
      | cons hfirst hlater =>
          obtain ⟨y, rfl, hy, rfl, hone⟩ := h.next hg hidle hsplit hfirst
          have hrest : wrappers = done ++ [n] ++ ns := by
            rw [hsplit, List.append_assoc]
            rfl
          obtain ⟨z, rfl, hz, happlied, hmore⟩ := ih hy hrest hlater
          refine ⟨z, rfl, hz, List.Forall₂.cons ⟨y, hy.stage.name, rfl⟩ happlied, ?_⟩
          rw [hmore, hone, List.length_cons]
          omega

end Underway

/-- **The wrappers are applied to a function of the program in turn,** and a
copy comes out that carries all of them. -/
theorem Tracks.decorated {before : World σ → World σ} {w' : World σ} {g : Function Value}
    {v' : Value} {evs : List Event} (hw : P.Tracks w) (hidle : World.Idle before) (hg : P.plain g)
    (hall : DecoratesAll registry before wrappers w (.function g) v' w' evs) :
    ∃ x ls R, v' = .function x ∧ g.DecoratedBy registry wrappers ls R x ∧ carried x.id = false
      ∧ AppliedTo wrappers g.name evs ∧ P.Tracks w'
      ∧ w'.nextFunction = w.nextFunction + wrappers.length := by
  obtain ⟨x, hv, hx, happlied, hnext⟩ :=
    (underway_start hw hg).all hg hidle (List.nil_append wrappers).symm hall
  cases hx.stage with
  | start => exact absurd rfl P.nonempty
  | copied h => exact ⟨x, _, _, hv, h, hx.new, happlied, hx.tracks, hnext⟩

end Program

end CallDecoration
