/-
  CallDecoration.Proofs.Decoration.Registries
  ──────────────────────────────────────
  **A registry never forgets a function that is alive, and stays small.**
  What happens to one registry of a world is a sequence of events: a history
  is recorded for a function that is alive, the registry is pruned, a function
  is dropped; everything else that happens to the world passes it by
  (`Evolves`).  The sequence alone tells the last history of each function
  (`lastRecorded`), which recorded functions are alive (`livingRecorded`) and
  how many were alive at the same time at most (`peak`).

  The size is bounded by two inequalities that every event keeps: there are
  fewer entries than the threshold, and the threshold is at most 64 or twice the
  peak.  Only an insertion can break the first one, and then it prunes; what it
  leaves are recorded functions that are alive at that very moment.
-/
import CallDecoration.Proofs.Decoration.Histories
import Mathlib.Data.List.Dedup
import Mathlib.Data.List.Infix
import Mathlib.Data.List.Perm.Subperm

namespace CallDecoration

variable {σ : Type}

/-! ## §1. What happens to a registry. -/

/-- Something that happens to a registry, or to the functions it records. -/
inductive RegistryEvent where
  /-- A history is recorded for a function. -/
  | recorded (f : FunctionId) (h : History)
  /-- The entries of functions that are gone are removed. -/
  | pruned
  /-- A function is gone. -/
  | dropped (f : FunctionId)
  deriving DecidableEq

namespace RegistryEvent

/-- The history that the event records for a function. -/
def history? (f : FunctionId) : RegistryEvent → Option History
  | recorded g h => if g = f then some h else none
  | _ => none

/-- The function for which the event records a history. -/
def function? : RegistryEvent → Option FunctionId
  | recorded f _ => some f
  | _ => none

/-- Whether the event can happen: histories are recorded for functions that are
alive. -/
def isPossible (w : World σ) : RegistryEvent → Bool
  | recorded f _ => w.isLive f
  | _ => true

/-- What the event does to the world. -/
def perform (id : RegistryId) (w : World σ) : RegistryEvent → World σ
  | recorded f h => (w.recordHistory id f h).2
  | pruned => (w.pruneRegistry id).2
  | dropped f => w.drop f

end RegistryEvent

open RegistryEvent

/-- **What can happen to a registry,** with the events so far: the events, and
whatever leaves this registry and the life of functions alone. -/
inductive Evolves (id : RegistryId) (w₀ : World σ) : List RegistryEvent → World σ → Prop where
  | start : Evolves id w₀ [] w₀
  | event {events : List RegistryEvent} {w : World σ} (e : RegistryEvent)
      (hpossible : e.isPossible w = true) (h : Evolves id w₀ events w) :
      Evolves id w₀ (events ++ [e]) (e.perform id w)
  | elsewhere {events : List RegistryEvent} {w w' : World σ}
      (hregistry : w'.registry id = w.registry id) (hdropped : w'.dropped = w.dropped)
      (h : Evolves id w₀ events w) : Evolves id w₀ events w'

/-! ## §2. What the events tell. -/

/-- **The last history recorded for a function,** if there is one. -/
def lastRecorded (events : List RegistryEvent) (f : FunctionId) : Option History :=
  events.reverse.findSome? (RegistryEvent.history? f)

/-- **The recorded functions that are alive,** each of them once. -/
def livingRecorded (events : List RegistryEvent) : List FunctionId :=
  (events.filterMap RegistryEvent.function?).dedup.filter fun f => decide (.dropped f ∉ events)

/-- **How many recorded functions were alive at the same time at most.** -/
def peak (events : List RegistryEvent) : Nat :=
  (events.inits.map fun past => (livingRecorded past).length).foldr max 0

theorem lastRecorded_concat (events : List RegistryEvent) (e : RegistryEvent) (f : FunctionId) :
    lastRecorded (events ++ [e]) f = (e.history? f).or (lastRecorded events f) := by
  unfold lastRecorded
  rw [List.reverse_append, List.reverse_singleton, List.singleton_append, List.findSome?_cons]
  cases e.history? f with
  | none => rfl
  | some h => rfl

theorem mem_livingRecorded {events : List RegistryEvent} {f : FunctionId} :
    f ∈ livingRecorded events ↔ (∃ h, .recorded f h ∈ events) ∧ .dropped f ∉ events := by
  unfold livingRecorded
  rw [List.mem_filter, List.mem_dedup, List.mem_filterMap, decide_eq_true_eq]
  refine and_congr_left fun _ => ?_
  constructor
  · rintro ⟨e, he, hf⟩
    cases e with
    | recorded g h =>
        cases hf
        exact ⟨h, he⟩
    | pruned | dropped => cases hf
  · rintro ⟨h, he⟩
    exact ⟨_, he, rfl⟩

theorem nodup_livingRecorded (events : List RegistryEvent) : (livingRecorded events).Nodup :=
  (List.nodup_dedup _).filter _

theorem peak_concat (events : List RegistryEvent) (e : RegistryEvent) :
    peak (events ++ [e]) = max (peak events) (livingRecorded (events ++ [e])).length := by
  have hinits : (events ++ [e]).inits = events.inits ++ [events ++ [e]] := by
    rw [List.inits_append]
    rfl
  unfold peak
  rw [hinits, List.map_append, List.foldr_append]
  generalize events.inits.map _ = counts
  -- the last count may be taken first
  induction counts with
  | nil => exact (Nat.max_comm _ _)
  | cons n counts ih =>
      rw [List.foldr_cons, List.foldr_cons, ih, Nat.max_assoc]

/-! ## §3. One insertion, one pruning. -/

namespace Registry

variable {live : FunctionId → Bool} {r : Registry}

/-- No function has two entries. -/
def Distinct (r : Registry) : Prop :=
  (Dict.keys r.entries).Nodup

theorem mem_keys_livingEntries {f : FunctionId} :
    f ∈ Dict.keys (r.livingEntries live) ↔ f ∈ Dict.keys r.entries ∧ live f = true := by
  unfold livingEntries Dict.keys
  rw [List.mem_map, List.mem_map]
  constructor
  · rintro ⟨entry, hentry, rfl⟩
    obtain ⟨hmem, hlive⟩ := List.mem_filter.mp hentry
    exact ⟨⟨entry, hmem, rfl⟩, hlive⟩
  · rintro ⟨⟨entry, hmem, rfl⟩, hlive⟩
    exact ⟨entry, List.mem_filter.mpr ⟨hmem, hlive⟩, rfl⟩

theorem Distinct.livingEntries (h : r.Distinct) : (Dict.keys (r.livingEntries live)).Nodup :=
  h.sublist (List.filter_sublist.map _)

/-- **Pruning tells how many entries of functions that are gone there were.** -/
theorem prune_fst (live : FunctionId → Bool) (r : Registry) :
    (r.prune live).1 = (r.entries.filter fun entry => !live entry.1).length := by
  have hsplit := List.length_eq_length_filter_add (l := r.entries) fun entry => live entry.1
  show r.entries.length - (r.entries.filter fun entry => live entry.1).length = _
  omega

/-- What an insertion makes of a registry: the entry is set, and if that brings
the entries to the threshold, those of functions that are gone are removed. -/
theorem record_cases (live : FunctionId → Bool) (f : FunctionId) (h : History) (r : Registry) :
    ∃ grown : Registry, grown.entries = Dict.set r.entries f h ∧ grown.pruneAt = r.pruneAt
      ∧ ((grown.size < r.pruneAt ∧ (r.record live f h).2 = grown)
        ∨ (r.record live f h).2 = ⟨grown.livingEntries live,
            max (2 * (grown.livingEntries live).length) firstPruneAt⟩) := by
  refine ⟨{ r with entries := Dict.set r.entries f h }, rfl, rfl, ?_⟩
  unfold record
  dsimp only
  split
  case isTrue hsmall => exact Or.inl ⟨hsmall, rfl⟩
  case isFalse => exact Or.inr rfl

variable {f : FunctionId} {h : History}

/-- **After an insertion there are fewer entries than the threshold,** whatever
there was before. -/
theorem size_record_lt : (r.record live f h).2.size < (r.record live f h).2.pruneAt := by
  obtain ⟨grown, _, hsame, ⟨hsmall, hrecord⟩ | hrecord⟩ := record_cases live f h r
  · rw [hrecord, hsame]
    exact hsmall
  · rw [hrecord]
    show (grown.livingEntries live).length < max (2 * (grown.livingEntries live).length) firstPruneAt
    unfold firstPruneAt
    omega

theorem Distinct.record (hr : r.Distinct) : (r.record live f h).2.Distinct := by
  obtain ⟨grown, hentries, _, hcases⟩ := record_cases live f h r
  have hgrown : grown.Distinct := by
    unfold Distinct
    rw [hentries]
    exact Dict.nodup_keys_set hr f h
  rcases hcases with ⟨_, hrecord⟩ | hrecord
  · rw [hrecord]
    exact hgrown
  · rw [hrecord]
    exact hgrown.livingEntries

/-- An insertion brings one function at most. -/
theorem mem_keys_record {g : FunctionId} (hg : g ∈ Dict.keys (r.record live f h).2.entries) :
    g = f ∨ g ∈ Dict.keys r.entries := by
  obtain ⟨grown, hentries, _, hcases⟩ := record_cases live f h r
  have hgrown : g ∈ Dict.keys grown.entries := by
    rcases hcases with ⟨_, hrecord⟩ | hrecord
    · rw [hrecord] at hg
      exact hg
    · rw [hrecord] at hg
      exact (mem_keys_livingEntries.mp hg).1
  rw [hentries, Dict.keys_set] at hgrown
  split at hgrown
  · exact Or.inr hgrown
  · exact (List.mem_append.mp hgrown).symm.imp_left List.mem_singleton.mp

/-- An insertion removes no entry of a function that is alive. -/
theorem mem_record {entry : FunctionId × History} (hentry : entry ∈ r.entries)
    (hne : entry.1 ≠ f) (hlive : live entry.1 = true) :
    entry ∈ (r.record live f h).2.entries := by
  obtain ⟨grown, hentries, _, hcases⟩ := record_cases live f h r
  have hgrown : entry ∈ grown.entries := by
    rw [hentries]
    exact Dict.mem_set_of_ne hentry hne
  rcases hcases with ⟨_, hrecord⟩ | hrecord
  · rw [hrecord]
    exact hgrown
  · rw [hrecord]
    exact List.mem_filter.mpr ⟨hgrown, hlive⟩

/-- **A threshold is moved by pruning only,** to twice the entries that are left:
these are of functions that are alive. -/
theorem pruneAt_record (hr : r.Distinct) (live : FunctionId → Bool) (f : FunctionId)
    (h : History) :
    (r.record live f h).2.pruneAt = r.pruneAt
      ∨ ∃ left : List FunctionId, left.Nodup
        ∧ (∀ g ∈ left, (g = f ∨ g ∈ Dict.keys r.entries) ∧ live g = true)
        ∧ (r.record live f h).2.pruneAt = max (2 * left.length) firstPruneAt := by
  obtain ⟨grown, hentries, hsame, ⟨_, hrecord⟩ | hrecord⟩ := record_cases live f h r
  · rw [hrecord]
    exact Or.inl hsame
  · refine Or.inr ⟨Dict.keys (r.record live f h).2.entries, hr.record, ?_, ?_⟩
    · intro g hg
      refine ⟨mem_keys_record hg, ?_⟩
      rw [hrecord] at hg
      exact (mem_keys_livingEntries.mp hg).2
    · rw [hrecord]
      exact congrArg (fun n => max (2 * n) firstPruneAt) (List.length_map _).symm

end Registry

/-! ## §4. What every event keeps. -/

/-- **What holds of a registry after any events.** -/
structure Tended (events : List RegistryEvent) (r : Registry) (live : FunctionId → Bool) : Prop where
  /-- No function has two entries. -/
  distinct : r.Distinct
  /-- The entries are of functions that were recorded. -/
  entered : ∀ f ∈ Dict.keys r.entries, ∃ h, .recorded f h ∈ events
  /-- What was dropped is gone. -/
  gone : ∀ f, .dropped f ∈ events → live f = false
  /-- What was recorded and not dropped is alive. -/
  alive : ∀ f h, .recorded f h ∈ events → .dropped f ∉ events → live f = true
  /-- What is alive has its last history. -/
  remembers : ∀ f, live f = true → r.history? f = lastRecorded events f
  /-- The entries are fewer than the threshold, -/
  small : r.size < r.pruneAt
  /-- and the threshold is not too high. -/
  low : r.pruneAt ≤ max firstPruneAt (2 * peak events)

namespace Tended

variable {events : List RegistryEvent} {r : Registry} {live : FunctionId → Bool}

theorem start (live : FunctionId → Bool) : Tended [] .empty live where
  distinct := List.nodup_nil
  entered := fun _ hf => by cases hf
  gone := fun _ hf => by cases hf
  alive := fun _ _ hf => by cases hf
  remembers := fun _ _ => rfl
  small := by decide
  low := Nat.le_max_left _ _

/-- The functions that are counted are those that were recorded and are alive. -/
theorem mem_livingRecorded (h : Tended events r live) {f : FunctionId} :
    f ∈ livingRecorded events ↔ (∃ hist, .recorded f hist ∈ events) ∧ live f = true := by
  rw [CallDecoration.mem_livingRecorded]
  constructor
  · rintro ⟨⟨hist, hrecorded⟩, hkept⟩
    exact ⟨⟨hist, hrecorded⟩, h.alive f hist hrecorded hkept⟩
  · rintro ⟨hrecorded, hlive⟩
    refine ⟨hrecorded, fun hdropped => ?_⟩
    rw [h.gone f hdropped] at hlive
    cases hlive

/-- The threshold stays low enough when it stays, and the peak only grows. -/
theorem low_concat (h : Tended events r live) (e : RegistryEvent) :
    r.pruneAt ≤ max firstPruneAt (2 * peak (events ++ [e])) := by
  have hlow := h.low
  rw [peak_concat]
  omega

theorem recorded (h : Tended events r live) {f : FunctionId} (hist : History)
    (hlive : live f = true) :
    Tended (events ++ [.recorded f hist]) (r.record live f hist).2 live := by
  have hentered : ∀ g, g = f ∨ g ∈ Dict.keys r.entries →
      ∃ hist', .recorded g hist' ∈ events ++ [.recorded f hist] := by
    rintro g (rfl | hg)
    · exact ⟨hist, by simp⟩
    · obtain ⟨hist', hmem⟩ := h.entered g hg
      exact ⟨hist', List.mem_append_left _ hmem⟩
  have hgone : ∀ g, .dropped g ∈ events ++ [.recorded f hist] → live g = false := by
    intro g hg
    exact h.gone g (by simpa using hg)
  refine
    { distinct := h.distinct.record
      entered := fun g hg => hentered g (Registry.mem_keys_record hg)
      gone := hgone
      alive := ?_
      remembers := ?_
      small := Registry.size_record_lt
      low := ?_ }
  · intro g hist' hrecorded hkept
    rcases List.mem_append.mp hrecorded with hbefore | hnow
    · exact h.alive g hist' hbefore fun hdropped => hkept (List.mem_append_left _ hdropped)
    · obtain ⟨rfl, _⟩ : g = f ∧ hist' = hist := by simpa using hnow
      exact hlive
  · intro g hg
    rw [Registry.history?_record hg, lastRecorded_concat, h.remembers g hg]
    show _ = (if f = g then some hist else none).or _
    split <;> rfl
  · rcases Registry.pruneAt_record h.distinct live f hist with
      hsame | ⟨left, hnodup, hleft, hmoved⟩
    · rw [hsame]
      exact h.low_concat _
    · -- what is left are recorded functions that are alive, so the peak is not lower
      have hcounted : left ⊆ livingRecorded (events ++ [.recorded f hist]) := by
        intro g hg
        obtain ⟨hkey, hlive'⟩ := hleft g hg
        refine CallDecoration.mem_livingRecorded.mpr ⟨hentered g hkey, fun hdropped => ?_⟩
        rw [hgone g hdropped] at hlive'
        cases hlive'
      have hle := (hnodup.subperm hcounted).length_le
      rw [hmoved, peak_concat]
      omega

theorem pruned (h : Tended events r live) :
    Tended (events ++ [.pruned]) (r.prune live).2 live where
  distinct := h.distinct.livingEntries
  entered := by
    intro g hg
    obtain ⟨hist, hmem⟩ := h.entered g (Registry.mem_keys_livingEntries.mp hg).1
    exact ⟨hist, List.mem_append_left _ hmem⟩
  gone := fun g hg => h.gone g (by simpa using hg)
  alive := fun g hist hrecorded hkept =>
    h.alive g hist (by simpa using hrecorded) fun hdropped => hkept (List.mem_append_left _ hdropped)
  remembers := by
    intro g hg
    rw [lastRecorded_concat, ← h.remembers g hg]
    exact Dict.get?_filter r.entries live hg
  small := Nat.lt_of_le_of_lt (List.length_filter_le _ _) h.small
  low := h.low_concat _

theorem dropped (h : Tended events r live) (g : FunctionId) :
    Tended (events ++ [.dropped g]) r (fun f => decide (f ≠ g) && live f) where
  distinct := h.distinct
  entered := by
    intro f hf
    obtain ⟨hist, hmem⟩ := h.entered f hf
    exact ⟨hist, List.mem_append_left _ hmem⟩
  gone := by
    intro f hf
    rcases List.mem_append.mp hf with hbefore | hnow
    · rw [h.gone f hbefore, Bool.and_false]
    · obtain rfl : f = g := by simpa using hnow
      simp
  alive := by
    intro f hist hrecorded hkept
    rw [List.mem_append, not_or] at hkept
    have hlive := h.alive f hist (by simpa using hrecorded) hkept.1
    rw [hlive, Bool.and_true, decide_eq_true_eq]
    rintro rfl
    exact hkept.2 List.mem_cons_self
  remembers := by
    intro f hf
    rw [lastRecorded_concat]
    exact h.remembers f (Bool.and_eq_true_iff.mp hf).2
  small := h.small
  low := h.low_concat _

end Tended

namespace World

theorem isLive_drop (w : World σ) (g : FunctionId) :
    (w.drop g).isLive = fun f => decide (f ≠ g) && w.isLive f := by
  funext f
  unfold isLive drop
  by_cases hf : f = g <;> simp [hf]

theorem registry_pruneRegistry (w : World σ) (id : RegistryId) :
    (w.pruneRegistry id).2.registry id = ((w.registry id).prune w.isLive).2 :=
  (w.registry_setRegistry id id _).trans (if_pos rfl)

end World

section Evolving

variable {id : RegistryId} {w₀ w w' : World σ} {events : List RegistryEvent}

theorem Tended.event {e : RegistryEvent} (hpossible : e.isPossible w = true)
    (h : Tended events (w.registry id) w.isLive) :
    Tended (events ++ [e]) ((e.perform id w).registry id) (e.perform id w).isLive := by
  cases e with
  | recorded f hist =>
      rw [perform, w.registry_recordHistory]
      exact h.recorded hist hpossible
  | pruned =>
      rw [perform, w.registry_pruneRegistry]
      exact h.pruned
  | dropped g =>
      rw [perform, w.isLive_drop]
      exact h.dropped g

/-- **A registry that begins empty is tended along all events.** -/
theorem Evolves.tended (hstart : w₀.registry id = .empty) (h : Evolves id w₀ events w) :
    Tended events (w.registry id) w.isLive := by
  induction h with
  | start =>
      rw [hstart]
      exact Tended.start w₀.isLive
  | event e hpossible _ ih => exact ih.event hpossible
  | @elsewhere events w w' hregistry hdropped _ ih =>
      have hlive : w'.isLive = w.isLive := by
        funext f
        unfold World.isLive
        rw [hdropped]
      rw [hregistry, hlive]
      exact ih

end Evolving

/-! ## §5. A registry remembers and stays small. -/

/-- **A registry that does its work:** after the events it knows all that it
has to know, and it has few entries. -/
structure Reliable (id : RegistryId) (events : List RegistryEvent) (w : World σ) : Prop where
  /-- The functions that are counted are those that were recorded and are alive. -/
  living : ∀ f, f ∈ livingRecorded events ↔ (∃ h, .recorded f h ∈ events) ∧ w.isLive f = true
  /-- Each of them is counted once. -/
  counted : (livingRecorded events).Nodup
  /-- A function that is alive has the history that was recorded for it last. -/
  remembers : ∀ f, w.isLive f = true → (w.registry id).history? f = lastRecorded events f
  /-- Recording another one gives that one back. -/
  previous : ∀ f h, w.isLive f = true → (w.recordHistory id f h).1 = lastRecorded events f
  /-- Recording, which prunes at times, removes no entry of a function that is
  alive. -/
  recording : ∀ f h, ∀ entry ∈ (w.registry id).entries, entry.1 ≠ f → w.isLive entry.1 = true →
    entry ∈ ((w.recordHistory id f h).2.registry id).entries
  /-- Pruning leaves the entries of the functions that are alive, and no others, -/
  pruning : ((w.pruneRegistry id).2.registry id).entries
    = (w.registry id).entries.filter fun entry => w.isLive entry.1
  /-- and tells how many others there were. -/
  removed : (w.pruneRegistry id).1
    = ((w.registry id).entries.filter fun entry => !w.isLive entry.1).length
  /-- There are fewer entries than 64 or twice the peak. -/
  small : (w.registry id).size < max 64 (2 * peak events)

/-- **A registry never forgets a function that is alive, and stays small,**
whatever is recorded, pruned and dropped, and in whatever order. -/
theorem Evolves.reliable {id : RegistryId} {w₀ w : World σ} {events : List RegistryEvent}
    (hstart : w₀.registry id = .empty) (h : Evolves id w₀ events w) : Reliable id events w := by
  have htended := h.tended hstart
  exact
    { living := fun f => htended.mem_livingRecorded
      counted := nodup_livingRecorded events
      remembers := htended.remembers
      previous := fun f _ hlive => htended.remembers f hlive
      recording := by
        intro f hist entry hentry hne hlive
        rw [w.registry_recordHistory]
        exact Registry.mem_record hentry hne hlive
      pruning := by
        rw [w.registry_pruneRegistry]
        rfl
      removed := Registry.prune_fst w.isLive (w.registry id)
      small := Nat.lt_of_lt_of_le htended.small htended.low }

/-! ## §6. A registry that prunes itself. -/

/-- Performs events one after the other, as long as they are possible. -/
def performAll (id : RegistryId) : World σ → List RegistryEvent → Option (World σ)
  | w, [] => some w
  | w, e :: rest => if e.isPossible w then performAll id (e.perform id w) rest else none

/-- What has been performed has happened. -/
theorem Evolves.of_performAll {id : RegistryId} {w₀ w w' : World σ}
    {before events : List RegistryEvent} (hbefore : Evolves id w₀ before w)
    (h : performAll id w events = some w') : Evolves id w₀ (before ++ events) w' := by
  induction events generalizing before w with
  | nil =>
      cases h
      rw [List.append_nil]
      exact hbefore
  | cons e rest ih =>
      rw [performAll] at h
      split at h
      case isTrue hpossible =>
        rw [← List.singleton_append, ← List.append_assoc]
        exact ih (Evolves.event e hpossible hbefore) h
      case isFalse => cases h

/-- Sixty-six functions are recorded; three of them are kept, the others are
dropped, each before the next one is recorded. -/
def crowd : List RegistryEvent :=
  (List.range 66).flatMap fun n =>
    .recorded ⟨n⟩ ⟨["w"]⟩ :: if n % 30 = 0 then [] else [.dropped ⟨n⟩]

/-- The world after that. -/
def crowded : World Unit :=
  (performAll ⟨0⟩ (World.new ()) crowd).getD (World.new ())

/-- At the sixty-fourth entry the registry prunes itself, which leaves those of
the three functions that are kept and of the one just recorded; two more come
after that. -/
theorem Evolves.reliable_crowded :
    ((World.new ()).registry ⟨0⟩ = .empty ∧ Evolves ⟨0⟩ (World.new ()) crowd crowded)
      ∧ Reliable ⟨0⟩ crowd crowded ∧ (crowded.registry ⟨0⟩).size = 6 := by
  have hpossible : (performAll ⟨0⟩ (World.new ()) crowd).isSome = true := by decide +kernel
  have hperformed : performAll ⟨0⟩ (World.new ()) crowd = some crowded := by
    obtain ⟨w, hw⟩ := Option.isSome_iff_exists.mp hpossible
    unfold crowded
    rw [hw]
    rfl
  have hcrowd : Evolves ⟨0⟩ (World.new ()) crowd crowded := Evolves.start.of_performAll hperformed
  exact ⟨⟨rfl, hcrowd⟩, Evolves.reliable rfl hcrowd, by decide +kernel⟩

end CallDecoration
