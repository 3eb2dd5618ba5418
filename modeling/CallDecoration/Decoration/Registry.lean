/-
  CallDecoration.Decoration.Registry
  ──────────────────────────────────────
  **Registries keep histories beside the functions,** keyed by their
  identity.  A registry does not keep a function alive: entries of functions
  that are gone are removed by pruning, which also happens by itself whenever
  an insertion brings the number of entries to a threshold.  The threshold is
  then set to twice the entries that are left, and never below 64.
-/
import CallDecoration.Decoration.History
import CallDecoration.Value.Basic

namespace CallDecoration

/-- The size at which a registry first prunes itself. -/
def firstPruneAt : Nat := 64

/-- Histories by function. -/
structure Registry where
  entries : Dict FunctionId History
  /-- The size at which the next insertion prunes. -/
  pruneAt : Nat
  deriving DecidableEq, Repr

namespace Registry

/-- No history recorded. -/
def empty : Registry :=
  ⟨[], firstPruneAt⟩

/-- The history recorded for a function. -/
def history? (r : Registry) (f : FunctionId) : Option History :=
  Dict.get? r.entries f

/-- The history recorded for a function, empty if there is none. -/
def historyOf (r : Registry) (f : FunctionId) : History :=
  (r.history? f).getD .empty

/-- How many entries there are. -/
def size (r : Registry) : Nat :=
  r.entries.length

/-- The entries whose function is alive. -/
def livingEntries (live : FunctionId → Bool) (r : Registry) : Dict FunctionId History :=
  r.entries.filter fun entry => live entry.1

/-- **Removes the entries of functions that are gone** and tells how many
there were. -/
def prune (live : FunctionId → Bool) (r : Registry) : Nat × Registry :=
  let kept := r.livingEntries live
  (r.size - kept.length, { r with entries := kept })

/-- **Records a history** and gives the one recorded before. -/
def record (live : FunctionId → Bool) (f : FunctionId) (h : History) (r : Registry) :
    Option History × Registry :=
  let entries := Dict.set r.entries f h
  let grown : Registry := { r with entries := entries }
  let next :=
    if entries.length < r.pruneAt then grown
    else
      let kept := grown.livingEntries live
      ⟨kept, max (2 * kept.length) firstPruneAt⟩
  (r.history? f, next)

/-- Whether the transformation `name` may be applied to a value: only
functions qualify, and each only once. -/
def isEligible (r : Registry) (target : Value) (name : String) : Bool :=
  match target with
  | .function f => !(r.historyOf f.id).contains name
  | _ => false

end Registry

end CallDecoration
