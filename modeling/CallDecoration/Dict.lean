/-
  CallDecoration.Dict
  ──────────────────────────────────────
  **Dictionaries in insertion order.**  A dictionary is the list of its
  entries.  Setting a key that is present keeps its place and replaces its
  value; a new key goes to the end.  If a list holds a key twice, the first
  entry is the one that counts.
-/

namespace CallDecoration

/-- Entries in insertion order. -/
abbrev Dict (κ ν : Type) := List (κ × ν)

namespace Dict

variable {κ ν : Type} [DecidableEq κ]

/-- The value of `key`, if there is one. -/
def get? : Dict κ ν → κ → Option ν
  | [], _ => none
  | (k, v) :: rest, key => if k = key then some v else get? rest key

/-- Whether `key` has a value. -/
def contains (d : Dict κ ν) (key : κ) : Bool :=
  (get? d key).isSome

/-- Gives `key` the value `value`: in its place if it is present, at the end
if it is new. -/
def set : Dict κ ν → κ → ν → Dict κ ν
  | [], key, value => [(key, value)]
  | (k, v) :: rest, key, value =>
      if k = key then (k, value) :: rest else (k, v) :: set rest key value

/-- The dictionary without `key`. -/
def erase (d : Dict κ ν) (key : κ) : Dict κ ν :=
  d.filter fun entry => decide (entry.1 ≠ key)

/-- The keys in order. -/
def keys (d : Dict κ ν) : List κ :=
  d.map Prod.fst

/-- Sets every entry of `e` in `d`, in the order of `e`. -/
def merge (d e : Dict κ ν) : Dict κ ν :=
  e.foldl (fun merged entry => set merged entry.1 entry.2) d

/-- The dictionary that a list of entries describes: a repeated key keeps its
first place and takes its last value. -/
def ofEntries (entries : List (κ × ν)) : Dict κ ν :=
  merge [] entries

end Dict

end CallDecoration
