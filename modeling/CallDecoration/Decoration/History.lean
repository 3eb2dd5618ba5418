/-
  CallDecoration.Decoration.History
  ──────────────────────────────────────
  **Histories: which transformations a function already carries,** oldest
  first, each by its name.
-/

namespace CallDecoration

/-- The names of the transformations applied to one function. -/
structure History where
  names : List String
  deriving DecidableEq, Repr

namespace History

/-- Nothing applied yet. -/
def empty : History :=
  ⟨[]⟩

/-- Whether the transformation `name` has been applied. -/
def contains (h : History) (name : String) : Bool :=
  h.names.contains name

/-- The history with one more transformation. -/
def extend (h : History) (name : String) : History :=
  ⟨h.names ++ [name]⟩

/-- The history as text. -/
def display (h : History) : String :=
  "[" ++ String.intercalate ", " h.names ++ "]"

end History

end CallDecoration
