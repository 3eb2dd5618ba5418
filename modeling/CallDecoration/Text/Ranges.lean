/-
  CallDecoration.Text.Ranges
  ──────────────────────────────────────
  **Character properties as ascending ranges of code points.**
-/

namespace CallDecoration.Text

/-- Whether `n` lies in one of the closed ranges, which are listed in
ascending order: the search stops at the first range above `n`. -/
def inRanges (n : Nat) : List (Nat × Nat) → Bool
  | [] => false
  | (low, high) :: rest =>
      if n < low then false
      else if n ≤ high then true
      else inRanges n rest

end CallDecoration.Text
