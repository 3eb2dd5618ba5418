/-
  CallDecoration.Stack
  ──────────────────────────────────────
  **Stacks that know their height.**  The items are kept top first; the
  height is stored beside them, with the proof that it is their number, so
  that asking for it costs nothing.  Groups of items are handed out bottom
  first, in the order in which they were pushed.
-/

namespace CallDecoration

/-- A stack of `α`. -/
structure Stack (α : Type) where
  /-- The items, top first. -/
  items : List α
  /-- How many items there are. -/
  height : Nat
  /-- The stored height is the number of items. -/
  height_eq : items.length = height

namespace Stack

variable {α : Type}

/-- The stack without items. -/
def empty : Stack α :=
  ⟨[], 0, rfl⟩

/-- Puts `x` on top. -/
def push (x : α) (s : Stack α) : Stack α :=
  ⟨x :: s.items, s.height + 1, by simp [s.height_eq]⟩

/-- The top item. -/
def top? (s : Stack α) : Option α :=
  s.items.head?

/-- The top item and the stack below it. -/
def pop? (s : Stack α) : Option (α × Stack α) :=
  match s with
  | ⟨[], _, _⟩ => none
  | ⟨x :: rest, height, same⟩ =>
      some (x, ⟨rest, height - 1, by simp [← same]⟩)

/-- The top `n` items, bottom first, and the stack below them; `none` if there
are fewer. -/
def popMany? (n : Nat) (s : Stack α) : Option (List α × Stack α) :=
  if n ≤ s.height then
    some ((s.items.take n).reverse,
      ⟨s.items.drop n, s.height - n, by simp [s.height_eq]⟩)
  else none

/-- The lowest `n` items; the whole stack if it has no more. -/
def truncate (n : Nat) (s : Stack α) : Stack α :=
  ⟨s.items.drop (s.height - n), s.height - (s.height - n), by simp [s.height_eq]⟩

/-- Exchanges the two topmost items. -/
def swap? (s : Stack α) : Option (Stack α) :=
  match s with
  | ⟨x :: y :: rest, height, same⟩ => some ⟨y :: x :: rest, height, same⟩
  | _ => none

/-- Puts the top item below the two under it: `a b c` becomes `c a b`. -/
def rotate3? (s : Stack α) : Option (Stack α) :=
  match s with
  | ⟨x :: y :: z :: rest, height, same⟩ => some ⟨y :: z :: x :: rest, height, same⟩
  | _ => none

/-- Applies `f` to the top item; the empty stack stays as it is. -/
def modifyTop (f : α → α) (s : Stack α) : Stack α :=
  match s with
  | ⟨[], height, same⟩ => ⟨[], height, same⟩
  | ⟨x :: rest, height, same⟩ => ⟨f x :: rest, height, same⟩

/-- **Two stacks with the same items are the same stack.** -/
theorem ext_items {s t : Stack α} (h : s.items = t.items) : s = t := by
  obtain ⟨si, sh, hs⟩ := s
  obtain ⟨ti, th, ht⟩ := t
  subst hs
  subst ht
  simp_all

end Stack

end CallDecoration
