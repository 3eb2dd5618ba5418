/-
  CallDecoration.Settings
  ──────────────────────────────────────
  **The settings of a machine.**
-/

namespace CallDecoration

/-- The limits of a machine, and whether it reports what it executes. -/
structure Settings where
  /-- The greatest number of values on the stack. -/
  maxValueStack : Nat
  /-- The greatest number of frames. -/
  maxCallDepth : Nat
  /-- Whether executed instructions are reported; no result depends on it. -/
  trace : Bool
  deriving DecidableEq, Repr

/-- The settings that hold where none are given. -/
def Settings.standard : Settings :=
  ⟨65536, 512, false⟩

end CallDecoration
