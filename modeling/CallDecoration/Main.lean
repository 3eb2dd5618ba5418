/-
  CallDecoration.Main
  ──────────────────────────────────────
  **The executable.**  It reads the settings file that the arguments name, if
  any, and prints what the program answers.
-/
import CallDecoration.CommandLine.Program

open CallDecoration CallDecoration.CommandLine

/-- The failure for a system error number, which some calls report
negated. -/
def failureOfNumber (number : UInt32) (description : String) : ReadFailure :=
  ReadFailure.ofNumber description number.toInt32.toInt.natAbs

/-- The failure that an error of the system stands for. -/
def failureOf : IO.Error → ReadFailure
  | .noFileOrDirectory _ number details => failureOfNumber number details
  | .permissionDenied _ number details => failureOfNumber number details
  | .inappropriateType _ number details => failureOfNumber number details
  | .invalidArgument _ number details => failureOfNumber number details
  | .resourceExhausted _ number details => failureOfNumber number details
  | .noSuchThing _ number details => failureOfNumber number details
  | .hardwareFault number details => failureOfNumber number details
  | .otherError number details => failureOfNumber number details
  | other => .system other.toString 5

/-- The contents of a file, or why it cannot be read. -/
def readSettingsFile (path : String) : IO (Except ReadFailure String) := do
  match ← (IO.FS.readBinFile path).toBaseIO with
  | .ok bytes =>
      match String.fromUTF8? bytes with
      | some text => return .ok text
      | none => return .error .notText
  | .error e => return .error (failureOf e)

/-- Runs the program. -/
def main (args : List String) : IO UInt32 := do
  let file ←
    match configPath? args with
    | some path => readSettingsFile path
    | none => pure (.ok "")
  let output := run args fun _ => file
  IO.print output.stdout
  IO.eprint output.stderr
  return UInt32.ofNat output.code
