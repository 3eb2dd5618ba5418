/-
  CallDecoration.CommandLine.Program
  ──────────────────────────────────────
  **The command line.**  Arguments are read from left to right; help and
  version end the reading at once, and so does the first fault.  Otherwise the
  demonstration runs, with the settings of a file if one is named.
-/
import CallDecoration.CommandLine.Demo
import CallDecoration.Settings.File

namespace CallDecoration.CommandLine

open CallDecoration.Demo (Output)

/-! ## §1. Texts. -/

/-- The version of the program. -/
def version : String := "0.1.0"

/-- The length of the chain when none is given. -/
def standardDepth : Nat := 3

/-- The greatest length of the chain. -/
def maxDepth : Nat := 127

/-- How the program is used. -/
def usage : String :=
  "Recwrap v" ++ version ++ "\n"
    ++ "\n"
    ++ "USAGE:\n"
    ++ "    recwrap [OPTIONS]\n"
    ++ "\n"
    ++ "OPTIONS:\n"
    ++ "    -h, --help           Print this help message\n"
    ++ "    -v, --version        Print version information\n"
    ++ "    --trace              Log every executed instruction\n"
    ++ "    --disassemble        Print the decorated entry function\n"
    ++ "    --config <FILE>      Load VM settings from a TOML file\n"
    ++ "    --depth <N>          Length of the demo call chain (default: "
    ++ Text.decimal standardDepth ++ ")\n"
    ++ "\n"
    ++ "Builds a chain of functions, each calling the next, decorates the\n"
    ++ "first one with a counting transformation and runs it.\n"
    ++ "\n"
    ++ "EXAMPLES:\n"
    ++ "    recwrap --depth 5\n"
    ++ "    RUST_LOG=recwrap=debug recwrap --disassemble\n"

/-! ## §2. Arguments. -/

/-- What the arguments ask of the demonstration. -/
structure Options where
  trace : Bool
  disassemble : Bool
  config? : Option String
  depth : Nat
  deriving DecidableEq, Repr

/-- The options when no argument is given. -/
def Options.standard : Options :=
  ⟨false, false, none, standardDepth⟩

/-- What the arguments ask for. -/
inductive Request where
  | help
  | version
  | demo (options : Options)
  deriving DecidableEq, Repr

/-- What is wrong with the arguments. -/
inductive UsageError where
  | missingFile
  | missingDepth
  | invalidDepth (text : String)
  | depthOutOfRange
  | unknownOption (text : String)
  deriving DecidableEq, Repr

/-- The text of a usage error. -/
def UsageError.message : UsageError → String
  | missingFile => "Missing file after --config"
  | missingDepth => "Missing value after --depth"
  | invalidDepth text => "Invalid depth: " ++ text
  | depthOutOfRange => "Depth must be between 1 and " ++ Text.decimal maxDepth
  | unknownOption text => "Unknown option: " ++ text

/-- The depth that a text spells. -/
def readDepth (text : String) : Except UsageError Nat :=
  match Text.readUInt64? text.toList with
  | none => .error (.invalidDepth text)
  | some n => if 1 ≤ n ∧ n ≤ maxDepth then .ok n else .error .depthOutOfRange

/-- **Reads the arguments,** on top of the options read so far. -/
def parse (options : Options) : List String → Except UsageError Request
  | [] => .ok (.demo options)
  | "--config" :: [] => .error .missingFile
  | "--config" :: file :: rest => parse { options with config? := some file } rest
  | "--depth" :: [] => .error .missingDepth
  | "--depth" :: text :: rest =>
      match readDepth text with
      | .error e => .error e
      | .ok n => parse { options with depth := n } rest
  | arg :: rest =>
      if arg = "-h" ∨ arg = "--help" then .ok .help
      else if arg = "-v" ∨ arg = "--version" then .ok .version
      else if arg = "--trace" then parse { options with trace := true } rest
      else if arg = "--disassemble" then parse { options with disassemble := true } rest
      else .error (.unknownOption arg)

/-! ## §3. Settings. -/

/-- Why a file could not be read. -/
inductive ReadFailure where
  | noSuchFile
  | permissionDenied
  | notDirectory
  | isDirectory
  | nameTooLong
  /-- Any other failure of the system, with its description and number. -/
  | system (description : String) (number : Nat)
  /-- The file is not text. -/
  | notText
  deriving DecidableEq, Repr

namespace ReadFailure

/-- The failure that the system reports under a number. -/
def ofNumber (description : String) : (number : Nat) → ReadFailure
  | 2 => noSuchFile
  | 13 => permissionDenied
  | 20 => notDirectory
  | 21 => isDirectory
  | 36 => nameTooLong
  | number => system description number

/-- A description with the number of a system error. -/
def numbered (description : String) (number : Nat) : String :=
  description ++ " (os error " ++ Text.decimal number ++ ")"

/-- The text of a read failure. -/
def message : ReadFailure → String
  | noSuchFile => numbered "No such file or directory" 2
  | permissionDenied => numbered "Permission denied" 13
  | notDirectory => numbered "Not a directory" 20
  | isDirectory => numbered "Is a directory" 21
  | nameTooLong => numbered "File name too long" 36
  | system description number => numbered description number
  | notText => "stream did not contain valid UTF-8"

end ReadFailure

/-- The settings from the contents of a file, or what to print.  A text is read by
`ofText`, which gives settings or says what is wrong. -/
def loadSettings (ofText : String → Except String Settings) (file : Except ReadFailure String) :
    Except String Settings :=
  match file with
  | .error failure => .error ("Cannot read config: " ++ failure.message)
  | .ok text =>
      match ofText text with
      | .error problem => .error ("Invalid config: " ++ problem)
      | .ok s => .ok s

/-! ## §4. The program. -/

/-- The settings of a run: from a file if one is named; an option can switch
tracing on. -/
def settingsOf (ofText : String → Except String Settings) (options : Options)
    (read : String → Except ReadFailure String) : Except String Settings :=
  match options.config? with
  | none => .ok { Settings.standard with trace := options.trace }
  | some path =>
      match loadSettings ofText (read path) with
      | .error problem =>
          .error ("Error loading config '" ++ path ++ "': " ++ problem ++ "\n")
      | .ok s => .ok { s with trace := s.trace || options.trace }

/-- The output of the program for its arguments, where `read` gives the contents of
files and `ofText` reads the settings that they describe. -/
def runWith (ofText : String → Except String Settings) (args : List String)
    (read : String → Except ReadFailure String) : Output :=
  match parse .standard args with
  | .error e => ⟨1, "", "Error: " ++ e.message ++ "\n\n" ++ usage⟩
  | .ok .help => ⟨0, "", usage⟩
  | .ok .version => ⟨0, "Recwrap " ++ version ++ "\n", ""⟩
  | .ok (.demo options) =>
      match settingsOf ofText options read with
      | .error text => ⟨1, "", text⟩
      | .ok settings => Demo.run settings options.depth options.disassemble

/-- **The output of the program,** with the settings files of this library. -/
def run (args : List String) (read : String → Except ReadFailure String) : Output :=
  runWith (fun text => (Settings.ofText text).mapError Settings.FileError.message) args read

/-- The file that a run with these arguments reads. -/
def configPath? (args : List String) : Option String :=
  match parse .standard args with
  | .ok (.demo options) => options.config?
  | _ => none

end CallDecoration.CommandLine
