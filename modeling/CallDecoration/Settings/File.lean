/-
  CallDecoration.Settings.File
  ──────────────────────────────────────
  **Settings files.**  A file has one assignment of a key to a value on a
  line; blank lines and comments behind `#` are ignored.  A key may be quoted.
  The two limits take a natural number below 2^63, in base ten, two, eight or
  sixteen, with single underscores between digits; `trace` takes `true` or
  `false`.  A key that is not given keeps its standard value, and a key that
  is not known, or is given twice, makes the file invalid.
-/
import CallDecoration.Settings
import CallDecoration.Text.Hex
import CallDecoration.Text.Integer
import CallDecoration.Dict

namespace CallDecoration.Settings

/-! ## §1. Errors. -/

/-- What is wrong with a line of a settings file. -/
inductive LineProblem where
  | malformed
  | unknownKey (key : String)
  | repeatedKey (key : String)
  | wrongValue (key : String)
  deriving DecidableEq, Repr

/-- What is wrong with a settings file, and in which line, counted from 1. -/
structure FileError where
  line : Nat
  problem : LineProblem
  deriving DecidableEq, Repr

/-- The text of a line problem. -/
def LineProblem.message : LineProblem → String
  | malformed => "expected a key, an equals sign and a value"
  | unknownKey key => "unknown key " ++ key
  | repeatedKey key => "key " ++ key ++ " is given twice"
  | wrongValue key => "key " ++ key ++ " does not take this value"

/-- The text of a file error. -/
def FileError.message (e : FileError) : String :=
  "line " ++ Text.decimal e.line ++ ": " ++ e.problem.message

/-! ## §2. Characters and lines. -/

/-- A blank inside a line. -/
def isBlank (c : Char) : Bool :=
  c == ' ' || c == '\t'

/-- Whether `c` may stand in a comment or between quotes: any character but
the controls, of which only the tab may. -/
def isTextChar (c : Char) : Bool :=
  c == '\t' || (decide (0x20 ≤ c.toNat) && c.toNat != 0x7F)

/-- The lines of a text, without their line feeds. -/
def splitLines : List Char → List (List Char)
  | [] => [[]]
  | '\n' :: rest => [] :: splitLines rest
  | c :: rest =>
      match splitLines rest with
      | [] => [[c]]
      | line :: later => (c :: line) :: later

/-- Removes the carriage return that may stand before a line feed, which is to
say at the end of every line but the last. -/
def dropReturns : List (List Char) → List (List Char)
  | [] => []
  | [last] => [last]
  | line :: rest =>
      (if line.getLast? = some '\r' then line.dropLast else line) :: dropReturns rest

/-- The text without a byte order mark in front. -/
def dropMark : List Char → List Char
  | [] => []
  | c :: rest => if c.toNat = 0xFEFF then rest else c :: rest

/-- Whether what follows an assignment is blank or a comment. -/
def endsLine (cs : List Char) : Bool :=
  match cs.dropWhile isBlank with
  | [] => true
  | c :: rest => c == '#' && rest.all isTextChar

/-! ## §3. Keys. -/

/-- A character of a key without quotes. -/
def isKeyChar (c : Char) : Bool :=
  c.isAlphanum || c == '_' || c == '-'

/-- The character of a code point, if it is a scalar value. -/
def scalar? (n : Nat) : Option Char :=
  if n.isValidChar then some (Char.ofNat n) else none

/-- The number that hexadecimal digits spell. -/
def hexNumber? (cs : List Char) : Option Nat :=
  cs.foldlM (fun n c => (Text.hexValue? c).map (16 * n + ·)) 0

/-- The character of a one-letter escape. -/
def shortEscape? : Char → Option Char
  | 'b' => some '\x08'
  | 't' => some '\t'
  | 'n' => some '\n'
  | 'f' => some '\x0c'
  | 'r' => some '\r'
  | '"' => some '"'
  | '\\' => some '\\'
  | _ => none

/-- Text in double quotes, from behind the opening quote: the text, and what
follows the closing quote. -/
def doubleQuoted? : List Char → Option (List Char × List Char)
  | [] => none
  | '"' :: rest => some ([], rest)
  | '\\' :: 'u' :: a :: b :: c :: d :: rest => do
      let char ← scalar? (← hexNumber? [a, b, c, d])
      let (text, after) ← doubleQuoted? rest
      return (char :: text, after)
  | '\\' :: 'U' :: a :: b :: c :: d :: e :: f :: g :: h :: rest => do
      let char ← scalar? (← hexNumber? [a, b, c, d, e, f, g, h])
      let (text, after) ← doubleQuoted? rest
      return (char :: text, after)
  | '\\' :: c :: rest => do
      let char ← shortEscape? c
      let (text, after) ← doubleQuoted? rest
      return (char :: text, after)
  | c :: rest =>
      if isTextChar c && c != '\\' then do
        let (text, after) ← doubleQuoted? rest
        return (c :: text, after)
      else none

/-- Text in single quotes, from behind the opening quote. -/
def singleQuoted? : List Char → Option (List Char × List Char)
  | [] => none
  | '\x27' :: rest => some ([], rest)
  | c :: rest =>
      if isTextChar c then do
        let (text, after) ← singleQuoted? rest
        return (c :: text, after)
      else none

/-- The key at the beginning of a line, and what follows it. -/
def key? : List Char → Option (List Char × List Char)
  | '"' :: rest => doubleQuoted? rest
  | '\x27' :: rest => singleQuoted? rest
  | cs =>
      match cs.span isKeyChar with
      | ([], _) => none
      | found => some found

/-! ## §4. Values. -/

/-- A value that a setting can take. -/
inductive Entry where
  | number (n : Nat)
  | boolean (b : Bool)
  deriving DecidableEq, Repr

/-- Digits in a base, with single underscores between them; gives the number
that they spell after `acc`. -/
def separatedDigits? (base acc : Nat) : List Char → Option Nat
  | [] => none
  | [c] => (digit? base c).map (base * acc + ·)
  | c :: '_' :: rest => do separatedDigits? base (base * acc + (← digit? base c)) rest
  | c :: rest => do separatedDigits? base (base * acc + (← digit? base c)) rest
where
  /-- The value of a digit in a base up to sixteen. -/
  digit? (base : Nat) (c : Char) : Option Nat :=
    (Text.hexValue? c).filter (· < base)

/-- A number in base ten without leading zeros. -/
def plainNumber? : List Char → Option Nat
  | ['0'] => some 0
  | '0' :: _ => none
  | cs => separatedDigits? 10 0 cs

/-- A number: only one in base ten may have a sign, and only zero a minus
sign. -/
def number? : List Char → Option Nat
  | '0' :: 'x' :: rest => separatedDigits? 16 0 rest
  | '0' :: 'o' :: rest => separatedDigits? 8 0 rest
  | '0' :: 'b' :: rest => separatedDigits? 2 0 rest
  | '+' :: rest => plainNumber? rest
  | '-' :: rest => (plainNumber? rest).filter (· == 0)
  | cs => plainNumber? cs

/-- A value. -/
def entry? (cs : List Char) : Option Entry :=
  if cs = "true".toList then some (.boolean true)
  else if cs = "false".toList then some (.boolean false)
  else ((number? cs).filter (· < 0x8000000000000000)).map .number

/-! ## §5. Files. -/

/-- An assignment, or nothing if the line is empty; the value is kept as it is
spelled. -/
def assignment? (line : List Char) : Option (Option (String × List Char)) :=
  if endsLine line then some none
  else do
    let (key, rest) ← key? (line.dropWhile isBlank)
    match rest.dropWhile isBlank with
    | '=' :: rest =>
        let (value, rest) :=
          (rest.dropWhile isBlank).span fun c => !isBlank c && c != '#'
        if endsLine rest then return some (String.ofList key, value) else none
    | _ => none

/-- The settings with one key set. -/
def assign (s : Settings) (key : String) (value : List Char) :
    Except LineProblem Settings :=
  match key, entry? value with
  | "max_value_stack", some (.number n) => .ok { s with maxValueStack := n }
  | "max_call_depth", some (.number n) => .ok { s with maxCallDepth := n }
  | "trace", some (.boolean b) => .ok { s with trace := b }
  | _, _ =>
      if ["max_value_stack", "max_call_depth", "trace"].contains key then
        .error (.wrongValue key)
      else .error (.unknownKey key)

/-- Applies the lines of a file from line `number` on; `seen` are the keys
given so far. -/
def applyLines (s : Settings) (seen : List String) (number : Nat) :
    List (List Char) → Except FileError Settings
  | [] => .ok s
  | line :: rest =>
      match assignment? line with
      | none => .error ⟨number, .malformed⟩
      | some none => applyLines s seen (number + 1) rest
      | some (some (key, value)) =>
          if seen.contains key then .error ⟨number, .repeatedKey key⟩
          else
            match s.assign key value with
            | .error problem => .error ⟨number, problem⟩
            | .ok s => applyLines s (key :: seen) (number + 1) rest

/-- **The settings that a file describes.** -/
def ofText (text : String) : Except FileError Settings :=
  applyLines standard [] 1 (dropReturns (splitLines (dropMark text.toList)))

end CallDecoration.Settings
