/-
  CallDecoration.Text.Quoted
  ──────────────────────────────────────
  **Quoted text.**  A string is shown between double quotes.  The double
  quote and the backslash get a backslash in front; tab, line feed, carriage
  return and NUL have short escapes; any other character that is not
  printable, or that would attach to the one before it, is written as its
  code point in braces.  A single quote stays as it is.
-/
import CallDecoration.Text.Hex
import CallDecoration.Text.Printable

namespace CallDecoration.Text

/-- `c` as its code point: `\u`, an opening brace, lower-case hexadecimal
without padding, a closing brace. -/
def codePointEscape (c : Char) : List Char :=
  ['\\', 'u', '\x7b'] ++ hexDigits c.toNat ++ ['\x7d']

/-- How one character is shown inside quotes. -/
def escape (c : Char) : List Char :=
  if c = '\x00' then ['\\', '0']
  else if c = '\t' then ['\\', 't']
  else if c = '\n' then ['\\', 'n']
  else if c = '\r' then ['\\', 'r']
  else if c = '"' then ['\\', '"']
  else if c = '\\' then ['\\', '\\']
  else if isAttached c || !isPrintable c then codePointEscape c
  else [c]

/-- **The quoted form of a string.** -/
def quote (s : String) : String :=
  String.ofList ('"' :: (s.toList.flatMap escape ++ ['"']))

end CallDecoration.Text
