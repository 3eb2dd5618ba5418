/-
  CallDecoration.Text.Integer
  ──────────────────────────────────────
  **Decimal integers as text.**  An integer is an optional single sign and
  one or more ASCII digits; leading zeros are allowed, blanks and separators
  are not.
-/

namespace CallDecoration.Text

/-- One or more ASCII digits, read in base ten. -/
def readDigits? (cs : List Char) : Option Nat :=
  if cs ≠ [] ∧ cs.all Char.isDigit then some (Nat.ofDigitChars 10 cs 0) else none

/-- An optional sign and one or more digits. -/
def readInt? : List Char → Option Int
  | '-' :: cs => (readDigits? cs).map fun n => -(n : Int)
  | '+' :: cs => (readDigits? cs).map Int.ofNat
  | cs => (readDigits? cs).map Int.ofNat

/-- Whether `n` is a signed 64-bit integer. -/
def fitsInt64 (n : Int) : Bool :=
  decide (-0x8000000000000000 ≤ n) && decide (n < 0x8000000000000000)

/-- `n` as a signed 64-bit integer, when it is one. -/
def toInt64? (n : Int) : Option Int64 :=
  if fitsInt64 n then some (Int64.ofInt n) else none

/-- **Reads a signed 64-bit integer;** `none` on malformed text and on values
out of range. -/
def readInt64? (cs : List Char) : Option Int64 :=
  (readInt? cs).bind toInt64?

/-- **Reads an unsigned 64-bit integer:** digits with at most a plus sign in
front. -/
def readUInt64? (cs : List Char) : Option Nat :=
  let digits :=
    match cs with
    | '+' :: rest => rest
    | _ => cs
  (readDigits? digits).filter (· < 0x10000000000000000)

/-- The decimal text of an integer: a minus sign for negative ones, no leading
zeros. -/
def decimal (n : Int) : String :=
  n.repr

end CallDecoration.Text
