/-
  CallDecoration.Text.Hex
  ──────────────────────────────────────
  **Hexadecimal text.**  Code offsets and bytes are shown with lower-case
  digits, padded with zeros up to a least width; a number that needs more
  digits than the width keeps all of them.
-/

namespace CallDecoration.Text

/-- The lower-case hexadecimal digits of `n`, most significant first, without
padding. -/
def hexDigits (n : Nat) : List Char :=
  Nat.toDigits 16 n

/-- `n` in hexadecimal, padded on the left with zeros to at least `width`
digits. -/
def hex (width n : Nat) : String :=
  let digits := hexDigits n
  String.ofList (List.replicate (width - digits.length) '0' ++ digits)

/-- Two digits for each byte, in order. -/
def hexBytes (bytes : Array UInt8) : String :=
  bytes.foldl (fun text byte => text ++ hex 2 byte.toNat) ""

/-- The value of one hexadecimal digit in either case. -/
def hexValue? (c : Char) : Option Nat :=
  if '0' ≤ c ∧ c ≤ '9' then some (c.toNat - '0'.toNat)
  else if 'a' ≤ c ∧ c ≤ 'f' then some (c.toNat - 'a'.toNat + 10)
  else if 'A' ≤ c ∧ c ≤ 'F' then some (c.toNat - 'A'.toNat + 10)
  else none

/-- **Reads what `hexBytes` writes**, two digits a byte; `none` on a stray
character or an odd number of digits. -/
def readHexBytes? : List Char → Option (List UInt8)
  | [] => some []
  | [_] => none
  | high :: low :: rest => do
      let h ← hexValue? high
      let l ← hexValue? low
      let bytes ← readHexBytes? rest
      return UInt8.ofNat (16 * h + l) :: bytes

end CallDecoration.Text
