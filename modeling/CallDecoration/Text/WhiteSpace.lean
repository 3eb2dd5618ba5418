/-
  CallDecoration.Text.WhiteSpace
  ──────────────────────────────────────
  **The Unicode property `White_Space`,** and trimming by it.
-/
import CallDecoration.Text.Ranges

namespace CallDecoration.Text

/-- The code points with the property `White_Space`. -/
def whiteSpaceRanges : List (Nat × Nat) :=
  [(0x9, 0xD), (0x20, 0x20), (0x85, 0x85), (0xA0, 0xA0), (0x1680, 0x1680),
   (0x2000, 0x200A), (0x2028, 0x2029), (0x202F, 0x202F), (0x205F, 0x205F),
   (0x3000, 0x3000)]

/-- Whether `c` is white space. -/
def isWhiteSpace (c : Char) : Bool :=
  inRanges c.toNat whiteSpaceRanges

/-- The text without the white space at its two ends. -/
def trim (cs : List Char) : List Char :=
  ((cs.dropWhile isWhiteSpace).reverse.dropWhile isWhiteSpace).reverse

end CallDecoration.Text
