/-
  CallDecoration.Function.Listing
  ──────────────────────────────────────
  **Listings of code.**  A listing shows each instruction behind its offset;
  constants and global names are shown beside their index.  A byte at which no
  instruction decodes is shown by itself, and the listing goes on behind it.
-/
import CallDecoration.Value.Display

namespace CallDecoration

/-! ## §1. Lines. -/

/-- One entry of a listing. -/
inductive ListingItem where
  | instruction (i : Instruction)
  | undecodable (byte : UInt8)
  deriving DecidableEq, Repr

/-- The entry at `offset`, and the offset behind it. -/
def listingItemAt (code : Array UInt8) (offset : Nat) : ListingItem × Nat :=
  match decodeAt code offset with
  | .ok (i, next) => (.instruction i, next)
  | .error _ => (.undecodable (byteAt code offset), offset + 1)

/-- **The entries from `offset` to the end of the code,** each with its
offset.  Every entry takes a byte at least, so as many steps as there are
bytes are enough. -/
def listingFrom (code : Array UInt8) : (steps offset : Nat) → List (Nat × ListingItem)
  | 0, _ => []
  | steps + 1, offset =>
      if offset < code.size then
        let (item, next) := listingItemAt code offset
        (offset, item) :: listingFrom code steps next
      else []

/-- The entries of a whole body. -/
def listing (code : Array UInt8) : List (Nat × ListingItem) :=
  listingFrom code code.size 0

/-! ## §2. Text. -/

namespace Chunk

/-- What an index in an instruction refers to, in parentheses. -/
def remark (c : Chunk Value) : Instruction → String
  | .pushConstant index =>
      " (" ++ (((c.constants[index.toNat]?).map Value.display).getD "???") ++ ")"
  | .loadGlobal index | .storeGlobal index =>
      " (" ++ ((c.names[index.toNat]?).getD "???") ++ ")"
  | _ => ""

/-- The text of an entry. -/
def itemText (c : Chunk Value) : ListingItem → String
  | .instruction i => i.text ++ c.remark i
  | .undecodable byte => "??? (0x" ++ Text.hex 2 byte.toNat ++ ")"

/-- The lines above the instructions. -/
def listingHeader (c : Chunk Value) : String :=
  "=== " ++ c.name ++ " ===\n"
    ++ "params: " ++ Text.decimal c.signature.positional.length
    ++ ", kwonly: " ++ Text.decimal c.signature.keywordOnly.length
    ++ ", locals: " ++ Text.decimal c.localCount
    ++ ", constants: " ++ Text.decimal c.constants.size ++ "\n"

/-- **The listing of a chunk.** -/
def disassemble (c : Chunk Value) : String :=
  (listing c.code).foldl
    (fun text entry =>
      text ++ Text.hex 4 entry.1 ++ " " ++ c.itemText entry.2 ++ "\n")
    c.listingHeader

end Chunk

namespace Function

/-- The lines of a capture table, from index `i`. -/
def captureLines : (i : Nat) → List (Capture Value) → String
  | _, [] => ""
  | i, capture :: rest =>
      "  [" ++ Text.decimal i ++ "] " ++ capture.name ++ " = " ++ capture.value.display
        ++ "\n" ++ captureLines (i + 1) rest

/-- **The listing of a function:** its body, and its captures if it has
any. -/
def disassemble (f : Function Value) : String :=
  f.body.disassemble
    ++ (if f.captures.isEmpty then ""
        else "captures:\n" ++ captureLines 0 f.captures.toList)

end Function

end CallDecoration
