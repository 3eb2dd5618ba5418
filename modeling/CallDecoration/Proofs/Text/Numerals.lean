/-
  CallDecoration.Proofs.Text.Numerals
  ──────────────────────────────────────
  **The grammar of integers as text.**  An integer is spelled by an optional
  single sign and one or more ASCII digits (`Spells`), and reading accepts
  exactly that (`readInt?_eq_some_iff`), within 64 bits
  (`readInt64?_eq_some_iff`).  Trimming takes off the white space at both ends
  and nothing else (`trim_eq_iff`).
-/
import CallDecoration.Proofs.Text.Reading
import CallDecoration.Text.WhiteSpace
import Mathlib.Data.List.Induction
import Mathlib.Data.List.TakeWhile

namespace CallDecoration.Text

/-! ## §1. Signed 64-bit integers. -/

/-- **The integers of 64 bits.** -/
def InInt64 (n : Int) : Prop :=
  -0x8000000000000000 ≤ n ∧ n < 0x8000000000000000

instance (n : Int) : Decidable (InInt64 n) :=
  inferInstanceAs (Decidable (_ ∧ _))

theorem fitsInt64_iff {n : Int} : fitsInt64 n = true ↔ InInt64 n := by
  unfold fitsInt64 InInt64
  rw [Bool.and_eq_true, decide_eq_true_iff, decide_eq_true_iff]

theorem inInt64_toInt (r : Int64) : InInt64 r.toInt :=
  ⟨r.le_toInt, r.toInt_lt⟩

/-- The 64-bit integer of an integer is the one with its value. -/
theorem toInt64?_eq_some_iff {n : Int} {r : Int64} : toInt64? n = some r ↔ r.toInt = n := by
  unfold toInt64?
  constructor
  · intro h
    split at h
    case isFalse => cases h
    case isTrue hfits =>
      obtain ⟨hlow, hhigh⟩ := fitsInt64_iff.mp hfits
      cases h
      exact Int64.toInt_ofInt_of_le hlow hhigh
  · rintro rfl
    rw [if_pos (fitsInt64_iff.mpr (inInt64_toInt r)), Int64.ofInt_toInt]

theorem toInt64?_eq_none_iff {n : Int} : toInt64? n = none ↔ ¬ InInt64 n := by
  unfold toInt64?
  rw [← fitsInt64_iff]
  split
  case isTrue hfits => exact iff_of_false (fun h => nomatch h) (fun h => h hfits)
  case isFalse hfits => exact iff_of_true rfl hfits

/-! ## §2. The grammar. -/

/-- **One or more digits and the number that they spell** in base ten. -/
inductive DigitsSpell : List Char → Nat → Prop where
  | one {c : Char} (hc : c.isDigit = true) : DigitsSpell [c] (c.toNat - '0'.toNat)
  | snoc {cs : List Char} {n : Nat} {c : Char} (h : DigitsSpell cs n) (hc : c.isDigit = true) :
      DigitsSpell (cs ++ [c]) (10 * n + (c.toNat - '0'.toNat))

/-- **The texts that spell an integer:** an optional single sign and digits. -/
inductive Spells : List Char → Int → Prop where
  | unsigned {cs : List Char} {n : Nat} (h : DigitsSpell cs n) : Spells cs n
  | plus {cs : List Char} {n : Nat} (h : DigitsSpell cs n) : Spells ('+' :: cs) n
  | minus {cs : List Char} {n : Nat} (h : DigitsSpell cs n) : Spells ('-' :: cs) (-n)

theorem DigitsSpell.ne_nil {cs : List Char} {n : Nat} (h : DigitsSpell cs n) : cs ≠ [] := by
  cases h <;> simp

theorem DigitsSpell.isDigit {cs : List Char} {n : Nat} (h : DigitsSpell cs n) :
    ∀ c ∈ cs, c.isDigit = true := by
  induction h with
  | one hc => exact fun d hd => List.mem_singleton.mp hd ▸ hc
  | snoc _ hc ih =>
      intro d hd
      rcases List.mem_append.mp hd with hd | hd
      · exact ih d hd
      · exact List.mem_singleton.mp hd ▸ hc

theorem DigitsSpell.eq_ofDigitChars {cs : List Char} {n : Nat} (h : DigitsSpell cs n) :
    Nat.ofDigitChars 10 cs 0 = n := by
  induction h with
  | one hc => simp [Nat.ofDigitChars]
  | snoc _ hc ih =>
      unfold Nat.ofDigitChars at ih ⊢
      rw [List.foldl_append, ih]
      rfl

/-- Digits spell the number that they are read as. -/
theorem digitsSpell_of_isDigit {cs : List Char} (hne : cs ≠ [])
    (hdigits : ∀ c ∈ cs, c.isDigit = true) : DigitsSpell cs (Nat.ofDigitChars 10 cs 0) := by
  -- on the last digit, which counts one
  induction cs using List.reverseRecOn with
  | nil => exact absurd rfl hne
  | append_singleton cs c ih =>
      have hc : c.isDigit = true := hdigits c (by simp)
      unfold Nat.ofDigitChars at ih ⊢
      rw [List.foldl_append]
      cases cs with
      | nil => simpa using DigitsSpell.one hc
      | cons d cs =>
          exact .snoc (ih (by simp) fun e he => hdigits e (List.mem_append_left _ he)) hc

/-- **Reading digits accepts exactly digits.** -/
theorem readDigits?_eq_some_iff {cs : List Char} {n : Nat} :
    readDigits? cs = some n ↔ DigitsSpell cs n := by
  unfold readDigits?
  constructor
  · intro h
    split at h
    case isFalse => cases h
    case isTrue hcs =>
      obtain ⟨hne, hdigits⟩ := hcs
      cases h
      exact digitsSpell_of_isDigit hne (List.all_eq_true.mp hdigits)
  · intro h
    rw [if_pos ⟨h.ne_nil, List.all_eq_true.mpr h.isDigit⟩, h.eq_ofDigitChars]

/-- Digits do not begin with a sign. -/
theorem DigitsSpell.head_isDigit {c : Char} {cs : List Char} {n : Nat}
    (h : DigitsSpell (c :: cs) n) : c.isDigit = true :=
  h.isDigit c List.mem_cons_self

/-- **Reading an integer accepts exactly the texts that spell one.** -/
theorem readInt?_eq_some_iff {cs : List Char} {n : Int} : readInt? cs = some n ↔ Spells cs n := by
  constructor
  · intro h
    unfold readInt? at h
    split at h <;> obtain ⟨k, hk, rfl⟩ := Option.map_eq_some_iff.mp h
    · -- behind a minus sign the number is negated as an integer
      obtain ⟨m, hm, hcast⟩ := Option.bind_eq_some_iff.mp hk
      cases hcast
      exact .minus (readDigits?_eq_some_iff.mp hm)
    · exact .plus (readDigits?_eq_some_iff.mp hk)
    · exact .unsigned (readDigits?_eq_some_iff.mp hk)
  · rintro (h | h | h)
    case unsigned m =>
      have hread := readDigits?_eq_some_iff.mpr h
      unfold readInt?
      split
      · exact absurd h.head_isDigit (by decide)
      · exact absurd h.head_isDigit (by decide)
      · rw [hread]
        rfl
    case plus cs m =>
      show (readDigits? cs).map Int.ofNat = some (m : Int)
      rw [readDigits?_eq_some_iff.mpr h]
      rfl
    case minus cs m =>
      show ((readDigits? cs).map fun n => -(n : Int)) = some (-(m : Int))
      rw [readDigits?_eq_some_iff.mpr h]
      rfl

/-- **Reading a 64-bit integer accepts exactly the texts that spell one.** -/
theorem readInt64?_eq_some_iff {cs : List Char} {r : Int64} :
    readInt64? cs = some r ↔ Spells cs r.toInt := by
  unfold readInt64?
  rw [Option.bind_eq_some_iff]
  constructor
  · rintro ⟨n, hn, hr⟩
    rw [toInt64?_eq_some_iff.mp hr]
    exact readInt?_eq_some_iff.mp hn
  · intro h
    exact ⟨r.toInt, readInt?_eq_some_iff.mpr h, toInt64?_eq_some_iff.mpr rfl⟩

/-- **The decimal text of an integer spells it.** -/
theorem spells_decimal (n : Int) : Spells (decimal n).toList n := by
  have hdigits : ∀ m : Nat, DigitsSpell (Nat.toDigits 10 m) m := by
    intro m
    have h := digitsSpell_of_isDigit (Nat.toDigits_ne_nil (n := m) (b := 10))
      (fun c => isDigit_of_mem_toDigits)
    rwa [Nat.ofDigitChars_ten_toDigits] at h
  rcases decimal_forms n with ⟨m, rfl, hm⟩ | ⟨m, rfl, hm⟩ <;> rw [hm]
  · exact .unsigned (hdigits m)
  · exact .minus (hdigits m)

/-! ## §3. White space at the ends. -/

/-- **A text without the white space at its ends.** -/
structure IsTrimOf (core text : List Char) : Prop where
  /-- The text has white space around the core, and nothing else. -/
  padded : ∃ before after, text = before ++ core ++ after
    ∧ (∀ c ∈ before, isWhiteSpace c = true) ∧ ∀ c ∈ after, isWhiteSpace c = true
  /-- The core does not begin with white space. -/
  begins : NotStarting isWhiteSpace core
  /-- The core does not end with white space. -/
  ends : NotStarting isWhiteSpace core.reverse

/-- White space in front is dropped up to where something else begins. -/
theorem dropWhile_padded {p : Char → Bool} {before core : List Char}
    (hbefore : ∀ c ∈ before, p c = true) (hcore : NotStarting p core) :
    (before ++ core).dropWhile p = core := by
  rw [List.dropWhile_append_of_pos hbefore]
  cases core with
  | nil => rfl
  | cons c core => exact List.dropWhile_cons_of_neg (by rw [hcore c rfl]; simp)

/-- What is left when a property has been dropped from the front does not begin
with it. -/
theorem notStarting_dropWhile (p : Char → Bool) (text : List Char) :
    NotStarting p (text.dropWhile p) := by
  induction text with
  | nil => exact notStarting_nil
  | cons c text ih =>
      by_cases hc : p c = true
      · rw [List.dropWhile_cons_of_pos hc]
        exact ih
      · rw [List.dropWhile_cons_of_neg hc]
        exact notStarting_cons (Bool.eq_false_iff.mpr hc)

/-- A text that begins with a stretch of a property, and what is left of it. -/
theorem exists_dropWhile (p : Char → Bool) (text : List Char) :
    ∃ before, text = before ++ text.dropWhile p ∧ ∀ c ∈ before, p c = true :=
  ⟨text.takeWhile p, List.takeWhile_append_dropWhile.symm,
    fun _ hc => List.mem_takeWhile_imp hc⟩

/-- Trimming takes off the white space around a core. -/
theorem IsTrimOf.trim_eq {core text : List Char} (h : IsTrimOf core text) : trim text = core := by
  obtain ⟨before, after, rfl, hbefore, hafter⟩ := h.padded
  have hafter' : ∀ c ∈ after.reverse, isWhiteSpace c = true :=
    fun c hc => hafter c (List.mem_reverse.mp hc)
  unfold trim
  cases core with
  | nil =>
      -- all is white space
      have hall : (before ++ [] ++ after).dropWhile isWhiteSpace = [] := by
        refine List.dropWhile_eq_nil_iff.mpr fun c hc => ?_
        rw [List.append_nil] at hc
        exact (List.mem_append.mp hc).elim (hbefore c) (hafter c)
      rw [hall]
      rfl
  | cons c core =>
      have hfront : NotStarting isWhiteSpace (c :: core ++ after) :=
        notStarting_cons (h.begins c rfl)
      rw [List.append_assoc, dropWhile_padded hbefore hfront, List.reverse_append,
        dropWhile_padded hafter' h.ends, List.reverse_reverse]

theorem isTrimOf_trim (text : List Char) : IsTrimOf (trim text) text := by
  obtain ⟨before, hbefore, hspace⟩ := exists_dropWhile isWhiteSpace text
  obtain ⟨after, hafter, hspace'⟩ :=
    exists_dropWhile isWhiteSpace (text.dropWhile isWhiteSpace).reverse
  have hsplit : text.dropWhile isWhiteSpace = trim text ++ after.reverse := by
    rw [← List.reverse_reverse (text.dropWhile isWhiteSpace), hafter, List.reverse_append]
    rfl
  refine ⟨⟨before, after.reverse, ?_, hspace, fun c hc => hspace' c (List.mem_reverse.mp hc)⟩,
    ?_, ?_⟩
  · rw [List.append_assoc, ← hsplit]
    exact hbefore
  · -- the core begins where the text without white space in front does, unless it is empty
    intro c hc
    refine notStarting_dropWhile isWhiteSpace text c ?_
    rw [hsplit]
    cases hcore : trim text with
    | nil =>
        rw [hcore] at hc
        cases hc
    | cons d core =>
        rw [hcore] at hc
        exact hc
  · unfold trim
    rw [List.reverse_reverse]
    exact notStarting_dropWhile _ _

/-- **What trimming gives is the text without the white space at its ends.** -/
theorem trim_eq_iff {text core : List Char} : trim text = core ↔ IsTrimOf core text :=
  ⟨fun h => h ▸ isTrimOf_trim text, IsTrimOf.trim_eq⟩

/-- Neither a sign nor a digit is white space. -/
theorem isWhiteSpace_eq_false {c : Char} (h : c.isDigit = true ∨ c = '+' ∨ c = '-') :
    isWhiteSpace c = false := by
  rcases h with h | rfl | rfl
  · have hall : ∀ k < 58, 48 ≤ k → inRanges k whiteSpaceRanges = false := by decide
    simp only [Char.isDigit, Bool.and_eq_true, decide_eq_true_eq, UInt32.le_iff_toNat_le] at h
    obtain ⟨hlow, hhigh⟩ := h
    change 48 ≤ c.toNat at hlow
    change c.toNat ≤ 57 at hhigh
    exact hall c.toNat (by omega) hlow
  · rfl
  · rfl

/-- **White space around the spelling of an integer is trimmed away.** -/
theorem Spells.isTrimOf {core before after : List Char} {n : Int} (h : Spells core n)
    (hbefore : ∀ c ∈ before, isWhiteSpace c = true) (hafter : ∀ c ∈ after, isWhiteSpace c = true) :
    IsTrimOf core (before ++ core ++ after) := by
  have hchars : ∀ c ∈ core, isWhiteSpace c = false := by
    intro c hc
    refine isWhiteSpace_eq_false ?_
    cases h with
    | unsigned hdigits => exact Or.inl (hdigits.isDigit c hc)
    | plus hdigits =>
        rcases List.mem_cons.mp hc with rfl | hc
        · exact Or.inr (Or.inl rfl)
        · exact Or.inl (hdigits.isDigit c hc)
    | minus hdigits =>
        rcases List.mem_cons.mp hc with rfl | hc
        · exact Or.inr (Or.inr rfl)
        · exact Or.inl (hdigits.isDigit c hc)
  refine ⟨⟨before, after, rfl, hbefore, hafter⟩, ?_, ?_⟩
  · exact fun c hc => hchars c (List.mem_of_head? hc)
  · exact fun c hc => hchars c (List.mem_reverse.mp (List.mem_of_head? hc))

end CallDecoration.Text
