/-
  CallDecoration.Proofs.Text.Reading
  ──────────────────────────────────────
  **Written text can be read back from the front.**  Whatever comes behind it,
  a quoted string ends where it ends and is the string that it was written for
  (`quote_readable`); so is a decimal number, unless a digit comes behind it
  (`decimal_readable`).  The escapes of characters form a prefix code
  (`escape_readable`).
-/
import CallDecoration.Text.Integer
import CallDecoration.Text.Quoted
import Mathlib.Data.List.Basic

namespace CallDecoration.Text

/-! ## §1. Stretches of characters. -/

/-- A text does not begin with a character that has the property. -/
def NotStarting (p : Char → Bool) (text : List Char) : Prop :=
  ∀ c ∈ text.head?, p c = false

theorem notStarting_nil {p : Char → Bool} : NotStarting p [] :=
  fun _ hc => nomatch hc

theorem notStarting_cons {p : Char → Bool} {c : Char} {text : List Char} (h : p c = false) :
    NotStarting p (c :: text) := by
  intro d hd
  rw [← Option.some.inj hd]
  exact h

/-- **A stretch of characters with a property ends** where something without the
property begins. -/
theorem stretch_readable {p : Char → Bool} {xs ys rest rest' : List Char}
    (hxs : ∀ c ∈ xs, p c = true) (hys : ∀ c ∈ ys, p c = true) (hrest : NotStarting p rest)
    (hrest' : NotStarting p rest') (h : xs ++ rest = ys ++ rest') : xs = ys ∧ rest = rest' := by
  induction xs generalizing ys with
  | nil =>
      cases ys with
      | nil => exact ⟨rfl, h⟩
      | cons c ys =>
          -- what follows the empty stretch would have to begin with `c`
          have hhead : rest.head? = some c := by
            rw [List.nil_append] at h
            rw [h]
            rfl
          have hfalse := hrest c hhead
          rw [hys c List.mem_cons_self] at hfalse
          cases hfalse
  | cons c xs ih =>
      cases ys with
      | nil =>
          have hhead : rest'.head? = some c := by
            rw [List.nil_append] at h
            rw [← h]
            rfl
          have hfalse := hrest' c hhead
          rw [hxs c List.mem_cons_self] at hfalse
          cases hfalse
      | cons d ys =>
          obtain ⟨hcd, htail⟩ := List.cons.inj h
          obtain ⟨hlists, hrests⟩ := ih (fun e he => hxs e (List.mem_cons_of_mem _ he))
            (fun e he => hys e (List.mem_cons_of_mem _ he)) htail
          exact ⟨by rw [hcd, hlists], hrests⟩

/-! ## §2. Numbers. -/

/-- The decimal digits of a number determine it. -/
theorem toDigits_ten_inj {m n : Nat} (h : Nat.toDigits 10 m = Nat.toDigits 10 n) : m = n := by
  calc
    m = Nat.ofDigitChars 10 (Nat.toDigits 10 m) 0 := Nat.ofDigitChars_ten_toDigits.symm
    _ = Nat.ofDigitChars 10 (Nat.toDigits 10 n) 0 := by rw [h]
    _ = n := Nat.ofDigitChars_ten_toDigits

/-- The text of an integer: its digits, behind a minus sign if it is negative. -/
theorem decimal_forms (n : Int) :
    (∃ m : Nat, n = m ∧ (decimal n).toList = Nat.toDigits 10 m)
      ∨ ∃ m : Nat, n = -m ∧ (decimal n).toList = '-' :: Nat.toDigits 10 m := by
  cases n with
  | ofNat m =>
      refine Or.inl ⟨m, rfl, ?_⟩
      show (String.ofList (Nat.toDigits 10 m)).toList = _
      rw [String.toList_ofList]
  | negSucc m =>
      refine Or.inr ⟨m + 1, rfl, ?_⟩
      show ("-" ++ String.ofList (Nat.toDigits 10 (m + 1))).toList = _
      rw [String.toList_append, String.toList_ofList, String.toList_ofList]
      rfl

theorem isDigit_of_mem_toDigits {n : Nat} {c : Char} (h : c ∈ Nat.toDigits 10 n) :
    c.isDigit = true :=
  Nat.isDigit_of_mem_toDigits (by omega) (by omega) h

/-- Digits do not begin with a minus sign. -/
theorem toDigits_ne_minus {n : Nat} {text rest : List Char} :
    Nat.toDigits 10 n ++ rest ≠ '-' :: text := by
  intro h
  cases hdigits : Nat.toDigits 10 n with
  | nil => exact Nat.toDigits_ne_nil hdigits
  | cons c digits =>
      rw [hdigits] at h
      obtain ⟨rfl, -⟩ := List.cons.inj h
      have hdigit : '-'.isDigit = true :=
        isDigit_of_mem_toDigits (n := n) (by rw [hdigits]; exact List.mem_cons_self)
      exact absurd hdigit (by decide)

/-- **A number can be read** in front of anything that does not begin with a
digit. -/
theorem decimal_readable {m n : Int} {rest rest' : List Char}
    (hrest : NotStarting Char.isDigit rest) (hrest' : NotStarting Char.isDigit rest')
    (h : (decimal m).toList ++ rest = (decimal n).toList ++ rest') : m = n ∧ rest = rest' := by
  -- a number without a sign is a stretch of digits, which ends where no digit follows
  have hdigits : ∀ k l : Nat, Nat.toDigits 10 k ++ rest = Nat.toDigits 10 l ++ rest' →
      k = l ∧ rest = rest' := by
    intro k l hkl
    obtain ⟨hsame, hrests⟩ := stretch_readable (fun c => isDigit_of_mem_toDigits)
      (fun c => isDigit_of_mem_toDigits) hrest hrest' hkl
    exact ⟨toDigits_ten_inj hsame, hrests⟩
  -- a sign tells the negative numbers from the others
  rcases decimal_forms m with ⟨k, rfl, hm⟩ | ⟨k, rfl, hm⟩ <;>
    rcases decimal_forms n with ⟨l, rfl, hn⟩ | ⟨l, rfl, hn⟩ <;> rw [hm, hn] at h
  · obtain ⟨rfl, hrests⟩ := hdigits k l h
    exact ⟨rfl, hrests⟩
  · exact absurd h toDigits_ne_minus
  · exact absurd h.symm toDigits_ne_minus
  · obtain ⟨rfl, hrests⟩ := hdigits k l (List.cons.inj h).2
    exact ⟨rfl, hrests⟩

/-! ## §3. Hexadecimal digits. -/

/-- The hexadecimal digits of a number: those of its sixteenth, and its last. -/
theorem hexDigits_eq (n : Nat) :
    hexDigits n = if n < 16 then [Nat.digitChar n]
      else hexDigits (n / 16) ++ [Nat.digitChar (n % 16)] :=
  Nat.toDigits_eq_if (by omega)

theorem digitChar_inj {k l : Nat} (hk : k < 16) (hl : l < 16)
    (h : Nat.digitChar k = Nat.digitChar l) : k = l := by
  have hall : ∀ k < 16, ∀ l < 16, Nat.digitChar k = Nat.digitChar l → k = l := by decide
  exact hall k hk l hl h

/-- A hexadecimal digit is not a closing brace. -/
theorem ne_brace_of_mem_hexDigits {n : Nat} {c : Char} (h : c ∈ hexDigits n) : c ≠ '\x7d' := by
  have hdigit : ∀ k < 16, Nat.digitChar k ≠ '\x7d' := by decide
  induction n using Nat.strongRecOn with
  | ind n ih =>
      rw [hexDigits_eq] at h
      split at h
      case isTrue hlt =>
        rw [List.mem_singleton.mp h]
        exact hdigit n hlt
      case isFalse hge =>
        rcases List.mem_append.mp h with hfront | hlast
        · exact ih (n / 16) (by omega) hfront
        · rw [List.mem_singleton.mp hlast]
          exact hdigit (n % 16) (Nat.mod_lt n (by omega))

/-- The hexadecimal digits of a number determine it. -/
theorem hexDigits_inj {m n : Nat} (h : hexDigits m = hexDigits n) : m = n := by
  have hne : ∀ k, hexDigits k ≠ [] := fun k => Nat.toDigits_ne_nil
  induction m using Nat.strongRecOn generalizing n with
  | ind m ih =>
      rw [hexDigits_eq m, hexDigits_eq n] at h
      -- a number of one digit has one digit, and any other has more
      split at h <;> split at h
      case isTrue.isTrue hm hn => exact digitChar_inj hm hn (List.cons.inj h).1
      case isTrue.isFalse hm hn =>
        exact absurd (List.append_eq_singleton_iff.mp h.symm) (by simp [hne])
      case isFalse.isTrue hm hn =>
        exact absurd (List.append_eq_singleton_iff.mp h) (by simp [hne])
      case isFalse.isFalse hm hn =>
        obtain ⟨hfront, hlast⟩ := List.append_inj' h rfl
        have hdiv : m / 16 = n / 16 := ih (m / 16) (by omega) hfront
        have hmod : m % 16 = n % 16 := digitChar_inj (Nat.mod_lt m (by omega))
          (Nat.mod_lt n (by omega)) (List.cons.inj hlast).1
        omega

/-! ## §4. Quoted strings. -/

/-- The character that a backslash with this letter stands for; `u` begins a code
point. -/
def ofEscapeLetter? : Char → Option Char
  | '0' => some '\x00'
  | 't' => some '\t'
  | 'n' => some '\n'
  | 'r' => some '\r'
  | '"' => some '"'
  | '\\' => some '\\'
  | _ => none

/-- **The forms of an escape:** the character itself, a backslash and a letter, or
a code point. -/
theorem escape_forms (c : Char) :
    (escape c = [c] ∧ c ≠ '"' ∧ c ≠ '\\')
      ∨ (∃ letter, escape c = ['\\', letter] ∧ ofEscapeLetter? letter = some c)
      ∨ escape c = codePointEscape c := by
  unfold escape
  by_cases hnul : c = '\x00'
  · exact Or.inr (Or.inl ⟨'0', by rw [if_pos hnul], by rw [hnul]; rfl⟩)
  by_cases htab : c = '\t'
  · exact Or.inr (Or.inl ⟨'t', by rw [if_neg hnul, if_pos htab], by rw [htab]; rfl⟩)
  by_cases hfeed : c = '\n'
  · exact Or.inr (Or.inl ⟨'n', by rw [if_neg hnul, if_neg htab, if_pos hfeed], by rw [hfeed]; rfl⟩)
  by_cases hreturn : c = '\r'
  · exact Or.inr (Or.inl ⟨'r', by rw [if_neg hnul, if_neg htab, if_neg hfeed, if_pos hreturn],
      by rw [hreturn]; rfl⟩)
  by_cases hquote : c = '"'
  · exact Or.inr (Or.inl ⟨'"', by
      rw [if_neg hnul, if_neg htab, if_neg hfeed, if_neg hreturn, if_pos hquote],
      by rw [hquote]; rfl⟩)
  by_cases hslash : c = '\\'
  · exact Or.inr (Or.inl ⟨'\\', by
      rw [if_neg hnul, if_neg htab, if_neg hfeed, if_neg hreturn, if_neg hquote, if_pos hslash],
      by rw [hslash]; rfl⟩)
  rw [if_neg hnul, if_neg htab, if_neg hfeed, if_neg hreturn, if_neg hquote, if_neg hslash]
  split
  · exact Or.inr (Or.inr rfl)
  · exact Or.inl ⟨rfl, hquote, hslash⟩

/-- An escape does not begin with a double quote. -/
theorem escape_ne_quote {c : Char} {rest text : List Char} : escape c ++ rest ≠ '"' :: text := by
  intro h
  rcases escape_forms c with ⟨hform, hquote, -⟩ | ⟨letter, hform, -⟩ | hform <;> rw [hform] at h
  · exact hquote (List.cons.inj h).1
  · exact absurd (List.cons.inj h).1 (by decide)
  · exact absurd (List.cons.inj h).1 (by decide)

/-- The escapes of two code points. -/
theorem codePointEscape_readable {c d : Char} {rest rest' : List Char}
    (h : codePointEscape c ++ rest = codePointEscape d ++ rest') : c = d ∧ rest = rest' := by
  unfold codePointEscape at h
  simp only [List.append_assoc, List.append_cancel_left_eq] at h
  -- the digits end at the closing brace
  obtain ⟨hdigits, hrests⟩ := stretch_readable (p := fun e => decide (e ≠ '\x7d'))
    (fun e he => decide_eq_true (ne_brace_of_mem_hexDigits he))
    (fun e he => decide_eq_true (ne_brace_of_mem_hexDigits he))
    (notStarting_cons rfl) (notStarting_cons rfl) h
  exact ⟨Char.toNat_inj.mp (hexDigits_inj hdigits), (List.cons.inj hrests).2⟩

/-- **Escapes form a prefix code:** an escape can be read in front of
anything. -/
theorem escape_readable {c d : Char} {rest rest' : List Char}
    (h : escape c ++ rest = escape d ++ rest') : c = d ∧ rest = rest' := by
  -- the first character tells a plain one from an escape, the second the kind of escape
  rcases escape_forms c with ⟨hc, -, hslash⟩ | ⟨letter, hc, hletter⟩ | hc <;>
    rcases escape_forms d with ⟨hd, -, hslash'⟩ | ⟨letter', hd, hletter'⟩ | hd <;> rw [hc, hd] at h
  · exact ⟨(List.cons.inj h).1, (List.cons.inj h).2⟩
  · exact absurd (List.cons.inj h).1 hslash
  · exact absurd (List.cons.inj h).1 hslash
  · exact absurd (List.cons.inj h).1.symm hslash'
  · obtain ⟨rfl, hrests⟩ := List.cons.inj (List.cons.inj h).2
    rw [hletter] at hletter'
    exact ⟨Option.some.inj hletter', hrests⟩
  · -- the letter of a short escape is not the one of a code point
    obtain ⟨rfl, -⟩ := List.cons.inj (List.cons.inj h).2
    cases hletter
  · exact absurd (List.cons.inj h).1.symm hslash'
  · obtain ⟨rfl, -⟩ := List.cons.inj (List.cons.inj h).2
    cases hletter'
  · exact codePointEscape_readable h

/-- Escapes in a row end at the first double quote that no escape begins with. -/
theorem escaped_readable {s t rest rest' : List Char}
    (h : s.flatMap escape ++ '"' :: rest = t.flatMap escape ++ '"' :: rest') :
    s = t ∧ rest = rest' := by
  -- on the characters of one string: the other one has to have an escape where it has
  induction s generalizing t with
  | nil =>
      cases t with
      | nil => exact ⟨rfl, (List.cons.inj h).2⟩
      | cons d t =>
          rw [List.flatMap_cons, List.append_assoc] at h
          exact absurd h.symm escape_ne_quote
  | cons c s ih =>
      rw [List.flatMap_cons, List.append_assoc] at h
      cases t with
      | nil => exact absurd h escape_ne_quote
      | cons d t =>
          rw [List.flatMap_cons, List.append_assoc] at h
          obtain ⟨hcd, htail⟩ := escape_readable h
          obtain ⟨hst, hrests⟩ := ih htail
          exact ⟨by rw [hcd, hst], hrests⟩

/-- The characters of a quoted string. -/
theorem quote_toList (s : String) :
    (quote s).toList = '"' :: (s.toList.flatMap escape ++ ['"']) :=
  String.toList_ofList

/-- **A quoted string can be read** in front of anything. -/
theorem quote_readable {s t : String} {rest rest' : List Char}
    (h : (quote s).toList ++ rest = (quote t).toList ++ rest') : s = t ∧ rest = rest' := by
  rw [quote_toList, quote_toList, List.cons_append, List.cons_append, List.append_assoc,
    List.append_assoc] at h
  obtain ⟨hchars, hrests⟩ := escaped_readable (List.cons.inj h).2
  exact ⟨String.toList_inj.mp hchars, hrests⟩

end CallDecoration.Text
