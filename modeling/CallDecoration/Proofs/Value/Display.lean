/-
  CallDecoration.Proofs.Value.Display
  ──────────────────────────────────────
  **The text of data is unambiguous.**  Data is what is built of nil, booleans,
  integers and strings by tuples and dictionaries (`Value.IsData`).  Its text
  can be read from the front: in front of anything but a digit it ends where it
  ends, and is the text of one value only (`Value.IsData.readable`).  So values
  with the same text are the same, down to the characters of every string and
  the order of every key (`Value.IsData.eq_of_display_eq`).
-/
import CallDecoration.Proofs.Text.Reading
import CallDecoration.Value.Display

namespace CallDecoration.Value

open Text (NotStarting)

/-! ## §1. Data. -/

/-- **Values that are data,** at every level. -/
inductive IsData : Value → Prop where
  | nil : IsData .nil
  | bool (b : Bool) : IsData (.bool b)
  | int (n : Int64) : IsData (.int n)
  | str (s : String) : IsData (.str s)
  | tuple {items : List Value} (h : ∀ item ∈ items, IsData item) : IsData (.tuple items)
  | dict {entries : List (String × Value)} (h : ∀ entry ∈ entries, IsData entry.2) :
      IsData (.dict entries)

/-- The characters of the text of a value. -/
def text (v : Value) : List Char :=
  v.display.toList

/-- The characters of the text of an entry. -/
def entryText (entry : String × Value) : List Char :=
  (Text.quote entry.1).toList ++ ':' :: ' ' :: text entry.2

/-! ## §2. Comma-separated lists. -/

section Lists

variable {α : Type} (write : α → List Char) (close : Char)

/-- Items with a comma and a blank in front of each. -/
def continued (items : List α) : List Char :=
  items.flatMap fun item => ',' :: ' ' :: write item

/-- A comma-separated list and the bracket that closes it. -/
def listed : List α → List Char
  | [] => [close]
  | item :: items => write item ++ (continued write items ++ [close])

/-- A list that is joined by commas and blanks. -/
theorem intercalate_eq_listed (items : List α) :
    List.intercalate [',', ' '] (items.map write) ++ [close] = listed write close items := by
  cases items with
  | nil => rfl
  | cons item items =>
      show List.intercalate [',', ' '] (write item :: items.map write) ++ [close]
        = write item ++ (continued write items ++ [close])
      rw [← List.append_assoc]
      congr 1
      induction items generalizing item with
      | nil => simp [continued, List.intercalate]
      | cons next items ih =>
          rw [List.map_cons, List.intercalate_cons_cons, ih next, List.append_assoc]
          rfl

/-- **The text of an item can be read** in front of anything but a digit: no other
item that is wanted has a text that begins in the same way. -/
def Readable (wanted : α → Prop) (item : α) : Prop :=
  ∀ other rest rest', wanted other → NotStarting Char.isDigit rest →
    NotStarting Char.isDigit rest' → write item ++ rest = write other ++ rest' →
      item = other ∧ rest = rest'

variable {write close} {wanted : α → Prop} {items others : List α} {rest rest' : List Char}

/-- What continues a list does not begin with a digit. -/
theorem notStarting_continued (hclose : close.isDigit = false) :
    NotStarting Char.isDigit (continued write items ++ close :: rest) := by
  cases items with
  | nil => exact Text.notStarting_cons hclose
  | cons item items => exact Text.notStarting_cons rfl

/-- **What continues a list can be read,** up to the closing bracket. -/
theorem continued_readable (hcomma : close ≠ ',') (hclose : close.isDigit = false)
    (hread : ∀ item ∈ items, Readable write wanted item) (hothers : ∀ other ∈ others, wanted other)
    (h : continued write items ++ close :: rest = continued write others ++ close :: rest') :
    items = others ∧ rest = rest' := by
  -- a comma says that an item follows, the bracket that none does
  induction items generalizing others with
  | nil =>
      cases others with
      | nil => exact ⟨rfl, (List.cons.inj h).2⟩
      | cons other others => exact absurd (List.cons.inj h).1 hcomma
  | cons item items ih =>
      cases others with
      | nil => exact absurd (List.cons.inj h).1.symm hcomma
      | cons other others =>
          have htexts : write item ++ (continued write items ++ close :: rest)
              = write other ++ (continued write others ++ close :: rest') := by
            rw [← List.append_assoc, ← List.append_assoc]
            exact (List.cons.inj (List.cons.inj h).2).2
          obtain ⟨hitem, htail⟩ := hread item List.mem_cons_self other _ _
            (hothers other List.mem_cons_self) (notStarting_continued hclose)
            (notStarting_continued hclose) htexts
          obtain ⟨hitems, hrests⟩ := ih (fun i hi => hread i (List.mem_cons_of_mem _ hi))
            (fun o ho => hothers o (List.mem_cons_of_mem _ ho)) htail
          exact ⟨by rw [hitem, hitems], hrests⟩

/-- **A list can be read,** if no item begins with the closing bracket. -/
theorem listed_readable (hcomma : close ≠ ',') (hclose : close.isDigit = false)
    (hopen : ∀ item, wanted item → ∀ tail tail', write item ++ tail ≠ close :: tail')
    (hread : ∀ item ∈ items, Readable write wanted item)
    (hitems : ∀ item ∈ items, wanted item) (hothers : ∀ other ∈ others, wanted other)
    (h : listed write close items ++ rest = listed write close others ++ rest') :
    items = others ∧ rest = rest' := by
  cases items with
  | nil =>
      cases others with
      | nil => exact ⟨rfl, (List.cons.inj h).2⟩
      | cons other others =>
          simp only [listed, List.append_assoc] at h
          exact absurd h.symm (hopen other (hothers other List.mem_cons_self) _ _)
  | cons item items =>
      cases others with
      | nil =>
          simp only [listed, List.append_assoc] at h
          exact absurd h (hopen item (hitems item List.mem_cons_self) _ _)
      | cons other others =>
          simp only [listed, List.append_assoc] at h
          obtain ⟨hitem, htail⟩ := hread item List.mem_cons_self other _ _
            (hothers other List.mem_cons_self) (notStarting_continued hclose)
            (notStarting_continued hclose) h
          obtain ⟨hrest, hrests⟩ := continued_readable hcomma hclose
            (fun i hi => hread i (List.mem_cons_of_mem _ hi))
            (fun o ho => hothers o (List.mem_cons_of_mem _ ho)) htail
          exact ⟨by rw [hitem, hrest], hrests⟩

end Lists

/-! ## §3. The text of each kind of data. -/

theorem displayItems_eq_map (items : List Value) : displayItems items = items.map display := by
  induction items with
  | nil => rfl
  | cons item items ih => exact congrArg (item.display :: ·) ih

theorem displayEntries_eq_map (entries : List (String × Value)) :
    displayEntries entries
      = entries.map fun entry => Text.quote entry.1 ++ ": " ++ display entry.2 := by
  induction entries with
  | nil => rfl
  | cons entry entries ih => exact congrArg (_ :: ·) ih

/-- The text of a tuple of one item. -/
theorem text_single (item : Value) : text (.tuple [item]) = '(' :: (text item ++ [',', ')']) := by
  show ("(" ++ item.display ++ ",)").toList = _
  simp [text]

/-- The text of a tuple of any other number of items. -/
theorem text_tuple {items : List Value} (h : ∀ item, items ≠ [item]) :
    text (.tuple items) = '(' :: listed text ')' items := by
  have hdisplay : (tuple items).display
      = "(" ++ String.intercalate ", " (displayItems items) ++ ")" := by
    match items with
    | [] => rfl
    | [item] => exact absurd rfl (h item)
    | _ :: _ :: _ => rfl
  rw [← intercalate_eq_listed]
  unfold text
  rw [hdisplay, displayItems_eq_map]
  simp [String.toList_intercalate, Function.comp_def]

/-- The text of a dictionary. -/
theorem text_dict (entries : List (String × Value)) :
    text (.dict entries) = '\x7b' :: listed entryText '\x7d' entries := by
  have hdisplay : (dict entries).display
      = "\x7b" ++ String.intercalate ", " (displayEntries entries) ++ "\x7d" := rfl
  rw [← intercalate_eq_listed]
  unfold text
  have hentry : (String.toList ∘ fun entry : String × Value =>
      Text.quote entry.1 ++ ": " ++ display entry.2) = entryText := by
    funext entry
    simp [entryText, text]
  rw [hdisplay, displayEntries_eq_map]
  simp [String.toList_intercalate, hentry]

/-- The kind of the data whose text begins with a character. -/
def kindBegunBy? : Char → Option Kind
  | 'n' => some .nil
  | 't' | 'f' => some .bool
  | '"' => some .str
  | '(' => some .tuple
  | '\x7b' => some .dict
  | '-' => some .int
  | c => if c.isDigit then some .int else none

theorem kindBegunBy?_digit {c : Char} (h : c.isDigit = true) : kindBegunBy? c = some .int := by
  unfold kindBegunBy?
  split <;> first
    | rfl
    | exact absurd h (by decide)
    | exact if_pos h

/-- **The text of data tells its kind** by the character that it begins with. -/
theorem IsData.exists_text_cons {v : Value} (hv : v.IsData) :
    ∃ c tail, text v = c :: tail ∧ kindBegunBy? c = some v.kind := by
  cases hv with
  | nil => exact ⟨'n', _, rfl, rfl⟩
  | bool b =>
      cases b with
      | false => exact ⟨'f', _, rfl, rfl⟩
      | true => exact ⟨'t', _, rfl, rfl⟩
  | int n =>
      show ∃ c tail, (Text.decimal n.toInt).toList = c :: tail ∧ kindBegunBy? c = some .int
      rcases Text.decimal_forms n.toInt with ⟨m, -, hform⟩ | ⟨m, -, hform⟩
      · cases hdigits : Nat.toDigits 10 m with
        | nil => exact absurd hdigits Nat.toDigits_ne_nil
        | cons c tail =>
            have hdigit : c.isDigit = true :=
              Text.isDigit_of_mem_toDigits (n := m) (by rw [hdigits]; exact List.mem_cons_self)
            exact ⟨c, tail, hform.trans hdigits, kindBegunBy?_digit hdigit⟩
      · exact ⟨'-', _, hform, rfl⟩
  | str s => exact ⟨'"', _, Text.quote_toList s, rfl⟩
  | @tuple items _ =>
      by_cases hsingle : ∃ item, items = [item]
      · obtain ⟨item, rfl⟩ := hsingle
        exact ⟨'(', _, text_single item, rfl⟩
      · exact ⟨'(', _, text_tuple (fun item h => hsingle ⟨item, h⟩), rfl⟩
  | dict _ => exact ⟨'\x7b', _, text_dict _, rfl⟩

/-- Texts that begin in the same way are of data of the same kind. -/
theorem IsData.kind_eq {v w : Value} (hv : v.IsData) (hw : w.IsData) {rest rest' : List Char}
    (h : text v ++ rest = text w ++ rest') : v.kind = w.kind := by
  obtain ⟨c, tail, hvtext, hvkind⟩ := hv.exists_text_cons
  obtain ⟨d, tail', hwtext, hwkind⟩ := hw.exists_text_cons
  rw [hvtext, hwtext] at h
  obtain ⟨rfl, -⟩ := List.cons.inj h
  exact Option.some.inj (hvkind.symm.trans hwkind)

/-- No text of data begins with the closing bracket of a tuple. -/
theorem IsData.text_ne_close {v : Value} (hv : v.IsData) (tail tail' : List Char) :
    text v ++ tail ≠ ')' :: tail' := by
  obtain ⟨c, rest, htext, hkind⟩ := hv.exists_text_cons
  intro h
  rw [htext] at h
  obtain ⟨rfl, -⟩ := List.cons.inj h
  cases hkind

/-! ## §4. Reading. -/

/-- Data whose text can be read among the texts of all data. -/
abbrev Read (v : Value) : Prop :=
  Readable text IsData v

/-- **A tuple of one item is no other tuple:** where the item ends, a bracket
comes behind the comma. -/
theorem single_ne_listed {item : Value} {items : List Value} {rest rest' : List Char}
    (hitem : item.IsData) (hmany : ∀ other, items ≠ [other])
    (hends : ∀ first ∈ items, ∀ tail tail', NotStarting Char.isDigit tail →
      NotStarting Char.isDigit tail' → text item ++ tail = text first ++ tail' → tail = tail') :
    text item ++ (',' :: ')' :: rest) ≠ listed text ')' items ++ rest' := by
  intro h
  match items with
  | [] => exact hitem.text_ne_close _ _ h
  | [other] => exact hmany other rfl
  | first :: second :: items =>
      simp only [listed, List.append_assoc] at h
      have htail := hends first List.mem_cons_self _ _ (Text.notStarting_cons rfl)
        (notStarting_continued rfl) h
      exact absurd (List.cons.inj (List.cons.inj htail).2).1 (by decide)

/-- **A tuple can be read,** if its items can. -/
theorem readable_tuple {items : List Value} (hitems : ∀ item ∈ items, item.IsData)
    (hread : ∀ item ∈ items, item.Read) : (Value.tuple items).Read := by
  intro other rest rest' hother _ _ h
  have hkind := (IsData.tuple hitems).kind_eq hother h
  cases hother with
  | @tuple others hothers =>
      -- a tuple of one item has a form of its own
      by_cases hsingle : ∃ item, items = [item] <;> by_cases hsingle' : ∃ item, others = [item]
      · obtain ⟨item, rfl⟩ := hsingle
        obtain ⟨item', rfl⟩ := hsingle'
        rw [text_single, text_single] at h
        simp only [List.cons_append, List.append_assoc, List.cons.injEq, true_and] at h
        obtain ⟨rfl, htail⟩ := hread item List.mem_cons_self item' _ _
          (hothers item' List.mem_cons_self) (Text.notStarting_cons rfl)
          (Text.notStarting_cons rfl) h
        exact ⟨rfl, (List.cons.inj (List.cons.inj htail).2).2⟩
      · obtain ⟨item, rfl⟩ := hsingle
        rw [text_single, text_tuple (fun o ho => hsingle' ⟨o, ho⟩)] at h
        simp only [List.cons_append, List.append_assoc, List.cons.injEq, true_and] at h
        refine absurd h (single_ne_listed (hitems item List.mem_cons_self)
          (fun o ho => hsingle' ⟨o, ho⟩) fun first hfirst tail tail' htail htail' heq => ?_)
        exact (hread item List.mem_cons_self first tail tail' (hothers first hfirst) htail htail'
          heq).2
      · obtain ⟨item, rfl⟩ := hsingle'
        rw [text_single, text_tuple (fun i hi => hsingle ⟨i, hi⟩)] at h
        simp only [List.cons_append, List.append_assoc, List.cons.injEq, true_and] at h
        refine absurd h.symm (single_ne_listed (hothers item List.mem_cons_self)
          (fun i hi => hsingle ⟨i, hi⟩) fun first hfirst tail tail' htail htail' heq => ?_)
        exact (hread first hfirst item tail' tail (hothers item List.mem_cons_self) htail' htail
          heq.symm).2.symm
      · rw [text_tuple (fun i hi => hsingle ⟨i, hi⟩),
          text_tuple (fun o ho => hsingle' ⟨o, ho⟩)] at h
        obtain ⟨rfl, hrests⟩ := listed_readable (by decide) rfl
          (fun item hitem => hitem.text_ne_close) hread hitems hothers (List.cons.inj h).2
        exact ⟨rfl, hrests⟩
  | _ => cases hkind

/-- An entry can be read, if its value can: the key ends at its quote. -/
theorem readable_entry {entry : String × Value} (hread : entry.2.Read) :
    Readable entryText (fun other => other.2.IsData) entry := by
  intro other rest rest' hother hrest hrest' h
  unfold entryText at h
  simp only [List.append_assoc, List.cons_append] at h
  -- what follows the key is a colon and a blank in both texts
  obtain ⟨hkey, htail⟩ := Text.quote_readable h
  obtain ⟨hvalue, hrests⟩ := hread other.2 rest rest' hother hrest hrest'
    (List.cons.inj (List.cons.inj htail).2).2
  exact ⟨Prod.ext hkey hvalue, hrests⟩

/-- **A dictionary can be read,** if its values can. -/
theorem readable_dict {entries : List (String × Value)}
    (hentries : ∀ entry ∈ entries, entry.2.IsData) (hread : ∀ entry ∈ entries, entry.2.Read) :
    (Value.dict entries).Read := by
  intro other rest rest' hother _ _ h
  have hkind := (IsData.dict hentries).kind_eq hother h
  cases hother with
  | @dict others hothers =>
      rw [text_dict, text_dict] at h
      have hopen : ∀ entry : String × Value, entry.2.IsData → ∀ tail tail',
          entryText entry ++ tail ≠ '\x7d' :: tail' := by
        intro entry _ tail tail' hclose
        rw [entryText, Text.quote_toList] at hclose
        exact absurd (List.cons.inj hclose).1 (by decide)
      obtain ⟨rfl, hrests⟩ := listed_readable (by decide) rfl hopen
        (fun entry hentry => readable_entry (hread entry hentry)) hentries hothers
        (List.cons.inj h).2
      exact ⟨rfl, hrests⟩
  | _ => cases hkind

/-- **The text of data can be read.** -/
theorem IsData.readable {v : Value} (hv : v.IsData) : v.Read := by
  -- on how the value is built; in each case the other value is of the same kind
  induction hv with
  | tuple hitems ih => exact readable_tuple hitems ih
  | dict hentries ih => exact readable_dict hentries ih
  | nil =>
      intro other rest rest' hother _ _ h
      have hkind := IsData.nil.kind_eq hother h
      cases hother with
      | nil => exact ⟨rfl, List.append_cancel_left h⟩
      | _ => cases hkind
  | bool b =>
      intro other rest rest' hother _ _ h
      have hkind := (IsData.bool b).kind_eq hother h
      cases hother with
      | bool b' =>
          -- the texts of the two truth values differ at once
          cases b <;> cases b'
          · exact ⟨rfl, List.append_cancel_left h⟩
          · exact absurd (List.cons.inj h).1 (by decide)
          · exact absurd (List.cons.inj h).1 (by decide)
          · exact ⟨rfl, List.append_cancel_left h⟩
      | _ => cases hkind
  | int n =>
      intro other rest rest' hother hrest hrest' h
      have hkind := (IsData.int n).kind_eq hother h
      cases hother with
      | int n' =>
          obtain ⟨hsame, hrests⟩ := Text.decimal_readable hrest hrest' h
          exact ⟨congrArg Value.int (Int64.toInt_inj.mp hsame), hrests⟩
      | _ => cases hkind
  | str s =>
      intro other rest rest' hother _ _ h
      have hkind := (IsData.str s).kind_eq hother h
      cases hother with
      | str s' =>
          obtain ⟨hsame, hrests⟩ := Text.quote_readable h
          exact ⟨congrArg Value.str hsame, hrests⟩
      | _ => cases hkind

/-- **The text of data is unambiguous:** values with the same text are the
same. -/
theorem IsData.eq_of_display_eq {v w : Value} (hv : v.IsData) (hw : w.IsData)
    (h : v.display = w.display) : v = w := by
  have htexts : text v ++ [] = text w ++ [] := by
    unfold text
    rw [h]
  exact (hv.readable w [] [] hw Text.notStarting_nil Text.notStarting_nil htexts).1

/-- A tuple of a string that looks like the end of a tuple, a tuple of one item,
and a dictionary whose keys look like what separates entries. -/
def punctuated (entries : Dict String Value) : Value :=
  .tuple [.str ",), (", .tuple [.int (-1)], .dict entries]

theorem isData_punctuated {entries : Dict String Value} (h : ∀ entry ∈ entries, entry.2.IsData) :
    (punctuated entries).IsData := by
  refine .tuple fun item hitem => ?_
  rcases List.mem_cons.mp hitem with rfl | hitem
  · exact .str _
  rcases List.mem_cons.mp hitem with rfl | hitem
  · exact .tuple fun item hitem => List.mem_singleton.mp hitem ▸ .int _
  · exact List.mem_singleton.mp hitem ▸ .dict h

/-- Two ways of making the dictionary give the same text and the same value. -/
theorem eq_of_display_eq_punctuated :
    (punctuated (Dict.set [(", ", .nil), ("\": ", .bool true)] ", " (.tuple []))).display
        = "(\",), (\", (-1,), \x7b\", \": (), \"\\\": \": true\x7d)"
      ∧ punctuated (Dict.set [(", ", .nil), ("\": ", .bool true)] ", " (.tuple []))
        = punctuated [(", ", .tuple []), ("\": ", .bool true)] := by
  have hdata : ∀ v : Value, v.IsData → ∀ entry ∈ [(", ", v), ("\": ", .bool true)],
      entry.2.IsData := by
    intro v hv entry hentry
    rcases List.mem_cons.mp hentry with rfl | hentry
    · exact hv
    · exact List.mem_singleton.mp hentry ▸ .bool true
  have hempty : (Value.tuple []).IsData := .tuple fun item hitem => nomatch hitem
  refine ⟨by decide +kernel, ?_⟩
  refine IsData.eq_of_display_eq (isData_punctuated (hdata _ hempty))
    (isData_punctuated (hdata _ hempty)) ?_
  decide +kernel

end CallDecoration.Value
