/-
  CallDecoration.Proofs.Value.Equality
  ──────────────────────────────────────
  **Equality of values is an equivalence,** and how far it is from identity.
  Values are equal if nothing that compares values tells them apart
  (`Value.equal_congr`).  Two dictionaries are equal if each key has equal
  values in both, in whatever order (`Value.dict_equal_iff`); the order of
  keys, at every level, is all that equality forgets of data
  (`Value.eq_of_equal`).
-/
import CallDecoration.Proofs.Dict
import CallDecoration.Value.Equality
import Mathlib.Data.List.Forall2

namespace CallDecoration.Value

/-! ## §1. Induction over tuples and dictionaries. -/

/-- Whether a value is made of other values. -/
def isContainer : Value → Bool
  | tuple _ | dict _ => true
  | _ => false

mutual

/-- **Induction over data:** tuples and dictionaries from what is in them, all
other values at once. -/
theorem dataInduction {motive : Value → Prop}
    (tuple : ∀ items, (∀ item ∈ items, motive item) → motive (.tuple items))
    (dict : ∀ entries, (∀ entry ∈ entries, motive entry.2) → motive (.dict entries))
    (other : ∀ v : Value, v.isContainer = false → motive v) (v : Value) : motive v :=
  match v with
  | .tuple items => tuple items (dataInduction_items tuple dict other items)
  | .dict entries => dict entries (dataInduction_entries tuple dict other entries)
  | .nil => other _ rfl
  | .bool _ => other _ rfl
  | .int _ => other _ rfl
  | .str _ => other _ rfl
  | .function _ => other _ rfl
  | .native _ => other _ rfl
  | .type _ => other _ rfl
  | .method _ => other _ rfl
  | .module _ => other _ rfl

theorem dataInduction_items {motive : Value → Prop}
    (tuple : ∀ items, (∀ item ∈ items, motive item) → motive (.tuple items))
    (dict : ∀ entries, (∀ entry ∈ entries, motive entry.2) → motive (.dict entries))
    (other : ∀ v : Value, v.isContainer = false → motive v) (items : List Value) :
    ∀ item ∈ items, motive item :=
  match items with
  | [] => fun _ h => absurd h List.not_mem_nil
  | item :: rest => List.forall_mem_cons.mpr
      ⟨dataInduction tuple dict other item, dataInduction_items tuple dict other rest⟩

theorem dataInduction_entries {motive : Value → Prop}
    (tuple : ∀ items, (∀ item ∈ items, motive item) → motive (.tuple items))
    (dict : ∀ entries, (∀ entry ∈ entries, motive entry.2) → motive (.dict entries))
    (other : ∀ v : Value, v.isContainer = false → motive v) (entries : List (String × Value)) :
    ∀ entry ∈ entries, motive entry.2 :=
  match entries with
  | [] => fun _ h => absurd h List.not_mem_nil
  | (_, value) :: rest => List.forall_mem_cons.mpr
      ⟨dataInduction tuple dict other value, dataInduction_entries tuple dict other rest⟩

end

/-! ## §2. Equality of tuples and of dictionaries. -/

/-- Tuples are equal item by item. -/
theorem itemsEqual_iff {as bs : List Value} :
    itemsEqual as bs = true ↔ List.Forall₂ (fun a b => equal a b = true) as bs := by
  induction as generalizing bs with
  | nil =>
      cases bs with
      | nil => exact iff_of_true rfl .nil
      | cons b bs => exact iff_of_false Bool.false_ne_true (fun h => nomatch h)
  | cons a as ih =>
      cases bs with
      | nil => exact iff_of_false Bool.false_ne_true (fun h => nomatch h)
      | cons b bs => rw [itemsEqual, Bool.and_eq_true, List.forall₂_cons, ih]

/-- The scan of the first dictionary compares the first entry of each key that
has not been seen. -/
theorem entriesEqual_iff {seen : List String} {a b : List (String × Value)} :
    entriesEqual seen a b = true
      ↔ ∀ key, key ∉ seen → ∀ x, Dict.get? a key = some x →
        ∃ y, Dict.get? b key = some y ∧ equal x y = true := by
  induction a generalizing seen with
  | nil =>
      rw [entriesEqual]
      exact iff_of_true rfl (fun _ _ _ h => nomatch h)
  | cons entry rest ih =>
      obtain ⟨k, v⟩ := entry
      rw [entriesEqual, Bool.and_eq_true, Bool.or_eq_true, ih]
      constructor
      · rintro ⟨hhead, hrest⟩ key hkey x hx
        rw [Dict.get?] at hx
        by_cases hk : k = key
        · subst hk
          rw [if_pos rfl] at hx
          cases hx
          -- the key is new, so its first entry is compared
          rcases hhead with hseen | hvalue
          · exact absurd (List.contains_iff_mem.mp hseen) hkey
          · cases hget : Dict.get? b k with
            | none =>
                rw [hget] at hvalue
                cases hvalue
            | some y =>
                rw [hget] at hvalue
                exact ⟨y, rfl, hvalue⟩
        · rw [if_neg hk] at hx
          refine hrest key ?_ x hx
          intro hmem
          rcases List.mem_cons.mp hmem with h | h
          · exact hk h.symm
          · exact hkey h
      · intro h
        constructor
        · by_cases hseen : k ∈ seen
          · exact Or.inl (List.contains_iff_mem.mpr hseen)
          · obtain ⟨y, hy, heq⟩ := h k hseen v (if_pos rfl)
            rw [hy]
            exact Or.inr heq
        · intro key hkey x hx
          have hne : k ≠ key := fun hk => hkey (hk ▸ List.mem_cons_self)
          refine h key (fun hmem => hkey (List.mem_cons_of_mem _ hmem)) x ?_
          rw [Dict.get?, if_neg hne]
          exact hx

theorem keysWithin_iff {a b : Dict String Value} :
    Dict.keysWithin b a = true ↔ ∀ key ∈ Dict.keys b, key ∈ Dict.keys a := by
  unfold Dict.keysWithin
  rw [List.all_eq_true]
  constructor
  · intro h key hkey
    obtain ⟨entry, hentry, rfl⟩ := List.mem_map.mp hkey
    exact Dict.isSome_get?_iff.mp (h entry hentry)
  · intro h entry hentry
    exact Dict.isSome_get?_iff.mpr (h entry.1 (List.mem_map_of_mem hentry))

/-- **Dictionaries are equal if each key has equal values in both,** or no value
in either. -/
theorem dict_equal_iff {a b : List (String × Value)} :
    equal (.dict a) (.dict b) = true
      ↔ ∀ key, Option.Rel (fun x y => equal x y = true) (Dict.get? a key) (Dict.get? b key) := by
  -- the entries of `a` are looked up in `b`, and for the other way the keys are enough
  rw [equal, Bool.and_eq_true, entriesEqual_iff, keysWithin_iff]
  constructor
  · rintro ⟨hvalues, hkeys⟩ key
    cases ha : Dict.get? a key with
    | some x =>
        obtain ⟨y, hy, heq⟩ := hvalues key List.not_mem_nil x ha
        rw [hy]
        exact .some heq
    | none =>
        cases hb : Dict.get? b key with
        | none => exact .none
        | some y =>
            have hmem : key ∈ Dict.keys b := Dict.isSome_get?_iff.mp (by rw [hb]; rfl)
            exact absurd (hkeys key hmem) (Dict.get?_eq_none_iff.mp ha)
  · intro h
    constructor
    · intro key _ x hx
      have hkey := h key
      rw [hx] at hkey
      cases hb : Dict.get? b key with
      | none =>
          rw [hb] at hkey
          cases hkey
      | some y =>
          rw [hb] at hkey
          cases hkey with
          | some heq => exact ⟨y, rfl, heq⟩
    · intro key hkey
      have hboth := h key
      obtain ⟨y, hy⟩ := Option.isSome_iff_exists.mp (Dict.isSome_get?_iff.mpr hkey)
      rw [hy] at hboth
      refine Dict.isSome_get?_iff.mp ?_
      cases ha : Dict.get? a key with
      | none =>
          rw [ha] at hboth
          cases hboth
      | some x => rfl

/-! ## §3. An equivalence. -/

/-- Every value is equal to itself. -/
theorem equal_refl (v : Value) : equal v v = true := by
  induction v using dataInduction with
  | tuple items ih =>
      rw [equal, itemsEqual_iff]
      exact List.forall₂_same.mpr ih
  | dict entries ih =>
      rw [dict_equal_iff]
      intro key
      cases h : Dict.get? entries key with
      | none => exact .none
      | some x => exact .some (ih _ (Dict.mem_of_get? h))
  | other v hv =>
      cases v with
      | tuple _ | dict _ => cases hv
      | nil => rfl
      | bool _ | int _ | str _ | function _ | native _ | type _ | method _ | module _ =>
          rw [equal]
          exact beq_self_eq_true _

/-- Lists that are equal item by item are equal to the same lists, if that holds
of the items. -/
theorem itemsEqual_congr {as bs : List Value}
    (h : List.Forall₂ (fun a b => equal a b = true) as bs)
    (hitems : ∀ a ∈ as, ∀ b, equal a b = true → ∀ c, equal a c = equal b c) (cs : List Value) :
    itemsEqual as cs = itemsEqual bs cs := by
  induction h generalizing cs with
  | nil => rfl
  | cons hhead htail ih =>
      obtain ⟨hfirst, hrest⟩ := List.forall_mem_cons.mp hitems
      cases cs with
      | nil => rfl
      | cons c cs => rw [itemsEqual, itemsEqual, hfirst _ hhead c, ih hrest cs]

/-- The same for what two dictionaries hold under one key. -/
theorem optionRel_congr {R : Value → Value → Prop} {o o' : Option Value} (h : Option.Rel R o o')
    (hvalue : ∀ x, o = some x → ∀ y, R x y → ∀ z, R x z ↔ R y z) (p : Option Value) :
    Option.Rel R o p ↔ Option.Rel R o' p := by
  cases h with
  | none => exact Iff.rfl
  | some hxy =>
      cases p with
      | none => exact iff_of_false (fun h => nomatch h) (fun h => nomatch h)
      | some z => rw [Option.rel_some_some, Option.rel_some_some, hvalue _ rfl _ hxy z]

/-- **Equal values are equal to the same values.** -/
theorem equal_congr {a b : Value} (h : equal a b = true) (c : Value) : equal a c = equal b c := by
  induction a using dataInduction generalizing b c with
  | tuple as ih =>
      cases b with
      | tuple bs =>
          rw [equal, itemsEqual_iff] at h
          cases c with
          | tuple cs =>
              rw [equal, equal]
              exact itemsEqual_congr h (fun a ha b hab => ih a ha hab) cs
          | _ => rfl
      | _ => cases h
  | dict as ih =>
      cases b with
      | dict bs =>
          rw [dict_equal_iff] at h
          cases c with
          | dict cs =>
              rw [Bool.eq_iff_iff, dict_equal_iff, dict_equal_iff]
              refine forall_congr' fun key => optionRel_congr (h key) ?_ _
              intro x hx y hxy z
              rw [ih _ (Dict.mem_of_get? hx) hxy z]
          | _ => rfl
      | _ => cases h
  | other a ha =>
      cases a with
      | tuple _ | dict _ => cases ha
      | nil =>
          cases b with
          | nil => rfl
          | _ => cases h
      | bool _ | int _ | str _ | function _ | native _ | type _ | method _ | module _ =>
          -- only a value of the same kind is equal, and it has the same content or identity
          cases b <;> first
            | (rw [equal, beq_iff_eq] at h; cases c <;> first | rw [equal, equal, h] | rfl)
            | cases h

/-- **Equality is an equivalence.** -/
instance : EquivBEq Value where
  rfl := equal_refl _
  symm := fun {a _} h => (equal_congr h a).symm.trans (equal_refl a)
  trans := fun {_ _ c} hab hbc => (equal_congr hab c).trans hbc

/-! ## §4. What equality forgets. -/

/-- The order of keys of the dictionaries in a value, at every level. -/
inductive KeyOrder where
  | plain
  | items (orders : List KeyOrder)
  | keys (orders : List (String × KeyOrder))

mutual

/-- **The order of keys in a value.** -/
def keyOrder : Value → KeyOrder
  | tuple items => .items (itemOrders items)
  | dict entries => .keys (entryOrders entries)
  | _ => .plain

/-- The orders of the items of a tuple. -/
def itemOrders : List Value → List KeyOrder
  | [] => []
  | item :: rest => keyOrder item :: itemOrders rest

/-- The keys of a dictionary, with the orders of their values. -/
def entryOrders : List (String × Value) → List (String × KeyOrder)
  | [] => []
  | (key, value) :: rest => (key, keyOrder value) :: entryOrders rest

end

/-- A value within another one. -/
inductive Within : Value → Value → Prop where
  | refl (v : Value) : Within v v
  | tuple {x item : Value} {items : List Value} (hmem : item ∈ items) (h : Within x item) :
      Within x (.tuple items)
  | dict {x : Value} {entry : String × Value} {entries : List (String × Value)}
      (hmem : entry ∈ entries) (h : Within x entry.2) : Within x (.dict entries)

/-- **Two values of one program:** no dictionary in them has a key twice, and what
is not made of other values is told apart by its content or its identity. -/
structure Coherent (v w : Value) : Prop where
  left : ∀ entries, Within (.dict entries) v → (Dict.keys entries).Nodup
  right : ∀ entries, Within (.dict entries) w → (Dict.keys entries).Nodup
  identity : ∀ x y, Within x v → Within y w → x.isContainer = false → equal x y = true → x = y

theorem Coherent.items {as bs : List Value} (h : Coherent (.tuple as) (.tuple bs)) {a b : Value}
    (ha : a ∈ as) (hb : b ∈ bs) : Coherent a b where
  left entries hin := h.left entries (.tuple ha hin)
  right entries hin := h.right entries (.tuple hb hin)
  identity x y hx hy := h.identity x y (.tuple ha hx) (.tuple hb hy)

theorem Coherent.entries {as bs : List (String × Value)} (h : Coherent (.dict as) (.dict bs))
    {a b : String × Value} (ha : a ∈ as) (hb : b ∈ bs) : Coherent a.2 b.2 where
  left entries hin := h.left entries (.dict ha hin)
  right entries hin := h.right entries (.dict hb hin)
  identity x y hx hy := h.identity x y (.dict ha hx) (.dict hb hy)

/-- Lists of values that are equal in pairs and have their keys in the same order
are the same, if that holds of the pairs. -/
theorem items_eq {as bs : List Value}
    (h : List.Forall₂ (fun a b => equal a b = true) as bs) (horder : itemOrders as = itemOrders bs)
    (hitems : ∀ a ∈ as, ∀ b ∈ bs, equal a b = true → keyOrder a = keyOrder b → a = b) :
    as = bs := by
  induction h with
  | nil => rfl
  | cons hhead htail ih =>
      rw [itemOrders, itemOrders, List.cons.injEq] at horder
      have hfirst := hitems _ List.mem_cons_self _ List.mem_cons_self hhead horder.1
      have hrest := ih horder.2 fun a ha b hb =>
        hitems a (List.mem_cons_of_mem _ ha) b (List.mem_cons_of_mem _ hb)
      rw [hfirst, hrest]

/-- Entries with the same keys in the same order are the same, if entries of one
key are. -/
theorem entries_eq {as bs : List (String × Value)} (horder : entryOrders as = entryOrders bs)
    (hentries : ∀ a ∈ as, ∀ b ∈ bs, a.1 = b.1 → keyOrder a.2 = keyOrder b.2 → a.2 = b.2) :
    as = bs := by
  induction as generalizing bs with
  | nil =>
      cases bs with
      | nil => rfl
      | cons b bs => cases horder
  | cons a as ih =>
      cases bs with
      | nil => cases horder
      | cons b bs =>
          rw [entryOrders, entryOrders, List.cons.injEq, Prod.mk.injEq] at horder
          obtain ⟨⟨hkey, hfirst⟩, hrest⟩ := horder
          have hvalue := hentries a List.mem_cons_self b List.mem_cons_self hkey hfirst
          have hothers := ih hrest fun a ha b hb =>
            hentries a (List.mem_cons_of_mem _ ha) b (List.mem_cons_of_mem _ hb)
          rw [hothers, Prod.ext hkey hvalue]

/-- **Equality forgets nothing but the order of keys:** equal values with their
keys in the same order are the same value. -/
theorem eq_of_equal {a b : Value} (hcoherent : Coherent a b) (h : equal a b = true)
    (horder : keyOrder a = keyOrder b) : a = b := by
  induction a using dataInduction generalizing b with
  | tuple as ih =>
      cases b with
      | tuple bs =>
          rw [equal, itemsEqual_iff] at h
          rw [keyOrder, keyOrder, KeyOrder.items.injEq] at horder
          refine congrArg Value.tuple (items_eq h horder ?_)
          intro a ha b hb hab
          exact ih a ha (hcoherent.items ha hb) hab
      | _ => cases h
  | dict as ih =>
      cases b with
      | dict bs =>
          rw [dict_equal_iff] at h
          rw [keyOrder, keyOrder, KeyOrder.keys.injEq] at horder
          refine congrArg Value.dict (entries_eq horder ?_)
          intro a ha b hb hkey hab
          -- the entry of a key is what a look-up finds
          have hfound := h a.1
          rw [Dict.get?_of_mem (hcoherent.left as (.refl _)) ha, hkey,
            Dict.get?_of_mem (hcoherent.right bs (.refl _)) hb, Option.rel_some_some] at hfound
          exact ih a ha (hcoherent.entries ha hb) hfound hab
      | _ => cases h
  | other a ha => exact hcoherent.identity a b (.refl a) (.refl b) ha h

end CallDecoration.Value
