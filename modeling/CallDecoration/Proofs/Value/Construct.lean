/-
  CallDecoration.Proofs.Value.Construct
  ──────────────────────────────────────
  **Type objects as constructors.**  What a type constructs is of its kind, and
  a value of its kind it leaves as it is, so that constructing again changes
  nothing (`TypeObject.construct_construct`).  Integers are read back from
  their text, and from no text but the spelling of one
  (`TypeObject.construct_int_str`).  A dictionary takes keywords behind its own
  keys, and their values in place of its own (`TypeObject.construct_dict`).
-/
import CallDecoration.Proofs.Dict
import CallDecoration.Proofs.Text.Numerals
import CallDecoration.Value.Construct

namespace CallDecoration.TypeObject

open Text (IsTrimOf Spells)

/-! ## §1. Values of a type. -/

/-- The kind of the values of a type. -/
def kind : TypeObject → Kind
  | bool => .bool
  | int => .int
  | str => .str
  | tuple => .tuple
  | dict => .dict

/-- Without keywords nothing is added. -/
theorem withEntries_nil (v : Value) : withEntries [] v = v := by
  cases v <;> rfl

theorem construct_one (t : TypeObject) (v : Value) : t.construct (.one v) = t.ofValue v := by
  unfold construct
  rw [if_neg (fun h => h.2 rfl)]
  show (t.ofValue v).map (withEntries []) = t.ofValue v
  cases t.ofValue v with
  | error e => rfl
  | ok y => exact congrArg Except.ok (withEntries_nil y)

/-- **What a type constructs is of its kind.** -/
theorem kind_of_ofValue {t : TypeObject} {v y : Value} (h : t.ofValue v = .ok y) :
    y.kind = t.kind := by
  unfold ofValue at h
  split at h
  case h_4 s =>
    -- an integer is read from the text
    unfold intOfText at h
    split at h <;> cases h
    rfl
  all_goals cases h <;> rfl

/-- **A type leaves values of its kind as they are.** -/
theorem ofValue_of_kind {t : TypeObject} {v : Value} (h : v.kind = t.kind) :
    t.ofValue v = .ok v := by
  cases t <;> cases v <;> first | rfl | cases h

/-- **Constructing again changes nothing.** -/
theorem construct_construct {t : TypeObject} {v y : Value} (h : t.construct (.one v) = .ok y) :
    t.construct (.one y) = .ok y := by
  rw [construct_one] at h ⊢
  exact ofValue_of_kind (kind_of_ofValue h)

/-! ## §2. Integers and their text. -/

/-- A string that spells an integer between white space. -/
def IntegerText (s : String) (n : Int64) : Prop :=
  ∃ core, IsTrimOf core s.toList ∧ Spells core n.toInt

theorem readInt64?_trim {s : String} {n : Int64} :
    Text.readInt64? (Text.trim s.toList) = some n ↔ IntegerText s n := by
  rw [Text.readInt64?_eq_some_iff]
  constructor
  · exact fun h => ⟨_, Text.isTrimOf_trim _, h⟩
  · rintro ⟨core, htrim, hspells⟩
    rw [htrim.trim_eq]
    exact hspells

/-- **An integer is constructed from exactly the texts that spell one.** -/
theorem construct_int_str {s : String} {v : Value} :
    int.construct (.one (.str s)) = .ok v ↔ ∃ n, IntegerText s n ∧ v = .int n := by
  rw [construct_one]
  show intOfText s = .ok v ↔ _
  unfold intOfText
  cases hread : Text.readInt64? (Text.trim s.toList) with
  | some n =>
      have hn := readInt64?_trim.mp hread
      constructor
      · intro h
        cases h
        exact ⟨n, hn, rfl⟩
      · rintro ⟨n', hn', rfl⟩
        rw [readInt64?_trim.mpr hn'] at hread
        cases hread
        rfl
  | none =>
      refine iff_of_false (fun h => nomatch h) ?_
      rintro ⟨n, hn, -⟩
      rw [readInt64?_trim.mpr hn] at hread
      cases hread

/-- All other texts are refused. -/
theorem construct_int_str_refused {s : String} (h : ∀ n, ¬ IntegerText s n) :
    int.construct (.one (.str s)) = .error (.badArguments "int" (.invalidLiteral s)) := by
  rw [construct_one]
  show intOfText s = _
  unfold intOfText
  cases hread : Text.readInt64? (Text.trim s.toList) with
  | some n => exact absurd (readInt64?_trim.mp hread) (h n)
  | none => rfl

/-- **An integer is read back from its text,** with white space at either end. -/
theorem construct_int_decimal (n : Int64) {before after : List Char}
    (hbefore : ∀ c ∈ before, Text.isWhiteSpace c = true)
    (hafter : ∀ c ∈ after, Text.isWhiteSpace c = true) :
    int.construct (.one (.str (String.ofList
      (before ++ (Text.decimal n.toInt).toList ++ after)))) = .ok (.int n) := by
  have hspells := Text.spells_decimal n.toInt
  refine construct_int_str.mpr ⟨n, ⟨_, ?_, hspells⟩, rfl⟩
  rw [String.toList_ofList]
  exact hspells.isTrimOf hbefore hafter

/-! ## §3. Dictionaries and keywords. -/

theorem construct_dict (d keyword : Dict String Value) :
    dict.construct ⟨[.dict d], keyword⟩ = .ok (.dict (Dict.merge d keyword)) := by
  unfold construct
  rw [if_neg (fun h => h.1 rfl)]
  rfl

/-! ## §4. The laws of constructors. -/

/-- **The laws of type objects.** -/
structure ConstructorLaws : Prop where
  /-- A type constructs values of its kind, and constructing again gives the same
  value. -/
  projects : ∀ (t : TypeObject) (v y : Value), t.construct (.one v) = .ok y →
    y.kind = t.kind ∧ t.construct (.one y) = .ok y
  /-- An integer is constructed from its text, with any white space around it. -/
  roundTrips : ∀ n : Int64, ∃ text : String, str.construct (.one (.int n)) = .ok (.str text)
    ∧ ∀ before after : List Char, (∀ c ∈ before, Text.isWhiteSpace c = true) →
      (∀ c ∈ after, Text.isWhiteSpace c = true) →
      int.construct (.one (.str (String.ofList (before ++ text.toList ++ after)))) = .ok (.int n)
  /-- An integer is constructed from a string exactly if that spells one, between
  white space. -/
  reads : ∀ (s : String) (v : Value),
    int.construct (.one (.str s)) = .ok v ↔ ∃ n, IntegerText s n ∧ v = .int n
  /-- All other strings are refused. -/
  refuses : ∀ s : String, (∀ n, ¬ IntegerText s n) →
    int.construct (.one (.str s)) = .error (.badArguments "int" (.invalidLiteral s))
  /-- A dictionary keeps its keys in their order, the new ones of the keywords come
  behind them in theirs, and the keywords' values win. -/
  merges : ∀ d keyword : Dict String Value, (Dict.keys d).Nodup → (Dict.keys keyword).Nodup →
    ∃ entries, dict.construct ⟨[.dict d], keyword⟩ = .ok (.dict entries)
      ∧ (Dict.keys entries).Nodup
      ∧ Dict.keys entries
        = Dict.keys d ++ (Dict.keys keyword).filter (fun key => decide (key ∉ Dict.keys d))
      ∧ ∀ key, Dict.get? entries key = (Dict.get? keyword key).or (Dict.get? d key)

/-- **Type objects are projections, and integers are read back.** -/
theorem constructor_laws : ConstructorLaws where
  projects t v y h := by
    refine ⟨?_, construct_construct h⟩
    rw [construct_one] at h
    exact kind_of_ofValue h
  roundTrips n := by
    have htext : str.construct (.one (.int n)) = .ok (.str (Text.decimal n.toInt)) :=
      construct_one str (.int n)
    exact ⟨_, htext, fun before after hbefore hafter => construct_int_decimal n hbefore hafter⟩
  reads s v := construct_int_str
  refuses s h := construct_int_str_refused h
  merges d keyword hd hkeyword :=
    ⟨Dict.merge d keyword, construct_dict d keyword, Dict.nodup_keys_merge hd keyword,
      Dict.keys_merge hkeyword, Dict.get?_merge hkeyword⟩

/-- The tuple of a dictionary's keys is a tuple; the least integer is read back
between exotic white space; and a keyword takes over a key in its place. -/
theorem constructor_laws_leastInteger :
    tuple.construct (.one (.tuple [.str "b", .str "a"])) = .ok (.tuple [.str "b", .str "a"])
      ∧ (∃ text, str.construct (.one (.int (-9223372036854775808))) = .ok (.str text)
        ∧ int.construct (.one (.str (String.ofList
            (['\u00a0', '\n'] ++ text.toList ++ ['\u3000'])))) = .ok (.int (-9223372036854775808)))
      ∧ ∃ entries,
        dict.construct ⟨[.dict [("b", .int 1), ("a", .int 2)]], [("c", .int 3), ("b", .nil)]⟩
          = .ok (.dict entries)
        ∧ Dict.keys entries = ["b", "a", "c"] ∧ Dict.get? entries "b" = some .nil := by
  refine ⟨(constructor_laws.projects tuple (.dict [("b", .int 1), ("a", .int 2)]) _ rfl).2, ?_, ?_⟩
  · obtain ⟨text, htext, hread⟩ := constructor_laws.roundTrips (-9223372036854775808)
    have hbefore : ∀ c ∈ ['\u00a0', '\n'], Text.isWhiteSpace c = true :=
      List.all_eq_true.mp (by decide)
    have hafter : ∀ c ∈ ['\u3000'], Text.isWhiteSpace c = true := List.all_eq_true.mp (by decide)
    exact ⟨text, htext, hread _ _ hbefore hafter⟩
  · obtain ⟨entries, hconstruct, -, hkeys, hget⟩ :=
      constructor_laws.merges [("b", .int 1), ("a", .int 2)] [("c", .int 3), ("b", .nil)]
        (by decide) (by decide)
    exact ⟨entries, hconstruct, hkeys, hget "b"⟩

end CallDecoration.TypeObject
