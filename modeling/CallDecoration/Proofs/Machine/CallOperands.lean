/-
  CallDecoration.Proofs.Machine.CallOperands
  ──────────────────────────────────────
  **The one law by which calls deliver arguments.**  The operands of a call
  are the parts of its arguments written one after another
  (`CallParts.operands`), and collecting them reads the parts back: it
  succeeds exactly if the operands are parts of the call's shape with distinct
  names, and gives the arguments that the parts make
  (`collectArgs_eq_ok_iff`).  From that and from how the machine takes
  operands away follows what each call does on each stack
  (`call_delivers`).
-/
import CallDecoration.Proofs.Dict
import CallDecoration.Proofs.Except
import CallDecoration.Proofs.Machine.Instructions

namespace CallDecoration

variable {callee : Value}

/-! ## §1. Adding keyword arguments. -/

/-- A keyword argument goes to the end, unless there is one of its name. -/
theorem addKeyword_eq (callee : Value) (keyword : Dict String Value) (name : String)
    (value : Value) :
    addKeyword callee keyword name value
      = if name ∈ Dict.keys keyword then
          .error (.badArguments callee.display (.repeatedKeyword name))
        else .ok (keyword ++ [(name, value)]) := by
  unfold addKeyword
  by_cases h : name ∈ Dict.keys keyword
  · rw [if_pos h, if_pos (show Dict.contains keyword name = true from Dict.isSome_get?_iff.mpr h)]
  · rw [if_neg h, Dict.contains_eq_false h, Dict.set_eq_append h]
    rfl

/-- **Entries are added exactly if no name comes twice,** neither among them nor
among those that are there. -/
theorem addEntries_eq_ok_iff {keyword keyword' : Dict String Value}
    {entries : List (String × Value)} (h : (Dict.keys keyword).Nodup) :
    addEntries callee keyword entries = .ok keyword'
      ↔ (Dict.keys (keyword ++ entries)).Nodup ∧ keyword ++ entries = keyword' := by
  induction entries generalizing keyword with
  | nil =>
      rw [List.append_nil]
      show Except.ok keyword = .ok keyword' ↔ _
      rw [Except.ok.injEq]
      exact ⟨fun heq => ⟨h, heq⟩, fun heq => heq.2⟩
  | cons entry rest ih =>
      obtain ⟨name, value⟩ := entry
      rw [addEntries, addKeyword_eq]
      by_cases hmem : name ∈ Dict.keys keyword
      · rw [if_pos hmem]
        -- the name is there, and comes again
        refine iff_of_false (fun heq => nomatch heq) ?_
        exact fun heq => Dict.not_mem_keys_left heq.1 hmem
      · rw [if_neg hmem]
        have hnodup : (Dict.keys (keyword ++ [(name, value)])).Nodup :=
          Dict.nodup_keys_concat h hmem value
        show addEntries callee (keyword ++ [(name, value)]) rest = .ok keyword' ↔ _
        rw [ih hnodup, ← List.append_cons]

/-! ## §2. The parts of the arguments of a call. -/

/-- Pairs of name and value, written one after another. -/
def layOut (pairs : List (String × Value)) : List Value :=
  pairs.flatMap fun pair => [.str pair.1, pair.2]

/-- The groups of values that a call hands over. -/
structure CallParts where
  /-- The positional arguments that are spelled out. -/
  positional : List Value
  /-- The keyword arguments that are spelled out. -/
  keyword : List (String × Value)
  /-- The items of the tuple of further positional arguments, if there is one. -/
  further : Option (List Value)
  /-- The entries of the dictionary of further keyword arguments, if there is
  one. -/
  entries : Option (List (String × Value))

namespace CallParts

/-- **The parts as operands,** bottom to top. -/
def operands (parts : CallParts) : List Value :=
  parts.positional ++ (layOut parts.keyword
    ++ (parts.further.toList.map .tuple ++ parts.entries.toList.map .dict))

/-- **The arguments that the parts make:** the explicit ones first. -/
def args (parts : CallParts) : CallArgs :=
  ⟨parts.positional ++ parts.further.getD [], parts.keyword ++ parts.entries.getD []⟩

/-- Parts of a shape: as many explicit ones as it tells, and a tuple and a
dictionary if it has them. -/
structure Fits (parts : CallParts) (shape : CallShape) : Prop where
  positional : parts.positional.length = shape.positional.toNat
  keyword : parts.keyword.length = shape.keyword.toNat
  further : parts.further.isSome = shape.varPositional
  entries : parts.entries.isSome = shape.varKeyword

/-- **Operands from which arguments can be collected:** parts of the shape, in
which no keyword name comes twice, be it spelled out or in the dictionary. -/
structure Describes (parts : CallParts) (shape : CallShape) (operands : List Value) : Prop where
  fits : parts.Fits shape
  operands : parts.operands = operands
  distinct : (Dict.keys parts.args.keyword).Nodup

end CallParts

theorem layOut_cons (pair : String × Value) (pairs : List (String × Value)) :
    layOut (pair :: pairs) = .str pair.1 :: pair.2 :: layOut pairs := rfl

theorem length_layOut (pairs : List (String × Value)) :
    (layOut pairs).length = 2 * pairs.length := by
  induction pairs with
  | nil => rfl
  | cons pair rest ih =>
      rw [layOut_cons, List.length_cons, List.length_cons, List.length_cons, ih]
      omega

/-- **Parts of a shape take as many operands as the shape tells.** -/
theorem CallParts.Fits.length_operands {parts : CallParts} {shape : CallShape}
    (h : parts.Fits shape) : parts.operands.length = shape.slots := by
  have hoption : ∀ {α : Type} (x : Option α) (f : α → Value),
      (x.toList.map f).length = x.isSome.toNat := by
    intro α x f
    cases x <;> rfl
  unfold CallParts.operands CallShape.slots
  rw [List.length_append, List.length_append, List.length_append, length_layOut, hoption, hoption,
    h.positional, h.keyword, h.further, h.entries]
  omega

/-! ## §3. Reading the parts back. -/

/-- Pairs are taken exactly if the operands begin with pairs of which each has a
name, and these can be added. -/
theorem takeKeywords_eq_ok_iff {count : Nat} {keyword keyword' : Dict String Value}
    {operands left : List Value} :
    takeKeywords callee count keyword operands = .ok (keyword', left)
      ↔ ∃ pairs, pairs.length = count ∧ operands = layOut pairs ++ left
        ∧ addEntries callee keyword pairs = .ok keyword' := by
  induction count generalizing keyword operands with
  | zero =>
      show Except.ok (keyword, operands) = .ok (keyword', left) ↔ _
      constructor
      · intro h
        cases h
        exact ⟨[], rfl, rfl, rfl⟩
      · rintro ⟨pairs, hlen, rfl, hadd⟩
        obtain rfl := List.length_eq_zero_iff.mp hlen
        cases hadd
        rfl
  | succ count ih =>
      constructor
      · intro h
        match operands, h with
        | [], h => cases h
        | [_], h => cases h
        | name :: value :: operands, h =>
            cases name with
            | str name =>
                obtain ⟨keyword₁, hone, h⟩ := bind_eq_ok_iff.mp h
                obtain ⟨pairs, hlen, rfl, hadd⟩ := ih.mp h
                exact ⟨(name, value) :: pairs, congrArg (· + 1) hlen, rfl,
                  bind_eq_ok_iff.mpr ⟨keyword₁, hone, hadd⟩⟩
            | _ => cases h
      · rintro ⟨pairs, hlen, rfl, hadd⟩
        obtain ⟨⟨name, value⟩, pairs, rfl⟩ := List.exists_cons_of_length_eq_add_one hlen
        obtain ⟨keyword₁, hone, hadd⟩ := bind_eq_ok_iff.mp hadd
        exact bind_eq_ok_iff.mpr
          ⟨keyword₁, hone, ih.mpr ⟨pairs, Nat.succ.inj hlen, rfl, hadd⟩⟩

theorem takeTuple_eq_ok_iff {present : Bool} {operands items left : List Value} :
    takeTuple present operands = .ok (items, left)
      ↔ ∃ further : Option (List Value), further.isSome = present
        ∧ operands = further.toList.map .tuple ++ left ∧ further.getD [] = items := by
  constructor
  · intro h
    match present, operands, h with
    | false, _, h =>
        cases h
        exact ⟨none, rfl, rfl, rfl⟩
    | true, .tuple items :: _, h =>
        cases h
        exact ⟨some items, rfl, rfl, rfl⟩
  · rintro ⟨further, rfl, rfl, rfl⟩
    cases further <;> rfl

theorem takeDict_eq_ok_iff {present : Bool} {keyword keyword' : Dict String Value}
    {operands : List Value} :
    takeDict callee present keyword operands = .ok keyword'
      ↔ ∃ (entries : Option (List (String × Value))) (left : List Value),
        entries.isSome = present ∧ operands = entries.toList.map .dict ++ left
          ∧ addEntries callee keyword (entries.getD []) = .ok keyword' := by
  constructor
  · intro h
    match present, operands, h with
    | false, operands, h => exact ⟨none, operands, rfl, rfl, h⟩
    | true, .dict entries :: left, h => exact ⟨some entries, left, rfl, rfl, h⟩
  · rintro ⟨entries, left, rfl, rfl, hadd⟩
    cases entries <;> exact hadd

/-- **Collected arguments come from parts,** with which the operands begin. -/
theorem exists_parts {shape : CallShape} {operands : List Value} {args : CallArgs}
    (h : collectArgs callee shape operands = .ok args) :
    ∃ (parts : CallParts) (left : List Value), parts.operands ++ left = operands
      ∧ (shape.positional.toNat ≤ operands.length → parts.Fits shape)
      ∧ (Dict.keys parts.args.keyword).Nodup ∧ parts.args = args := by
  unfold collectArgs at h
  obtain ⟨⟨keyword, last⟩, hkeywords, h⟩ := bind_eq_ok_iff.mp h
  obtain ⟨⟨items, last⟩, htuple, h⟩ := bind_eq_ok_iff.mp h
  obtain ⟨keyword', hdict, h⟩ := bind_eq_ok_iff.mp h
  cases h
  obtain ⟨pairs, hcount, hdrop, hpairs⟩ := takeKeywords_eq_ok_iff.mp hkeywords
  obtain ⟨further, hfurther, rfl, rfl⟩ := takeTuple_eq_ok_iff.mp htuple
  obtain ⟨entries, left, hentries, rfl, hadded⟩ := takeDict_eq_ok_iff.mp hdict
  obtain ⟨hkeys, rfl⟩ := (addEntries_eq_ok_iff Dict.nodup_keys_nil).mp hpairs
  obtain ⟨hdistinct, rfl⟩ := (addEntries_eq_ok_iff hkeys).mp hadded
  refine ⟨⟨operands.take shape.positional.toNat, pairs, further, entries⟩, left, ?_, ?_, hdistinct,
    rfl⟩
  · conv => rhs; rw [← List.take_append_drop shape.positional.toNat operands, hdrop]
    simp only [CallParts.operands, List.append_assoc]
  · intro hle
    exact ⟨List.length_take_of_le hle, hcount, hfurther, hentries⟩

/-- **Collecting reads the parts back.** -/
theorem collectArgs_eq_ok_iff {shape : CallShape} {operands : List Value} {args : CallArgs}
    (hlen : operands.length = shape.slots) :
    collectArgs callee shape operands = .ok args
      ↔ ∃ parts : CallParts, parts.Describes shape operands ∧ parts.args = args := by
  constructor
  · intro h
    obtain ⟨parts, left, rfl, hfits, hdistinct, rfl⟩ := exists_parts h
    have hfits := hfits (by unfold CallShape.slots at hlen; omega)
    -- the parts take all operands, so nothing is left behind them
    have hleft : left = [] := by
      rw [List.length_append, hfits.length_operands] at hlen
      exact List.length_eq_zero_iff.mp (by omega)
    exact ⟨parts, ⟨hfits, by rw [hleft, List.append_nil], hdistinct⟩, rfl⟩
  · rintro ⟨parts, ⟨hfits, rfl, hdistinct⟩, rfl⟩
    have hkeys : (Dict.keys parts.keyword).Nodup := Dict.nodup_keys_left hdistinct
    have htake : parts.operands.take shape.positional.toNat = parts.positional := by
      rw [← hfits.positional, CallParts.operands, List.take_left]
    have hdrop : parts.operands.drop shape.positional.toNat = layOut parts.keyword
        ++ (parts.further.toList.map .tuple ++ parts.entries.toList.map .dict) := by
      rw [← hfits.positional, CallParts.operands, List.drop_left]
    unfold collectArgs
    refine bind_eq_ok_iff.mpr ⟨_, takeKeywords_eq_ok_iff.mpr ⟨parts.keyword, hfits.keyword, hdrop,
      (addEntries_eq_ok_iff Dict.nodup_keys_nil).mpr ⟨hkeys, rfl⟩⟩, ?_⟩
    refine bind_eq_ok_iff.mpr ⟨_, takeTuple_eq_ok_iff.mpr ⟨parts.further, hfits.further, rfl, rfl⟩,
      ?_⟩
    refine bind_eq_ok_iff.mpr ⟨_, takeDict_eq_ok_iff.mpr ⟨parts.entries, [], hfits.entries,
      (List.append_nil _).symm, (addEntries_eq_ok_iff hkeys).mpr ⟨hdistinct, rfl⟩⟩, ?_⟩
    rw [htake]
    rfl

/-! ## §4. Packing keyword arguments into a dictionary. -/

/-- **The dictionary builder sets the pairs one after another,** so that of two
pairs with one name the later value stays, in the earlier place. -/
theorem Machine.entriesOf_layOut (entries : Dict String Value) (pairs : List (String × Value)) :
    Machine.entriesOf entries (layOut pairs) = .ok (Dict.merge entries pairs) := by
  induction pairs generalizing entries with
  | nil => rfl
  | cons pair rest ih =>
      rw [layOut_cons, Machine.entriesOf, ih]
      rfl

/-! ## §5. Executing a call. -/

namespace Machine

variable {σ : Type}

/-- **Calls a value with arguments:** what is run by bytecode is entered, anything
else is left to the run. -/
def deliver (callee : Value) (args : CallArgs) : Exec σ Signal :=
  match callee.entered? args with
  | some (g, given) => andAdvance (enterFrame g given)
  | none => return .external callee args

variable {f : Frame} {fs : List Frame} {st : Settings} {w : World σ}
  {shape : CallShape} {operands rest : List Value}

/-- A call whose arguments can be collected. -/
theorem execute_call_collected {args : CallArgs} (hlen : operands.length = shape.slots)
    (hargs : collectArgs callee shape operands = .ok args) :
    execute (.call shape) (of (operands.reverse ++ callee :: rest) (f :: fs) st w)
      = deliver callee args (of rest (f :: fs) st w) := by
  have hops : operands.reverse.length = shape.slots := by rw [List.length_reverse, hlen]
  rw [← List.reverse_reverse operands] at hargs
  unfold deliver
  cases hentered : callee.entered? args with
  | some entered => exact execute_call_entered hops hargs hentered
  | none => exact execute_call_external hops hargs hentered

/-- **How a call treats a stack** that holds `operands`, bottom to top, above
`callee` and `rest`. -/
structure CallLaw (shape : CallShape) (operands : List Value) (callee : Value)
    (rest : List Value) (f : Frame) (fs : List Frame) (st : Settings) (w : World σ) : Prop where
  /-- Collecting succeeds exactly if the operands are parts of the shape with
  distinct names, and gives the arguments that the parts make. -/
  collects : ∀ args, collectArgs callee shape operands = .ok args
    ↔ ∃ parts : CallParts, parts.Describes shape operands ∧ parts.args = args
  /-- Then the callee gets these arguments, on what lies below it. -/
  delivers : ∀ parts : CallParts, parts.Describes shape operands →
    execute (.call shape) (of (operands.reverse ++ callee :: rest) (f :: fs) st w)
      = deliver callee parts.args (of rest (f :: fs) st w)
  /-- Otherwise the call fails, and callee and operands are gone as well. -/
  refuses : (∀ parts : CallParts, ¬ parts.Describes shape operands) →
    ∃ e, execute (.call shape) (of (operands.reverse ++ callee :: rest) (f :: fs) st w)
      = (.error e, of rest (f :: fs) st w)
  /-- Packing the keyword arguments gives a dictionary with just them, and with
  it and the tuple of the positional ones as its only operands a call does the
  same. -/
  spreads : ∀ parts : CallParts, parts.Describes shape operands →
    entriesOf [] (layOut parts.args.keyword) = .ok parts.args.keyword
    ∧ execute (.call (CallShape.spread true))
        (of (.dict parts.args.keyword :: .tuple parts.args.positional :: callee :: rest)
          (f :: fs) st w)
      = execute (.call shape) (of (operands.reverse ++ callee :: rest) (f :: fs) st w)

/-- Arguments with distinct names can be handed over in one tuple and one
dictionary. -/
theorem describes_spread {args : CallArgs} (h : (Dict.keys args.keyword).Nodup) :
    CallParts.Describes ⟨[], [], some args.positional, some args.keyword⟩ (CallShape.spread true)
      [.tuple args.positional, .dict args.keyword] :=
  ⟨⟨rfl, rfl, rfl, rfl⟩, rfl, h⟩

/-- **Every call obeys the law,** on every stack that is high enough; on any other
it fails and leaves the stack as it is. -/
theorem call_delivers (shape : CallShape) (vs : List Value) (f : Frame) (fs : List Frame)
    (st : Settings) (w : World σ) :
    (vs.length ≤ shape.slots
        ∧ execute (.call shape) (of vs (f :: fs) st w) = (.error .stackUnderflow, of vs (f :: fs) st w))
      ∨ ∃ operands callee rest, vs = operands.reverse ++ callee :: rest
        ∧ operands.length = shape.slots ∧ CallLaw shape operands callee rest f fs st w := by
  by_cases hlow : vs.length < shape.slots + 1
  · exact Or.inl ⟨by omega, execute_short hlow⟩
  obtain ⟨ops, callee, rest, rfl, hops⟩ := exists_operands hlow
  have hlen : ops.reverse.length = shape.slots := by rw [List.length_reverse, hops]
  have hdelivers : ∀ parts : CallParts, parts.Describes shape ops.reverse →
      execute (.call shape) (of (ops.reverse.reverse ++ callee :: rest) (f :: fs) st w)
        = deliver callee parts.args (of rest (f :: fs) st w) := by
    intro parts hparts
    exact execute_call_collected hlen ((collectArgs_eq_ok_iff hlen).mpr ⟨parts, hparts, rfl⟩)
  refine Or.inr ⟨ops.reverse, callee, rest, by rw [List.reverse_reverse], hlen, ?_⟩
  refine
    { collects := fun args => collectArgs_eq_ok_iff hlen
      delivers := hdelivers
      refuses := ?_
      spreads := ?_ }
  · intro hnone
    cases hargs : collectArgs callee shape ops.reverse with
    | error e =>
        refine ⟨e, ?_⟩
        rw [List.reverse_reverse]
        exact execute_call_refused hops hargs
    | ok args =>
        obtain ⟨parts, hparts, -⟩ := (collectArgs_eq_ok_iff hlen).mp hargs
        exact absurd hparts (hnone parts)
  · -- one tuple and one dictionary deliver the same, as no name comes twice
    intro parts hparts
    constructor
    · have hmerge : Dict.merge [] parts.args.keyword = parts.args.keyword :=
        Dict.merge_eq_append (d := []) hparts.distinct
      rw [entriesOf_layOut, hmerge]
    · rw [hdelivers parts hparts]
      exact execute_call_collected rfl
        ((collectArgs_eq_ok_iff rfl).mpr ⟨_, describes_spread hparts.distinct, rfl⟩)

/-- Each group of a call contributes its arguments in its turn. -/
example : collectArgs .nil ⟨1, 1, true, true, false⟩
    [.int 1, .str "a", .int 2, .tuple [.int 3], .dict [("b", .int 4)]]
      = .ok ⟨[.int 1, .int 3], [("a", .int 2), ("b", .int 4)]⟩ := rfl

end Machine

end CallDecoration
