/-
  CallDecoration.Proofs.Function.Binding
  ──────────────────────────────────────
  **Binding follows the calling convention.**  The local slots with which a
  call begins are four stretches, one behind the other (`exists_stretches`).
  From what each stretch holds it follows that no argument is lost and none is
  kept twice (`Binds.keepsOnce`).  For parameters under different names and no
  more defaults than positional parameters, binding does exactly what the
  convention says (`bindArguments_follows`).
-/
import CallDecoration.Proofs.Function.Convention

namespace CallDecoration

namespace Function

variable {f : Function Value} {args : CallArgs}

/-! ## §1. Local slots. -/

section Locals

variable {locals : Array Value}

theorem bindArguments_eq_ok :
    f.bindArguments args = .ok locals
      ↔ ∃ values, f.parameterValues args = .ok values
        ∧ locals = (values ++ List.replicate (f.body.localCount - values.length) Value.nil).toArray := by
  unfold bindArguments
  cases f.parameterValues args with
  | error problem => simp
  | ok values => simp [eq_comm]

theorem bindArguments_eq_error {e : RunError} :
    f.bindArguments args = .error e
      ↔ ∃ problem, f.parameterValues args = .error problem ∧ e = .badArguments f.name problem := by
  unfold bindArguments
  cases f.parameterValues args with
  | error problem => simp [eq_comm]
  | ok values => simp

/-- **The local slots in four stretches:** positional, keyword-only and
collecting parameters, and those behind the parameters. -/
theorem exists_stretches (hnames : f.signature.named.Nodup)
    (h : f.bindArguments args = .ok locals) :
    ∃ positional keywordOnly : List Value, ∃ further : Nat,
      positional.length = f.signature.positional.length
      ∧ (∀ (i : Nat) name, f.signature.positional[i]? = some name →
        positional[i]? = (args.positional[i]? <|> Dict.get? args.keyword name
          <|> f.ownDefaults[i]?.join : Option Value))
      ∧ keywordOnly.length = f.signature.keywordOnly.length
      ∧ (∀ (i : Nat) name, f.signature.keywordOnly[i]? = some name →
        keywordOnly[i]? = (Dict.get? args.keyword name <|> Dict.get? f.kwDefaults name : Option Value))
      ∧ further = f.body.localCount - f.signature.slots
      ∧ locals = (positional ++ (keywordOnly ++ (f.collectedValues args
        ++ List.replicate further Value.nil))).toArray := by
  obtain ⟨values, hvalues, rfl⟩ := bindArguments_eq_ok.mp h
  rw [parameterValues_length hvalues]
  obtain ⟨-, positional, keywordOnly, hpositional, hkeywordOnly, rfl⟩ :=
    parameterValues_eq_ok.mp hvalues
  rw [positionalValues_eq] at hpositional
  rw [keywordOnlyValues_eq] at hkeywordOnly
  obtain ⟨hposLength, hpos⟩ := valuesFrom_eq_ok.mp hpositional
  obtain ⟨hkwLength, hkw⟩ := valuesFrom_eq_ok.mp hkeywordOnly
  refine ⟨positional, keywordOnly, _, hposLength, ?_, hkwLength, ?_, rfl, ?_⟩
  · intro i name hname
    rw [← hpos i name hname, Nat.zero_add, positionalValue?_eq hnames hname]
  · intro i name hname
    rw [← hkw i name hname, keywordOnlyValue?_eq hnames hname]
  · rw [List.append_assoc, List.append_assoc]

theorem collectedValues_varPositional (h : f.signature.varPositional.isSome) :
    (f.collectedValues args)[0]?
      = some (.tuple (args.positional.drop f.signature.positional.length)) := by
  unfold collectedValues
  rw [if_pos h]
  rfl

theorem collectedValues_varKeyword (h : f.signature.varKeyword.isSome) :
    (f.collectedValues args)[f.signature.varPositional.isSome.toNat]?
      = some (.dict (args.keyword.filter fun entry => decide (entry.1 ∉ f.signature.named))) := by
  have hkept : (fun entry : String × Value => (f.signature.keywordSlot? entry.1).isNone)
      = fun entry => decide (entry.1 ∉ f.signature.named) := by
    funext entry
    rw [Bool.eq_iff_iff, Option.isNone_iff_eq_none, decide_eq_true_iff]
    exact Signature.keywordSlot?_eq_none
  unfold collectedValues
  rw [if_pos h, hkept]
  cases f.signature.varPositional <;> rfl

/-- **Each slot holds what the convention says.** -/
theorem binds_of_ok (hnames : f.signature.named.Nodup) (h : f.bindArguments args = .ok locals) :
    f.Binds args locals := by
  obtain ⟨positional, keywordOnly, further, hposLength, hpos, hkwLength, hkw, hfurther, rfl⟩ :=
    exists_stretches hnames h
  have hcollected : (f.collectedValues args).length
      = f.signature.varPositional.isSome.toNat + f.signature.varKeyword.isSome.toNat :=
    collectedValues_length
  have hnamed : f.signature.named.length = positional.length + keywordOnly.length := by
    unfold Signature.named
    rw [List.length_append, hposLength, hkwLength]
  have hslots : f.signature.slots
      = positional.length + (keywordOnly.length + (f.collectedValues args).length) := by
    unfold Signature.slots
    omega
  -- behind the named parameters stand the collecting ones
  have hbehind : ∀ i v, (f.collectedValues args)[i]? = some v →
      (positional ++ (keywordOnly ++ (f.collectedValues args
        ++ List.replicate further Value.nil))).toArray[f.signature.named.length + i]? = some v := by
    intro i v hv
    have hi : i < (f.collectedValues args).length := (List.getElem?_eq_some_iff.mp hv).1
    rw [List.getElem?_toArray, hnamed, Nat.add_assoc,
      List.getElem?_append_right (Nat.le_add_right _ _), Nat.add_sub_cancel_left,
      List.getElem?_append_right (Nat.le_add_right _ _), Nat.add_sub_cancel_left,
      List.getElem?_append_left hi, hv]
  refine
    { size := ?_
      positional := ?_
      keywordOnly := ?_
      varPositional := fun hvar => hbehind 0 _ (collectedValues_varPositional hvar)
      varKeyword := fun hvar => hbehind _ _ (collectedValues_varKeyword hvar)
      further := ?_ }
  · simp only [List.size_toArray, List.length_append, List.length_replicate]
    omega
  · intro i name hname
    have hi : i < positional.length := hposLength ▸ (List.getElem?_eq_some_iff.mp hname).1
    rw [List.getElem?_toArray, List.getElem?_append_left hi]
    exact hpos i name hname
  · intro i name hname
    have hi : i < keywordOnly.length := hkwLength ▸ (List.getElem?_eq_some_iff.mp hname).1
    rw [List.getElem?_toArray, ← hposLength, List.getElem?_append_right (Nat.le_add_right _ _),
      Nat.add_sub_cancel_left, List.getElem?_append_left hi]
    exact hkw i name hname
  · intro i hi hlt
    simp only [List.size_toArray, List.length_append, List.length_replicate] at hlt
    rw [List.getElem?_toArray, List.getElem?_append_right (by omega),
      List.getElem?_append_right (by omega), List.getElem?_append_right (by omega),
      List.getElem?_replicate_of_lt (by omega)]

/-! ## §2. Every argument is kept once. -/

theorem argumentFor?_parameter {slot : Nat} {name : String}
    (hslot : f.signature.named[slot]? = some name) :
    f.argumentFor? args (.parameter slot)
      = if slot < f.signature.positional.length ∧ slot < args.positional.length then
          some (.positional slot)
        else if name ∈ Dict.keys args.keyword then some (.keyword name)
        else none := by
  simp only [argumentFor?, hslot]

/-- Where a positional argument belongs, by the parameters alone. -/
theorem eq_of_argumentFor?_positional {q : Place} {i : Nat}
    (h : f.argumentFor? args q = some (.positional i)) :
    (q = .parameter i ∧ i < f.signature.positional.length)
      ∨ (q = .surplus (i - f.signature.positional.length)
        ∧ f.signature.positional.length ≤ i) := by
  cases q with
  | parameter slot =>
      cases hname : f.signature.named[slot]? with
      | none =>
          simp only [argumentFor?, hname] at h
          cases h
      | some name =>
          rw [argumentFor?_parameter hname] at h
          split at h
          case isTrue hslot =>
            cases h
            exact Or.inl ⟨rfl, hslot.1⟩
          case isFalse =>
            split at h <;> cases h
  | surplus index =>
      simp only [argumentFor?] at h
      split at h
      case isTrue =>
        cases h
        refine Or.inr ⟨?_, Nat.le_add_right _ _⟩
        rw [Nat.add_sub_cancel_left]
      case isFalse => cases h
  | entry name =>
      simp only [argumentFor?] at h
      split at h <;> cases h

/-- Where a keyword belongs, by the parameters alone. -/
theorem eq_of_argumentFor?_keyword {q : Place} {name : String}
    (h : f.argumentFor? args q = some (.keyword name)) :
    (∃ slot, q = .parameter slot ∧ f.signature.named[slot]? = some name)
      ∨ (q = .entry name ∧ name ∉ f.signature.named) := by
  cases q with
  | parameter slot =>
      cases hname : f.signature.named[slot]? with
      | none =>
          simp only [argumentFor?, hname] at h
          cases h
      | some other =>
          rw [argumentFor?_parameter hname] at h
          split at h
          case isTrue => cases h
          case isFalse =>
            split at h
            case isTrue =>
              cases h
              exact Or.inl ⟨slot, rfl, hname⟩
            case isFalse => cases h
  | surplus index =>
      simp only [argumentFor?] at h
      split at h <;> cases h
  | entry other =>
      simp only [argumentFor?] at h
      split at h
      case isTrue hentry =>
        cases h
        exact Or.inr ⟨rfl, hentry.2⟩
      case isFalse => cases h

/-- A positional argument is kept by the parameter at its place, or is surplus and
collected. -/
theorem Binds.keepsOnce_positional (haccepts : f.Accepts args) (h : f.Binds args locals) {i : Nat}
    {v : Value} (hgiven : args.positional[i]? = some v) :
    ∃ p, f.argumentFor? args p = some (.positional i) ∧ f.valueAt? locals p = some v
      ∧ ∀ q, f.argumentFor? args q = some (.positional i) → q = p := by
  have hi : i < args.positional.length := (List.getElem?_eq_some_iff.mp hgiven).1
  by_cases hpos : i < f.signature.positional.length
  · have hname := List.getElem?_eq_getElem hpos
    refine ⟨.parameter i, ?_, ?_, fun q hq => ?_⟩
    · rw [argumentFor?_parameter (by rw [Signature.named_positional hpos, hname]),
        if_pos ⟨hpos, hi⟩]
    · show locals[i]? = some v
      rw [h.positional i _ hname, hgiven]
      rfl
    · obtain ⟨rfl, -⟩ | ⟨-, hle⟩ := eq_of_argumentFor?_positional hq
      · rfl
      · omega
  · -- it is surplus, and there is a parameter that collects it
    have hvar : f.signature.varPositional.isSome := by
      rcases haccepts.surplus with hfits | hvar
      · omega
      · exact hvar
    have hback : f.signature.positional.length + (i - f.signature.positional.length) = i := by
      omega
    refine ⟨.surplus (i - f.signature.positional.length), ?_, ?_, fun q hq => ?_⟩
    · simp only [argumentFor?, hback]
      rw [if_pos hi]
    · simp only [valueAt?, h.varPositional hvar]
      rw [List.getElem?_drop, hback, hgiven]
    · obtain ⟨-, hlt⟩ | ⟨rfl, -⟩ := eq_of_argumentFor?_positional hq
      · omega
      · rfl

/-- A keyword argument is kept by the parameter of its name, or names none and is
collected. -/
theorem Binds.keepsOnce_keyword (hnames : f.signature.named.Nodup) (haccepts : f.Accepts args)
    (h : f.Binds args locals) {name : String} {v : Value}
    (hgiven : Dict.get? args.keyword name = some v) :
    ∃ p, f.argumentFor? args p = some (.keyword name) ∧ f.valueAt? locals p = some v
      ∧ ∀ q, f.argumentFor? args q = some (.keyword name) → q = p := by
  have hkey : name ∈ Dict.keys args.keyword := Dict.isSome_get?_iff.mp (by rw [hgiven]; rfl)
  by_cases hnamed : name ∈ f.signature.named
  · -- it is accepted, so the parameter of its name is not filled by position
    obtain ⟨slot, hslot⟩ := List.mem_iff_getElem?.mp hnamed
    have hunfilled : ¬ (slot < f.signature.positional.length ∧ slot < args.positional.length) :=
      fun hfilled => haccepts.filledOnce name hkey ((mem_filled_iff hnames hslot).mpr hfilled)
    refine ⟨.parameter slot, ?_, ?_, fun q hq => ?_⟩
    · rw [argumentFor?_parameter hslot, if_neg hunfilled, if_pos hkey]
    · show locals[slot]? = some v
      by_cases hpos : slot < f.signature.positional.length
      · rw [Signature.named_positional hpos] at hslot
        rw [h.positional slot name hslot, List.getElem?_eq_none (by omega), hgiven]
        rfl
      · obtain ⟨i, rfl⟩ := Nat.exists_eq_add_of_le (Nat.le_of_not_lt hpos)
        rw [Signature.named_keywordOnly] at hslot
        rw [h.keywordOnly i name hslot, hgiven]
        rfl
    · obtain ⟨other, rfl, hother⟩ | ⟨-, hunknown⟩ := eq_of_argumentFor?_keyword hq
      · have hlt : slot < f.signature.named.length := (List.getElem?_eq_some_iff.mp hslot).1
        rw [(List.getElem?_inj hlt hnames).mp (hslot.trans hother.symm)]
      · exact absurd hnamed hunknown
  · -- it names no parameter, and there is a parameter that collects it
    have hvar : f.signature.varKeyword.isSome := (haccepts.named name hkey).resolve_left hnamed
    refine ⟨.entry name, ?_, ?_, fun q hq => ?_⟩
    · simp only [argumentFor?]
      rw [if_pos ⟨hkey, hnamed⟩]
    · simp only [valueAt?, h.varKeyword hvar]
      rw [Dict.get?_filter args.keyword (fun key => decide (key ∉ f.signature.named))
        (decide_eq_true hnamed), hgiven]
    · obtain ⟨slot, rfl, hslot⟩ | ⟨rfl, -⟩ := eq_of_argumentFor?_keyword hq
      · exact absurd (List.mem_of_getElem? hslot) hnamed
      · rfl

/-- **No argument is lost and none is kept twice,** where the slots hold what
the convention says. -/
theorem Binds.keepsOnce (hnames : f.signature.named.Nodup) (haccepts : f.Accepts args)
    (h : f.Binds args locals) : f.KeepsOnce args locals := by
  intro a v hv
  cases a with
  | positional i => exact h.keepsOnce_positional haccepts hv
  | keyword name => exact h.keepsOnce_keyword hnames haccepts hv

end Locals

/-! ## §3. The convention as a whole. -/

/-- **Binding follows the calling convention,** whatever the call. -/
theorem bindArguments_follows (hnames : f.signature.named.Nodup)
    (hdefaults : f.defaults.length ≤ f.signature.positional.length) :
    f.FollowsConvention args := by
  have hsucceeds : (∃ locals, f.bindArguments args = .ok locals) ↔ f.Accepts args := by
    rw [← exists_parameterValues hnames hdefaults]
    constructor
    · intro h
      obtain ⟨locals, hlocals⟩ := h
      obtain ⟨values, hvalues, -⟩ := bindArguments_eq_ok.mp hlocals
      exact ⟨values, hvalues⟩
    · intro h
      obtain ⟨values, hvalues⟩ := h
      exact ⟨_, bindArguments_eq_ok.mpr ⟨values, hvalues, rfl⟩⟩
  refine
    { succeeds := hsucceeds
      binds := fun locals h => binds_of_ok hnames h
      keepsOnce := fun locals h =>
        (binds_of_ok hnames h).keepsOnce hnames (hsucceeds.mp ⟨locals, h⟩)
      fails := fun e => ?_ }
  rw [bindArguments_eq_error]
  simp only [parameterValues_eq_error_iff hnames hdefaults]

end Function

/-- A function with parameters of each sort and defaults for some of them. -/
def mixedParameters : Function Value where
  id := ⟨1⟩
  name := "f"
  body := ⟨"f", #[], #[], #[], ⟨["a", "b", "c"], ["k", "l"], some "rest", some "more"⟩, 9⟩
  scope := ⟨⟨0⟩, "m"⟩
  defaults := [.int 3]
  kwDefaults := [("l", .int 9)]
  captures := #[]

/-- One positional argument, and three keywords of which one names no
parameter. -/
def mixedCall : CallArgs :=
  ⟨[.int 1], [("b", .int 2), ("x", .int 7), ("k", .int 8)]⟩

/-- A call in which parameters are given by position and by keyword and are
left to their defaults. -/
theorem bindArguments_follows_mixedCall :
    mixedParameters.signature.named.Nodup
      ∧ mixedParameters.defaults.length ≤ mixedParameters.signature.positional.length
      ∧ mixedParameters.FollowsConvention mixedCall
      ∧ mixedParameters.bindArguments mixedCall
        = .ok #[.int 1, .int 2, .int 3, .int 8, .int 9, .tuple [], .dict [("x", .int 7)],
            .nil, .nil] := by
  have hnames : mixedParameters.signature.named.Nodup := by decide
  have hdefaults : mixedParameters.defaults.length
      ≤ mixedParameters.signature.positional.length := by decide
  exact ⟨hnames, hdefaults, Function.bindArguments_follows hnames hdefaults, rfl⟩

end CallDecoration
