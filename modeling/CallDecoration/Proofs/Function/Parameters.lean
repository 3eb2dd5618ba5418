/-
  CallDecoration.Proofs.Function.Parameters
  ──────────────────────────────────────
  **The values of parameters, one after the other.**  Positional and
  keyword-only parameters get their values by one scan (`valuesFrom`), which
  differs only in where a value is looked for and in the fault of a parameter
  without one.  What the scan gives is stated once (`valuesFrom_eq_ok`,
  `valuesFrom_eq_error`).  So bound parameters fill their slots
  (`parameterValues_length`), and functions that declare the same parameters
  bind alike (`bindArguments_congr`).
-/
import CallDecoration.Function.Binding
import CallDecoration.Proofs.Except

namespace CallDecoration.Function

variable {f g : Function Value} {args : CallArgs}

/-! ## §1. One scan for both sorts of parameters. -/

/-- The values of the parameters `names`, which begin at `slot`, as `value?`
has them; the first parameter without a value is a fault. -/
def valuesFrom (value? : Nat → String → Option Value) (missing : String → ArgumentProblem)
    (slot : Nat) : (names : List String) → Except ArgumentProblem (List Value)
  | [] => .ok []
  | name :: rest =>
      match value? slot name with
      | none => .error (missing name)
      | some value => (valuesFrom value? missing (slot + 1) rest).map (value :: ·)

section Scan

variable {value? : Nat → String → Option Value} {missing : String → ArgumentProblem}

/-- **A scan that succeeds** has found the value of each parameter. -/
theorem valuesFrom_eq_ok {slot : Nat} {names : List String} {values : List Value} :
    valuesFrom value? missing slot names = .ok values
      ↔ values.length = names.length
        ∧ ∀ i name, names[i]? = some name → value? (slot + i) name = values[i]? := by
  induction names generalizing slot values with
  | nil =>
      constructor
      · intro h
        cases h
        exact ⟨rfl, fun i name hname => by simp at hname⟩
      · rintro ⟨hlength, -⟩
        rw [List.length_eq_zero_iff.mp hlength]
        rfl
  | cons name rest ih =>
      rw [valuesFrom]
      cases hvalue : value? slot name with
      | none =>
          constructor
          · intro h
            cases h
          · rintro ⟨hlength, hvalues⟩
            have hfirst : none = values[0]? := hvalue ▸ hvalues 0 name rfl
            rw [List.length_cons] at hlength
            rw [eq_comm, List.getElem?_eq_none_iff] at hfirst
            omega
      | some value =>
          dsimp only
          -- the value at an index of the rest is that of the next slot and name
          constructor
          · intro h
            obtain ⟨later, hlater, rfl⟩ := map_eq_ok_iff.mp h
            obtain ⟨hlength, hvalues⟩ := ih.mp hlater
            refine ⟨by rw [List.length_cons, List.length_cons, hlength], fun i other hother => ?_⟩
            cases i with
            | zero =>
                cases hother
                exact hvalue
            | succ i =>
                rw [← Nat.add_assoc, Nat.add_right_comm]
                exact hvalues i other hother
          · rintro ⟨hlength, hvalues⟩
            cases values with
            | nil => cases hlength
            | cons first later =>
                have hfirst : some value = some first := hvalue ▸ hvalues 0 name rfl
                cases hfirst
                refine map_eq_ok_iff.mpr ⟨later, ih.mpr ⟨Nat.succ.inj hlength, ?_⟩, rfl⟩
                intro i other hother
                rw [Nat.add_right_comm, Nat.add_assoc]
                exact hvalues (i + 1) other hother

/-- **A scan that fails** reports the first parameter without a value. -/
theorem valuesFrom_eq_error {slot : Nat} {names : List String} {problem : ArgumentProblem} :
    valuesFrom value? missing slot names = .error problem
      ↔ ∃ before name after, names = before ++ name :: after
        ∧ (∀ i other, before[i]? = some other → (value? (slot + i) other).isSome)
        ∧ value? (slot + before.length) name = none ∧ problem = missing name := by
  induction names generalizing slot with
  | nil =>
      constructor
      · intro h
        cases h
      · rintro ⟨before, name, after, hnames, -⟩
        simp at hnames
  | cons first rest ih =>
      rw [valuesFrom]
      cases hvalue : value? slot first with
      | none =>
          constructor
          · intro h
            cases h
            exact ⟨[], first, rest, rfl, fun i other hother => by simp at hother, hvalue, rfl⟩
          · rintro ⟨before, name, after, hnames, hbefore, -, rfl⟩
            cases before with
            | nil =>
                cases hnames
                rfl
            | cons first' before =>
                cases hnames
                have hsome := hbefore 0 first rfl
                rw [Nat.add_zero, hvalue] at hsome
                cases hsome
      | some value =>
          dsimp only
          -- the fault is one of the later parameters
          rw [map_eq_error_iff, ih]
          constructor
          · rintro ⟨before, name, after, rfl, hbefore, hmissing, rfl⟩
            refine ⟨first :: before, name, after, rfl, fun i other hother => ?_, ?_, rfl⟩
            · cases i with
              | zero =>
                  cases hother
                  rw [Nat.add_zero, hvalue]
                  rfl
              | succ i =>
                  rw [← Nat.add_assoc, Nat.add_right_comm]
                  exact hbefore i other hother
            · rw [List.length_cons, ← Nat.add_assoc, Nat.add_right_comm]
              exact hmissing
          · rintro ⟨before, name, after, hnames, hbefore, hmissing, rfl⟩
            cases before with
            | nil =>
                cases hnames
                rw [List.length_nil, Nat.add_zero, hvalue] at hmissing
                cases hmissing
            | cons first' before =>
                cases hnames
                refine ⟨before, name, after, rfl, fun i other hother => ?_, ?_, rfl⟩
                · rw [Nat.add_right_comm, Nat.add_assoc]
                  exact hbefore (i + 1) other hother
                · rw [List.length_cons, ← Nat.add_assoc, Nat.add_right_comm] at hmissing
                  exact hmissing

/-- A scan succeeds if every parameter has a value. -/
theorem exists_valuesFrom_ok {slot : Nat} {names : List String} :
    (∃ values, valuesFrom value? missing slot names = .ok values)
      ↔ ∀ i name, names[i]? = some name → (value? (slot + i) name).isSome := by
  constructor
  · rintro ⟨values, hvalues⟩ i name hname
    obtain ⟨hlength, hvalues⟩ := valuesFrom_eq_ok.mp hvalues
    have hi : i < names.length := (List.getElem?_eq_some_iff.mp hname).1
    rw [hvalues i name hname, isSome_getElem?]
    exact hlength ▸ hi
  · intro hall
    cases hscan : valuesFrom value? missing slot names with
    | ok values => exact ⟨values, rfl⟩
    | error problem =>
        obtain ⟨before, name, after, rfl, -, hmissing, -⟩ := valuesFrom_eq_error.mp hscan
        have hsome := hall before.length name (by simp)
        rw [hmissing] at hsome
        cases hsome

/-- What a scan gives is the value of some parameter. -/
theorem of_mem_valuesFrom {slot : Nat} {names : List String} {values : List Value} {v : Value}
    (h : valuesFrom value? missing slot names = .ok values) (hv : v ∈ values) :
    ∃ slot name, value? slot name = some v := by
  obtain ⟨hlength, hvalues⟩ := valuesFrom_eq_ok.mp h
  obtain ⟨i, hi, rfl⟩ := List.mem_iff_getElem.mp hv
  have hname : names[i]? = some names[i] := List.getElem?_eq_getElem (hlength ▸ hi)
  exact ⟨slot + i, names[i], (hvalues i _ hname).trans (List.getElem?_eq_getElem hi)⟩

end Scan

/-! ## §2. Where each sort looks for its values. -/

/-- The value of the positional parameter `name` in `slot`. -/
def positionalValue? (f : Function Value) (args : CallArgs) (slot : Nat) (name : String) :
    Option Value :=
  args.positional[slot]? <|> f.keywordFor? args slot name <|> f.defaultFor? slot

/-- The value of the keyword-only parameter `name` in `slot`. -/
def keywordOnlyValue? (f : Function Value) (args : CallArgs) (slot : Nat) (name : String) :
    Option Value :=
  f.keywordFor? args slot name <|> Dict.get? f.kwDefaults name

theorem positionalValues_eq (slot : Nat) (names : List String) :
    f.positionalValues args slot names
      = valuesFrom (f.positionalValue? args) .missingPositional slot names := by
  induction names generalizing slot with
  | nil => rfl
  | cons name rest ih =>
      rw [positionalValues, valuesFrom, ih]
      rfl

theorem keywordOnlyValues_eq (slot : Nat) (names : List String) :
    f.keywordOnlyValues args slot names
      = valuesFrom (f.keywordOnlyValue? args) .missingKeywordOnly slot names := by
  induction names generalizing slot with
  | nil => rfl
  | cons name rest ih =>
      rw [keywordOnlyValues, valuesFrom, ih]
      rfl

/-! ## §3. All parameters. -/

theorem collectedValues_length :
    (f.collectedValues args).length
      = f.signature.varPositional.isSome.toNat + f.signature.varKeyword.isSome.toNat := by
  unfold collectedValues
  cases f.signature.varPositional <;> cases f.signature.varKeyword <;> rfl

/-- **Bound parameters are those of each sort, in slot order.** -/
theorem parameterValues_eq_ok {values : List Value} :
    f.parameterValues args = .ok values
      ↔ f.callProblem? args = none
        ∧ ∃ positional keywordOnly,
          f.positionalValues args 0 f.signature.positional = .ok positional
          ∧ f.keywordOnlyValues args f.signature.positional.length f.signature.keywordOnly
            = .ok keywordOnly
          ∧ values = positional ++ keywordOnly ++ f.collectedValues args := by
  unfold parameterValues
  cases f.callProblem? args with
  | some problem => simp
  | none =>
      cases f.positionalValues args 0 f.signature.positional with
      | error problem => simp [bind, Except.bind]
      | ok positional =>
          cases f.keywordOnlyValues args f.signature.positional.length f.signature.keywordOnly with
          | error problem => simp [bind, Except.bind]
          | ok keywordOnly => simp [bind, Except.bind, pure, Except.pure, eq_comm]

/-- **The first fault of a call** is one of the call itself, then one of the
positional parameters, then one of the keyword-only ones. -/
theorem parameterValues_eq_error {problem : ArgumentProblem} :
    f.parameterValues args = .error problem
      ↔ f.callProblem? args = some problem
        ∨ (f.callProblem? args = none
          ∧ f.positionalValues args 0 f.signature.positional = .error problem)
        ∨ (f.callProblem? args = none
          ∧ (∃ positional, f.positionalValues args 0 f.signature.positional = .ok positional)
          ∧ f.keywordOnlyValues args f.signature.positional.length f.signature.keywordOnly
            = .error problem) := by
  unfold parameterValues
  cases f.callProblem? args with
  | some problem => simp
  | none =>
      cases f.positionalValues args 0 f.signature.positional with
      | error problem => simp [bind, Except.bind]
      | ok positional =>
          cases f.keywordOnlyValues args f.signature.positional.length f.signature.keywordOnly with
          | error problem => simp [bind, Except.bind]
          | ok keywordOnly => simp [bind, Except.bind, pure, Except.pure]

/-- **Bound parameters fill their slots,** one value for each. -/
theorem parameterValues_length {values : List Value} (h : f.parameterValues args = .ok values) :
    values.length = f.signature.slots := by
  obtain ⟨-, positional, keywordOnly, hpositional, hkeywordOnly, rfl⟩ := parameterValues_eq_ok.mp h
  rw [positionalValues_eq] at hpositional
  rw [keywordOnlyValues_eq] at hkeywordOnly
  have hpos : positional.length = f.signature.positional.length := (valuesFrom_eq_ok.mp hpositional).1
  have hkw : keywordOnly.length = f.signature.keywordOnly.length :=
    (valuesFrom_eq_ok.mp hkeywordOnly).1
  unfold Signature.slots
  rw [List.length_append, List.length_append, hpos, hkw, collectedValues_length]
  omega

/-! ## §4. Functions with the same parameters. -/

theorem parameterValues_congr (hsig : g.signature = f.signature) (hdefaults : g.defaults = f.defaults)
    (hkwDefaults : g.kwDefaults = f.kwDefaults) :
    g.parameterValues args = f.parameterValues args := by
  have hkeyword : g.keywordFor? args = f.keywordFor? args := by
    unfold keywordFor?
    rw [hsig]
  have hpositional : g.positionalValue? args = f.positionalValue? args := by
    unfold positionalValue? defaultFor?
    rw [hkeyword, hsig, hdefaults]
  have hkeywordOnly : g.keywordOnlyValue? args = f.keywordOnlyValue? args := by
    unfold keywordOnlyValue?
    rw [hkeyword, hkwDefaults]
  have hproblem : g.callProblem? args = f.callProblem? args := by
    unfold callProblem? keywordProblem?
    rw [hsig]
  have hcollected : g.collectedValues args = f.collectedValues args := by
    unfold collectedValues
    rw [hsig]
  unfold parameterValues
  rw [hproblem, hsig, positionalValues_eq, positionalValues_eq, keywordOnlyValues_eq,
    keywordOnlyValues_eq, hpositional, hkeywordOnly, hcollected]

/-- **Functions that declare the same parameters bind alike,** if the one body
has as many local slots as the other or has grown to hold its parameters. -/
theorem bindArguments_congr (hname : g.name = f.name) (hsig : g.signature = f.signature)
    (hdefaults : g.defaults = f.defaults) (hkwDefaults : g.kwDefaults = f.kwDefaults)
    (hcount : g.body.localCount = max f.body.localCount f.signature.slots) :
    g.bindArguments args = f.bindArguments args := by
  unfold bindArguments
  rw [parameterValues_congr hsig hdefaults hkwDefaults, hname, hcount]
  cases hvalues : f.parameterValues args with
  | error problem => rfl
  | ok values =>
      -- the slots that are added are those of the parameters, which are filled
      have hlength := parameterValues_length hvalues
      have hrest : max f.body.localCount f.signature.slots - values.length
          = f.body.localCount - values.length := by omega
      dsimp only
      rw [hrest]

end CallDecoration.Function
