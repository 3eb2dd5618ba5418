/-
  CallDecoration.Proofs.Function.Convention
  ──────────────────────────────────────
  **The calling convention.**  When a call fits the parameters of a function
  (`Accepts`), where each of its arguments ends up (`Binds`, `KeepsOnce`), and
  what is reported of a call that does not fit (`FirstProblem`) are said
  without the binding, over names and positions alone.  Parameters get values
  exactly in the calls that are accepted (`exists_parameterValues`), and else
  the first problem is found (`parameterValues_eq_error_iff`).
-/
import CallDecoration.Proofs.Dict
import CallDecoration.Proofs.Function.Parameters

namespace CallDecoration

/-! ## §1. Parameters by name. -/

namespace Signature

variable {sig : Signature} {name : String} {slot : Nat}

/-- The parameters that can be given by keyword, in slot order. -/
def named (sig : Signature) : List String :=
  sig.positional ++ sig.keywordOnly

theorem keywordSlot?_eq_none : sig.keywordSlot? name = .none ↔ name ∉ sig.named := by
  unfold keywordSlot? named
  rw [List.findIdx?_eq_none_iff]
  constructor
  · intro h hmem
    exact absurd (h name hmem) (by simp)
  · intro h other hother
    rw [beq_eq_false_iff_ne]
    rintro rfl
    exact h hother

theorem named_of_keywordSlot? (h : sig.keywordSlot? name = some slot) :
    sig.named[slot]? = some name := by
  obtain ⟨hlt, hname, -⟩ := List.findIdx?_eq_some_iff_getElem.mp h
  rw [beq_iff_eq] at hname
  exact List.getElem?_eq_some_iff.mpr ⟨hlt, hname⟩

/-- Under different names, a parameter is the only one of its name. -/
theorem keywordSlot?_of_named (hnames : sig.named.Nodup) (h : sig.named[slot]? = some name) :
    sig.keywordSlot? name = some slot := by
  cases hslot : sig.keywordSlot? name with
  | none => exact absurd (List.mem_of_getElem? h) (keywordSlot?_eq_none.mp hslot)
  | some first =>
      have hlt : slot < sig.named.length := (List.getElem?_eq_some_iff.mp h).1
      have hsame : sig.named[slot]? = sig.named[first]? :=
        h.trans (named_of_keywordSlot? hslot).symm
      rw [(List.getElem?_inj hlt hnames).mp hsame]

theorem named_positional (h : slot < sig.positional.length) :
    sig.named[slot]? = sig.positional[slot]? :=
  List.getElem?_append_left h

theorem named_keywordOnly (i : Nat) :
    sig.named[sig.positional.length + i]? = sig.keywordOnly[i]? := by
  unfold named
  rw [List.getElem?_append_right (Nat.le_add_right _ _), Nat.add_sub_cancel_left]

end Signature

namespace Function

variable (f : Function Value) (args : CallArgs)

/-! ## §2. The convention: which calls fit. -/

/-- The names of the parameters that are filled by position. -/
def filled : List String :=
  f.signature.positional.take args.positional.length

/-- A positional parameter is given by position or by keyword, or is one of the
trailing ones that the defaults cover. -/
def SuppliesPositional (index : Nat) (name : String) : Prop :=
  index < args.positional.length ∨ name ∈ Dict.keys args.keyword
    ∨ f.signature.positional.length ≤ index + f.defaults.length

/-- A keyword-only parameter is given or has a default. -/
def SuppliesKeywordOnly (name : String) : Prop :=
  name ∈ Dict.keys args.keyword ∨ name ∈ Dict.keys f.kwDefaults

/-- There is a parameter for every positional argument. -/
def HasNoSurplus : Prop :=
  args.positional.length ≤ f.signature.positional.length ∨ f.signature.varPositional.isSome

/-- What is wrong with a keyword of the call. -/
inductive KeywordProblem (name : String) : ArgumentProblem → Prop where
  /-- It names a parameter that is filled by position. -/
  | multiple (h : name ∈ f.filled args) : KeywordProblem name (.multipleValues name)
  /-- It names no parameter, and nothing collects keywords. -/
  | unexpected (hname : name ∉ f.signature.named) (hcollects : f.signature.varKeyword = none) :
      KeywordProblem name (.unexpectedKeyword name)

/-- **The calls that a function accepts.** -/
structure Accepts : Prop where
  surplus : f.HasNoSurplus args
  filledOnce : ∀ name ∈ Dict.keys args.keyword, name ∉ f.filled args
  named : ∀ name ∈ Dict.keys args.keyword,
    name ∈ f.signature.named ∨ f.signature.varKeyword.isSome
  positional : ∀ (i : Nat) name, f.signature.positional[i]? = some name → f.SuppliesPositional args i name
  keywordOnly : ∀ name ∈ f.signature.keywordOnly, f.SuppliesKeywordOnly args name

/-! ## §3. The convention: where arguments end up. -/

/-- The own default of each positional parameter, if it has one: the defaults
belong to the trailing ones. -/
def ownDefaults : List (Option Value) :=
  List.replicate (f.signature.positional.length - f.defaults.length) none ++ f.defaults.map some

/-- An argument of a call, by its position or its name. -/
inductive Argument where
  | positional (index : Nat)
  | keyword (name : String)

/-- The value of an argument, if the call has it. -/
def argument? : Argument → Option Value
  | .positional index => args.positional[index]?
  | .keyword name => Dict.get? args.keyword name

/-- A place where a frame can keep an argument. -/
inductive Place where
  /-- The slot of a parameter. -/
  | parameter (slot : Nat)
  /-- An item of the tuple of surplus positional arguments. -/
  | surplus (index : Nat)
  /-- An entry of the dictionary of keywords that name no parameter. -/
  | entry (name : String)

/-- What the local slots of a frame have at a place. -/
def valueAt? (locals : Array Value) : Place → Option Value
  | .parameter slot => locals[slot]?
  | .surplus index =>
      match locals[f.signature.named.length]? with
      | some (.tuple items) => items[index]?
      | _ => none
  | .entry name =>
      match locals[f.signature.named.length + f.signature.varPositional.isSome.toNat]? with
      | some (.dict entries) => Dict.get? entries name
      | _ => none

/-- **The argument that belongs at a place:** in the slot of a parameter the
positional one, else the keyword; with the collecting parameters those that
belong in no slot. -/
def argumentFor? : Place → Option Argument
  | .parameter slot =>
      match f.signature.named[slot]? with
      | none => none
      | some name =>
          if slot < f.signature.positional.length ∧ slot < args.positional.length then
            some (.positional slot)
          else if name ∈ Dict.keys args.keyword then some (.keyword name)
          else none
  | .surplus index =>
      if f.signature.positional.length + index < args.positional.length then
        some (.positional (f.signature.positional.length + index))
      else none
  | .entry name =>
      if name ∈ Dict.keys args.keyword ∧ name ∉ f.signature.named then some (.keyword name)
      else none

/-- **The local slots with which a call begins.** -/
structure Binds (locals : Array Value) : Prop where
  size : locals.size = max f.body.localCount f.signature.slots
  /-- A positional parameter holds its positional value, else its keyword value,
  else its own default. -/
  positional : ∀ (i : Nat) name, f.signature.positional[i]? = some name →
    locals[i]? = (args.positional[i]? <|> Dict.get? args.keyword name
      <|> f.ownDefaults[i]?.join : Option Value)
  /-- A keyword-only parameter holds its keyword value, else its own default. -/
  keywordOnly : ∀ (i : Nat) name, f.signature.keywordOnly[i]? = some name →
    locals[f.signature.positional.length + i]?
      = (Dict.get? args.keyword name <|> Dict.get? f.kwDefaults name : Option Value)
  /-- The surplus positional arguments are collected in order. -/
  varPositional : f.signature.varPositional.isSome →
    locals[f.signature.named.length]?
      = some (.tuple (args.positional.drop f.signature.positional.length))
  /-- The keywords that name no parameter are collected in the order of the
  call. -/
  varKeyword : f.signature.varKeyword.isSome →
    locals[f.signature.named.length + f.signature.varPositional.isSome.toNat]?
      = some (.dict (args.keyword.filter fun entry => decide (entry.1 ∉ f.signature.named)))
  /-- The slots behind the parameters are nil. -/
  further : ∀ i, f.signature.slots ≤ i → i < locals.size → locals[i]? = some .nil

/-- **Every argument is kept at exactly one place.** -/
def KeepsOnce (locals : Array Value) : Prop :=
  ∀ a v, argument? args a = some v →
    ∃ p, f.argumentFor? args p = some a ∧ f.valueAt? locals p = some v
      ∧ ∀ q, f.argumentFor? args q = some a → q = p

/-! ## §4. The convention: what is reported. -/

/-- `name` is the first of the names that lacks something; names before it are
told by their position and name. -/
def FirstWithout (has : Nat → String → Prop) (names : List String) (name : String) : Prop :=
  ∃ before after, names = before ++ name :: after
    ∧ (∀ (i : Nat) other, before[i]? = some other → has i other) ∧ ¬ has before.length name

/-- **The first fault of a call:** surplus positional arguments, then keywords in
the order of the call, then positional parameters without a value, then
keyword-only ones, each sort in order. -/
inductive FirstProblem : ArgumentProblem → Prop where
  | surplus (h : ¬ f.HasNoSurplus args) :
      FirstProblem (.tooManyPositional f.signature.positional.length args.positional.length)
  | keyword {name : String} {problem : ArgumentProblem} (before after : List String)
      (hsurplus : f.HasNoSurplus args)
      (hkeys : Dict.keys args.keyword = before ++ name :: after)
      (hbefore : ∀ other ∈ before, ∀ problem, ¬ f.KeywordProblem args other problem)
      (hfault : f.KeywordProblem args name problem) : FirstProblem problem
  | missingPositional {name : String} (hsurplus : f.HasNoSurplus args)
      (hkeywords : ∀ other ∈ Dict.keys args.keyword, ∀ problem,
        ¬ f.KeywordProblem args other problem)
      (h : FirstWithout (f.SuppliesPositional args) f.signature.positional name) :
      FirstProblem (.missingPositional name)
  | missingKeywordOnly {name : String} (hsurplus : f.HasNoSurplus args)
      (hkeywords : ∀ other ∈ Dict.keys args.keyword, ∀ problem,
        ¬ f.KeywordProblem args other problem)
      (hpositional : ∀ (i : Nat) other, f.signature.positional[i]? = some other →
        f.SuppliesPositional args i other)
      (h : FirstWithout (fun _ other => f.SuppliesKeywordOnly args other) f.signature.keywordOnly
        name) :
      FirstProblem (.missingKeywordOnly name)

/-- **Binding follows the convention.** -/
structure FollowsConvention : Prop where
  succeeds : (∃ locals, f.bindArguments args = .ok locals) ↔ f.Accepts args
  binds : ∀ locals, f.bindArguments args = .ok locals → f.Binds args locals
  keepsOnce : ∀ locals, f.bindArguments args = .ok locals → f.KeepsOnce args locals
  fails : ∀ e, f.bindArguments args = .error e
    ↔ ∃ problem, f.FirstProblem args problem ∧ e = .badArguments f.name problem

variable {f args}

/-! ## §5. Faults of the call itself. -/

section Faults

variable {name : String} {problem : ArgumentProblem}

/-- A parameter is filled by position if its slot is below both numbers. -/
theorem mem_filled_iff (hnames : f.signature.named.Nodup) {slot : Nat}
    (hslot : f.signature.named[slot]? = some name) :
    name ∈ f.filled args
      ↔ slot < f.signature.positional.length ∧ slot < args.positional.length := by
  unfold filled
  rw [List.mem_take_iff_getElem]
  constructor
  · rintro ⟨i, hi, hname⟩
    have hlt : i < f.signature.positional.length := by omega
    have hpos : f.signature.named[i]? = some name := by
      rw [Signature.named_positional hlt, List.getElem?_eq_getElem hlt, hname]
    have hsame : some slot = some i :=
      (Signature.keywordSlot?_of_named hnames hslot).symm.trans
        (Signature.keywordSlot?_of_named hnames hpos)
    cases hsame
    omega
  · rintro ⟨hpos, hgiven⟩
    rw [Signature.named_positional hpos, List.getElem?_eq_getElem hpos] at hslot
    exact ⟨slot, by omega, Option.some.inj hslot⟩

theorem named_of_mem_filled (h : name ∈ f.filled args) : name ∈ f.signature.named :=
  List.mem_append_left _ (List.mem_of_mem_take h)

theorem keywordProblem?_eq_some (hnames : f.signature.named.Nodup) :
    f.keywordProblem? args name = some problem ↔ f.KeywordProblem args name problem := by
  unfold keywordProblem?
  cases hslot : f.signature.keywordSlot? name with
  | none =>
      have hname := Signature.keywordSlot?_eq_none.mp hslot
      dsimp only
      constructor
      · intro h
        split at h
        case isTrue => cases h
        case isFalse hcollects =>
          cases h
          exact .unexpected hname (by simpa using hcollects)
      · rintro (hfilled | ⟨-, hcollects⟩)
        · exact absurd (named_of_mem_filled hfilled) hname
        · rw [hcollects]
          rfl
  | some slot =>
      have hname := Signature.named_of_keywordSlot? hslot
      dsimp only
      constructor
      · intro h
        split at h
        case isTrue hfilled =>
          cases h
          exact .multiple ((mem_filled_iff hnames hname).mpr hfilled)
        case isFalse => cases h
      · rintro (hfilled | ⟨hunknown, -⟩)
        · rw [if_pos ((mem_filled_iff hnames hname).mp hfilled)]
        · exact absurd (List.mem_of_getElem? hname) hunknown

theorem keywordProblem?_eq_none (hnames : f.signature.named.Nodup) :
    f.keywordProblem? args name = none ↔ ∀ problem, ¬ f.KeywordProblem args name problem := by
  rw [Option.eq_none_iff_forall_ne_some]
  exact forall_congr' fun problem => not_congr (keywordProblem?_eq_some hnames)

theorem not_hasNoSurplus :
    ¬ f.HasNoSurplus args ↔ f.signature.positional.length < args.positional.length
      ∧ f.signature.varPositional = none := by
  unfold HasNoSurplus
  rw [not_or, Nat.not_le, Option.not_isSome_iff_eq_none]

theorem callProblem?_of_surplus (h : ¬ f.HasNoSurplus args) :
    f.callProblem? args
      = some (.tooManyPositional f.signature.positional.length args.positional.length) :=
  if_pos (not_hasNoSurplus.mp h)

theorem callProblem?_of_noSurplus (h : f.HasNoSurplus args) :
    f.callProblem? args = (Dict.keys args.keyword).findSome? (f.keywordProblem? args) := by
  unfold callProblem? Dict.keys
  rw [if_neg (fun hsurplus => not_hasNoSurplus.mpr hsurplus h), List.findSome?_map]
  rfl

theorem callProblem?_eq_none (hnames : f.signature.named.Nodup) :
    f.callProblem? args = none
      ↔ f.HasNoSurplus args
        ∧ ∀ other ∈ Dict.keys args.keyword, ∀ problem, ¬ f.KeywordProblem args other problem := by
  by_cases hsurplus : f.HasNoSurplus args
  · rw [callProblem?_of_noSurplus hsurplus, List.findSome?_eq_none_iff]
    simp only [keywordProblem?_eq_none hnames, hsurplus, true_and]
  · rw [callProblem?_of_surplus hsurplus]
    simp [hsurplus]

/-- The faults of the call itself are the first two sorts. -/
theorem callProblem?_eq_some (hnames : f.signature.named.Nodup) :
    f.callProblem? args = some problem
      ↔ (¬ f.HasNoSurplus args ∧ problem
          = .tooManyPositional f.signature.positional.length args.positional.length)
        ∨ (f.HasNoSurplus args ∧ ∃ before name after,
          Dict.keys args.keyword = before ++ name :: after
          ∧ (∀ other ∈ before, ∀ problem, ¬ f.KeywordProblem args other problem)
          ∧ f.KeywordProblem args name problem) := by
  by_cases hsurplus : f.HasNoSurplus args
  · rw [callProblem?_of_noSurplus hsurplus, List.findSome?_eq_some_iff]
    simp only [keywordProblem?_eq_none hnames, keywordProblem?_eq_some hnames, hsurplus, true_and,
      not_true_eq_false, false_and, false_or]
    constructor
    · rintro ⟨before, name, after, hkeys, hfault, hbefore⟩
      exact ⟨before, name, after, hkeys, hbefore, hfault⟩
    · rintro ⟨before, name, after, hkeys, hbefore, hfault⟩
      exact ⟨before, name, after, hkeys, hfault, hbefore⟩
  · rw [callProblem?_of_surplus hsurplus]
    simp [hsurplus, eq_comm]

end Faults

/-! ## §6. Values of parameters. -/

section Values

variable {name : String}

/-- Under different names, a parameter takes the keyword of its name. -/
theorem keywordFor?_eq (hnames : f.signature.named.Nodup) {slot : Nat}
    (hslot : f.signature.named[slot]? = some name) :
    f.keywordFor? args slot name = Dict.get? args.keyword name :=
  if_pos (Signature.keywordSlot?_of_named hnames hslot)

theorem defaultFor?_eq (slot : Nat) : f.defaultFor? slot = f.ownDefaults[slot]?.join := by
  unfold defaultFor? ownDefaults
  dsimp only
  by_cases hfirst : f.signature.positional.length - f.defaults.length ≤ slot
  · rw [if_pos hfirst, List.getElem?_append_right (by simpa using hfirst), List.length_replicate,
      List.getElem?_map]
    cases f.defaults[slot - (f.signature.positional.length - f.defaults.length)]? <;> rfl
  · have hlt : slot < f.signature.positional.length - f.defaults.length := Nat.lt_of_not_le hfirst
    rw [if_neg hfirst, List.getElem?_append_left (by rw [List.length_replicate]; exact hlt),
      List.getElem?_replicate_of_lt hlt]
    rfl

/-- The trailing positional parameters have defaults. -/
theorem isSome_defaultFor? (hdefaults : f.defaults.length ≤ f.signature.positional.length)
    {slot : Nat} (hslot : slot < f.signature.positional.length) :
    (f.defaultFor? slot).isSome
      ↔ f.signature.positional.length ≤ slot + f.defaults.length := by
  unfold defaultFor?
  dsimp only
  split
  case isTrue hfirst =>
    rw [isSome_getElem?]
    show slot - _ < f.defaults.length ↔ _
    omega
  case isFalse hfirst =>
    constructor
    · intro h
      cases h
    · omega

theorem positionalValue?_eq (hnames : f.signature.named.Nodup) {i : Nat}
    (h : f.signature.positional[i]? = some name) :
    f.positionalValue? args i name
      = (args.positional[i]? <|> Dict.get? args.keyword name
        <|> f.ownDefaults[i]?.join : Option Value) := by
  have hlt : i < f.signature.positional.length := (List.getElem?_eq_some_iff.mp h).1
  unfold positionalValue?
  rw [keywordFor?_eq hnames (by rw [Signature.named_positional hlt, h]), defaultFor?_eq]

theorem keywordOnlyValue?_eq (hnames : f.signature.named.Nodup) {i : Nat}
    (h : f.signature.keywordOnly[i]? = some name) :
    f.keywordOnlyValue? args (f.signature.positional.length + i) name
      = (Dict.get? args.keyword name <|> Dict.get? f.kwDefaults name : Option Value) := by
  unfold keywordOnlyValue?
  rw [keywordFor?_eq hnames (by rw [Signature.named_keywordOnly, h])]

theorem isSome_positionalValue? (hnames : f.signature.named.Nodup)
    (hdefaults : f.defaults.length ≤ f.signature.positional.length) {i : Nat}
    (h : f.signature.positional[i]? = some name) :
    (f.positionalValue? args i name).isSome ↔ f.SuppliesPositional args i name := by
  have hlt : i < f.signature.positional.length := (List.getElem?_eq_some_iff.mp h).1
  rw [positionalValue?_eq hnames h, ← defaultFor?_eq]
  unfold SuppliesPositional
  rw [← isSome_defaultFor? hdefaults hlt, ← Dict.isSome_get?_iff]
  cases hgiven : args.positional[i]? with
  | some value =>
      have hi : i < args.positional.length := (List.getElem?_eq_some_iff.mp hgiven).1
      simp [hi]
  | none =>
      have hi : ¬ i < args.positional.length := by
        rw [List.getElem?_eq_none_iff] at hgiven
        omega
      cases Dict.get? args.keyword name <;> simp [hi]

theorem isSome_keywordOnlyValue? (hnames : f.signature.named.Nodup) {i : Nat}
    (h : f.signature.keywordOnly[i]? = some name) :
    (f.keywordOnlyValue? args (f.signature.positional.length + i) name).isSome
      ↔ f.SuppliesKeywordOnly args name := by
  rw [keywordOnlyValue?_eq hnames h]
  unfold SuppliesKeywordOnly
  rw [← Dict.isSome_get?_iff, ← Dict.isSome_get?_iff]
  cases Dict.get? args.keyword name <;> simp

end Values

/-! ## §7. Scans and what parameters are supplied with. -/

section Supplied

variable {value? : Nat → String → Option Value} {missing : String → ArgumentProblem}
  {has : Nat → String → Prop} {slot : Nat} {names : List String} {problem : ArgumentProblem}

/-- A scan fails at the first parameter that is not supplied. -/
theorem valuesFrom_eq_error_iff
    (hhas : ∀ (i : Nat) name, names[i]? = some name →
      ((value? (slot + i) name).isSome ↔ has i name)) :
    valuesFrom value? missing slot names = .error problem
      ↔ ∃ name, FirstWithout has names name ∧ problem = missing name := by
  rw [valuesFrom_eq_error]
  -- a split of the names tells the index of each name in it
  have hearlier : ∀ {before after : List String} {name : String},
      names = before ++ name :: after → ∀ (i : Nat) other, before[i]? = some other →
        names[i]? = some other := by
    intro before after name hsplit i other hother
    have hi : i < before.length := (List.getElem?_eq_some_iff.mp hother).1
    rw [hsplit, List.getElem?_append_left hi, hother]
  have hhere : ∀ {before after : List String} {name : String},
      names = before ++ name :: after → names[before.length]? = some name := by
    intro before after name hsplit
    rw [hsplit]
    simp
  constructor
  · intro h
    obtain ⟨before, name, after, hsplit, hbefore, hmissing, hproblem⟩ := h
    refine ⟨name, ⟨before, after, hsplit, fun i other hother => ?_, fun hsupplied => ?_⟩, hproblem⟩
    · exact (hhas i other (hearlier hsplit i other hother)).mp (hbefore i other hother)
    · have hsome := (hhas before.length name (hhere hsplit)).mpr hsupplied
      rw [hmissing] at hsome
      cases hsome
  · intro h
    obtain ⟨name, ⟨before, after, hsplit, hbefore, hlacks⟩, hproblem⟩ := h
    refine ⟨before, name, after, hsplit, fun i other hother => ?_, ?_, hproblem⟩
    · exact (hhas i other (hearlier hsplit i other hother)).mpr (hbefore i other hother)
    · rw [← Option.not_isSome_iff_eq_none, hhas before.length name (hhere hsplit)]
      exact hlacks

variable (hnames : f.signature.named.Nodup)
  (hdefaults : f.defaults.length ≤ f.signature.positional.length)

include hnames hdefaults in
theorem exists_positionalValues :
    (∃ values, f.positionalValues args 0 f.signature.positional = .ok values)
      ↔ ∀ (i : Nat) name, f.signature.positional[i]? = some name →
        f.SuppliesPositional args i name := by
  simp only [positionalValues_eq]
  rw [exists_valuesFrom_ok]
  refine forall_congr' fun i => forall_congr' fun name => forall_congr' fun hname => ?_
  rw [Nat.zero_add]
  exact isSome_positionalValue? hnames hdefaults hname

include hnames hdefaults in
theorem positionalValues_eq_error :
    f.positionalValues args 0 f.signature.positional = .error problem
      ↔ ∃ name, FirstWithout (f.SuppliesPositional args) f.signature.positional name
        ∧ problem = .missingPositional name := by
  rw [positionalValues_eq]
  refine valuesFrom_eq_error_iff fun i name hname => ?_
  rw [Nat.zero_add]
  exact isSome_positionalValue? hnames hdefaults hname

include hnames in
theorem exists_keywordOnlyValues :
    (∃ values, f.keywordOnlyValues args f.signature.positional.length f.signature.keywordOnly
        = .ok values)
      ↔ ∀ name ∈ f.signature.keywordOnly, f.SuppliesKeywordOnly args name := by
  simp only [keywordOnlyValues_eq]
  rw [exists_valuesFrom_ok]
  constructor
  · intro h name hname
    obtain ⟨i, hi⟩ := List.mem_iff_getElem?.mp hname
    exact (isSome_keywordOnlyValue? hnames hi).mp (h i name hi)
  · intro h i name hname
    exact (isSome_keywordOnlyValue? hnames hname).mpr (h name (List.mem_of_getElem? hname))

include hnames in
theorem keywordOnlyValues_eq_error :
    f.keywordOnlyValues args f.signature.positional.length f.signature.keywordOnly
        = .error problem
      ↔ ∃ name, FirstWithout (fun _ other => f.SuppliesKeywordOnly args other)
          f.signature.keywordOnly name
        ∧ problem = .missingKeywordOnly name := by
  rw [keywordOnlyValues_eq]
  exact valuesFrom_eq_error_iff fun i name hname => isSome_keywordOnlyValue? hnames hname

/-! ## §8. Which calls are accepted, and what is reported. -/

theorem noKeywordProblem_iff :
    (∀ name ∈ Dict.keys args.keyword, ∀ problem, ¬ f.KeywordProblem args name problem)
      ↔ (∀ name ∈ Dict.keys args.keyword, name ∉ f.filled args)
        ∧ ∀ name ∈ Dict.keys args.keyword,
          name ∈ f.signature.named ∨ f.signature.varKeyword.isSome := by
  constructor
  · intro h
    refine ⟨fun name hname hfilled => h name hname _ (.multiple hfilled), fun name hname => ?_⟩
    by_cases hnamed : name ∈ f.signature.named
    · exact Or.inl hnamed
    · refine Or.inr (Option.isSome_iff_ne_none.mpr fun hcollects => ?_)
      exact h name hname _ (.unexpected hnamed hcollects)
  · intro h name hname problem hproblem
    cases hproblem with
    | multiple hfilled => exact h.1 name hname hfilled
    | unexpected hnamed hcollects =>
        rcases h.2 name hname with hmem | hsome
        · exact hnamed hmem
        · rw [hcollects] at hsome
          cases hsome

include hnames hdefaults in
theorem exists_parameterValues :
    (∃ values, f.parameterValues args = .ok values) ↔ f.Accepts args := by
  simp only [parameterValues_eq_ok]
  constructor
  · intro h
    obtain ⟨-, hcall, positional, keywordOnly, hpositional, hkeywordOnly, -⟩ := h
    obtain ⟨hsurplus, hkeywords⟩ := (callProblem?_eq_none hnames).mp hcall
    obtain ⟨hfilled, hnamed⟩ := noKeywordProblem_iff.mp hkeywords
    exact
      { surplus := hsurplus
        filledOnce := hfilled
        named := hnamed
        positional := (exists_positionalValues hnames hdefaults).mp ⟨positional, hpositional⟩
        keywordOnly := (exists_keywordOnlyValues hnames).mp ⟨keywordOnly, hkeywordOnly⟩ }
  · intro h
    obtain ⟨positional, hpositional⟩ := (exists_positionalValues hnames hdefaults).mpr h.positional
    obtain ⟨keywordOnly, hkeywordOnly⟩ := (exists_keywordOnlyValues hnames).mpr h.keywordOnly
    have hcall : f.callProblem? args = none :=
      (callProblem?_eq_none hnames).mpr
        ⟨h.surplus, noKeywordProblem_iff.mpr ⟨h.filledOnce, h.named⟩⟩
    exact ⟨_, hcall, positional, keywordOnly, hpositional, hkeywordOnly, rfl⟩

include hnames hdefaults in
theorem parameterValues_eq_error_iff :
    f.parameterValues args = .error problem ↔ f.FirstProblem args problem := by
  rw [parameterValues_eq_error, callProblem?_eq_some hnames, callProblem?_eq_none hnames,
    positionalValues_eq_error hnames hdefaults, exists_positionalValues hnames hdefaults,
    keywordOnlyValues_eq_error hnames]
  constructor
  · intro h
    rcases h with (⟨hsurplus, hproblem⟩ | ⟨hsurplus, before, name, after, hkeys, hbefore, hproblem⟩)
      | ⟨⟨hsurplus, hkeywords⟩, name, hwithout, hproblem⟩
      | ⟨⟨hsurplus, hkeywords⟩, hpositional, name, hwithout, hproblem⟩
    · exact hproblem ▸ .surplus hsurplus
    · exact .keyword before after hsurplus hkeys hbefore hproblem
    · exact hproblem ▸ .missingPositional hsurplus hkeywords hwithout
    · exact hproblem ▸ .missingKeywordOnly hsurplus hkeywords hpositional hwithout
  · intro h
    cases h with
    | surplus hsurplus => exact Or.inl (Or.inl ⟨hsurplus, rfl⟩)
    | keyword before after hsurplus hkeys hbefore hproblem =>
        exact Or.inl (Or.inr ⟨hsurplus, before, _, after, hkeys, hbefore, hproblem⟩)
    | missingPositional hsurplus hkeywords hwithout =>
        exact Or.inr (Or.inl ⟨⟨hsurplus, hkeywords⟩, _, hwithout, rfl⟩)
    | missingKeywordOnly hsurplus hkeywords hpositional hwithout =>
        exact Or.inr (Or.inr ⟨⟨hsurplus, hkeywords⟩, hpositional, _, hwithout, rfl⟩)

end Supplied

end Function

end CallDecoration
