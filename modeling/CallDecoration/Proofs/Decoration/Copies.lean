/-
  CallDecoration.Proofs.Decoration.Copies
  ──────────────────────────────────────
  **What an instrumented copy shares with its original.**  Name, scope,
  defaults, tables and parameters are the same, the captures of the original
  come first, and the code is laid out by a pass (`Function.Copied`).  So a
  copy binds arguments as the original does (`bindArguments_copied`), and the
  operands of a call describe the same arguments for both, up to the text of
  one message (`collectArgs_sameName`).
-/
import CallDecoration.Proofs.Decoration.Expansion
import CallDecoration.Proofs.Function.Parameters

namespace CallDecoration

variable {σ : Type}

/-! ## §1. Copies. -/

/-- A function whose body only loads captures that it has. -/
def Function.CapturesInRange (g : Function Value) : Prop :=
  ∀ rows, g.body.instructions = .ok rows → ∀ offset index,
    (offset, Instruction.loadCapture index) ∈ rows → index.toNat < g.captures.size

/-- **`g'` is an instrumented copy of `g`.** -/
structure Function.Copied (slots : CaptureSlots) (registry : RegistryId) (n : Native Value)
    (g g' : Function Value) : Prop where
  layout : Nonempty (Layout slots g.body.code g'.body.code)
  constants : g'.body.constants = g.body.constants
  names : g'.body.names = g.body.names
  signature : g'.signature = g.signature
  localCount : g'.body.localCount = max g.body.localCount g.signature.slots
  name : g'.name = g.name
  scope : g'.scope = g.scope
  defaults : g'.defaults = g.defaults
  kwDefaults : g'.kwDefaults = g.kwDefaults
  captures : ∀ index < g.captures.size, g'.captures[index]? = g.captures[index]?
  keeps : g'.Keeps slots registry n

/-- An instrumented body is the outcome of a pass, with the parameters declared
again. -/
theorem Function.exists_pass {g : Function Value} {body : Chunk Value} {slots : CaptureSlots}
    (hslots : g.freshSlots? = some slots) (hbody : g.instrumentedBody = .ok body) :
    ∃ chunk, (g.body.instrument slots).outcome = .ok chunk
      ∧ chunk.withSignature g.signature = body := by
  unfold Function.instrumentedBody at hbody
  rw [hslots] at hbody
  exact map_eq_ok_iff.mp hbody

/-- The copy that a decoration makes is one, with the slots behind the captures
of the function. -/
theorem Function.copied_freshSlots {registry : RegistryId} {n : Native Value} {g : Function Value}
    {body : Chunk Value} {slots : CaptureSlots} (hslots : g.freshSlots? = some slots)
    (hbody : g.instrumentedBody = .ok body) (w : World σ) :
    g.Copied slots registry n (g.copyIn registry n body w) := by
  obtain ⟨chunk, hchunk, rfl⟩ := Function.exists_pass hslots hbody
  obtain ⟨hlayout, _, hconstants, hnames, hcount⟩ := Chunk.instrument_ok hchunk
  obtain ⟨hentry, hadapter⟩ := Function.captures_copyWith hslots ⟨w.nextFunction⟩
    (chunk.withSignature g.signature) (w.newEntryPoint registry).1 (plainAdapter n)
  refine ⟨hlayout, hconstants, hnames, rfl, ?_, rfl, rfl, rfl, rfl, ?_,
    ⟨⟨_, entryPointName, .entryPoint registry⟩, rfl, hentry⟩, hadapter⟩
  · show max chunk.localCount g.signature.slots = _
    rw [hcount]
  · intro index hindex
    exact Function.captures_copyWith_lt hindex _ _ _ _

/-- A function that can be instrumented has room for two more captures. -/
theorem Function.exists_freshSlots {g : Function Value} {body : Chunk Value}
    (hbody : g.instrumentedBody = .ok body) : ∃ slots, g.freshSlots? = some slots := by
  unfold Function.instrumentedBody at hbody
  cases hslots : g.freshSlots? with
  | none =>
      rw [hslots] at hbody
      cases hbody
  | some slots => exact ⟨slots, rfl⟩

theorem Function.copied_copyIn {registry : RegistryId} {n : Native Value} {g : Function Value}
    {body : Chunk Value} (hbody : g.instrumentedBody = .ok body) (w : World σ) :
    ∃ slots, g.Copied slots registry n (g.copyIn registry n body w) := by
  obtain ⟨slots, hslots⟩ := Function.exists_freshSlots hbody
  exact ⟨slots, Function.copied_freshSlots hslots hbody w⟩

/-! ## §2. Parameters of a copy. -/

/-- **A copy binds arguments as its original does.** -/
theorem Function.bindArguments_copied {slots : CaptureSlots} {registry : RegistryId}
    {n : Native Value} {g g' : Function Value} {args : CallArgs}
    (h : g.Copied slots registry n g') : g'.bindArguments args = g.bindArguments args :=
  bindArguments_congr h.name h.signature h.defaults h.kwDefaults h.localCount

theorem Machine.admission_copied {slots : CaptureSlots} {registry : RegistryId} {n : Native Value}
    {g g' : Function Value} (h : g.Copied slots registry n g') (args : CallArgs) (depth : Nat)
    (st : Settings) : admission g' args depth st = admission g args depth st := by
  unfold admission
  rw [Function.bindArguments_copied h]

/-! ## §3. Arguments of a call of a copy. -/

/-- **Errors that are the same,** but for the number of a function in the
message about a repeated keyword. -/
def SameError (e e' : RunError) : Prop :=
  e' = e ∨ ∃ (g g' : Function Value) (keyword : String), g'.name = g.name
    ∧ e = .badArguments (Value.function g).display (.repeatedKeyword keyword)
    ∧ e' = .badArguments (Value.function g').display (.repeatedKeyword keyword)

theorem SameError.refl (e : RunError) : SameError e e :=
  Or.inl rfl

/-- Outcomes that are the same, up to the same error. -/
def SameOutcome {α : Type} : Except RunError α → Except RunError α → Prop
  | .ok a, .ok a' => a' = a
  | .error e, .error e' => SameError e e'
  | _, _ => False

theorem SameOutcome.refl {α : Type} (r : Except RunError α) : SameOutcome r r := by
  cases r with
  | error e => exact SameError.refl e
  | ok a => rfl

theorem SameOutcome.bind {α β : Type} {x x' : Except RunError α} {f f' : α → Except RunError β}
    (hx : SameOutcome x x') (hf : ∀ a, SameOutcome (f a) (f' a)) :
    SameOutcome (x >>= f) (x' >>= f') := by
  cases x with
  | error e =>
      cases x' with
      | error e' => exact hx
      | ok a' => exact hx.elim
  | ok a =>
      cases x' with
      | error e' => exact hx.elim
      | ok a' =>
          have ha : a' = a := hx
          subst ha
          exact hf a'

section SameName

variable {g g' : Function Value}

theorem addKeyword_sameName (hname : g'.name = g.name) (keyword : Dict String Value)
    (name : String) (value : Value) :
    SameOutcome (addKeyword (.function g) keyword name value)
      (addKeyword (.function g') keyword name value) := by
  unfold addKeyword
  split
  · exact Or.inr ⟨g, g', name, hname, rfl, rfl⟩
  · exact SameOutcome.refl _

theorem takeKeywords_sameName (hname : g'.name = g.name) (count : Nat)
    (keyword : Dict String Value) (operands : List Value) :
    SameOutcome (takeKeywords (.function g) count keyword operands)
      (takeKeywords (.function g') count keyword operands) := by
  induction count generalizing keyword operands with
  | zero => exact SameOutcome.refl _
  | succ count ih =>
      match operands with
      | [] => exact SameOutcome.refl _
      | [x] => exact SameOutcome.refl _
      | name :: value :: operands =>
          cases name with
          | str name =>
              exact SameOutcome.bind (addKeyword_sameName hname keyword name value)
                fun keyword' => ih keyword' operands
          | _ => exact SameOutcome.refl _

theorem addEntries_sameName (hname : g'.name = g.name) (keyword : Dict String Value)
    (entries : List (String × Value)) :
    SameOutcome (addEntries (.function g) keyword entries)
      (addEntries (.function g') keyword entries) := by
  induction entries generalizing keyword with
  | nil => exact SameOutcome.refl _
  | cons entry rest ih =>
      exact SameOutcome.bind (addKeyword_sameName hname keyword entry.1 entry.2)
        fun keyword' => ih keyword'

theorem takeDict_sameName (hname : g'.name = g.name) (present : Bool)
    (keyword : Dict String Value) (operands : List Value) :
    SameOutcome (takeDict (.function g) present keyword operands)
      (takeDict (.function g') present keyword operands) := by
  unfold takeDict
  cases present with
  | false => exact SameOutcome.refl _
  | true =>
      match operands with
      | [] => exact SameOutcome.refl _
      | x :: rest =>
          cases x with
          | dict entries => exact addEntries_sameName hname keyword entries
          | _ => exact SameOutcome.refl _

/-- **The arguments of a call do not depend on the callee,** and an error names
a callee of the same name. -/
theorem collectArgs_sameName (hname : g'.name = g.name) (shape : CallShape)
    (operands : List Value) :
    SameOutcome (collectArgs (.function g) shape operands)
      (collectArgs (.function g') shape operands) := by
  unfold collectArgs
  refine SameOutcome.bind (takeKeywords_sameName hname _ _ _) fun taken => ?_
  refine SameOutcome.bind (SameOutcome.refl _) fun further => ?_
  refine SameOutcome.bind (takeDict_sameName hname _ _ _) fun keyword => ?_
  exact SameOutcome.refl _

end SameName

end CallDecoration
