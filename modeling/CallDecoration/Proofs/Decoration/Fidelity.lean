/-
  CallDecoration.Proofs.Decoration.Fidelity
  ──────────────────────────────────────
  **An instrumented copy accepts the calls of its original.**  A pass drops the
  parameters of a body and keeps its local slots; the copy declares the
  parameters again, which may add local slots, but never does so for a body
  that was made by the means of this library, since each of these leaves a
  slot for every parameter (`Chunk.Made.slots_le`).  So the copy binds every
  argument list to the same locals, or refuses it with the same error, and
  shares all else that a caller can see (`Function.instrument_faithful`).
-/
import CallDecoration.Proofs.Bytecode.Building
import CallDecoration.Proofs.Decoration.Copies
import CallDecoration.Value.Equality

namespace CallDecoration

variable {σ : Type}

/-! ## §1. How bodies come about. -/

/-- **A body that was built,** declared anew, or rewritten by a pass. -/
inductive Chunk.Made : Chunk Value → Prop where
  /-- The outcome of operations on a new builder. -/
  | built {c : Chunk Value} (name : String) (ops : List (Builder.Op Value))
      (h : (Builder.performAll ops (Builder.new name)).build = .ok c) : Made c
  /-- The same body with other parameters. -/
  | declared {c : Chunk Value} (sig : Signature) (h : Made c) : Made (c.withSignature sig)
  /-- The outcome of a pass over such a body. -/
  | rewritten {c c' : Chunk Value} (slots : CaptureSlots) (h : Made c)
      (hpass : (c.instrument slots).outcome = .ok c') : Made c'

/-- A pass leaves the parameters to be declared again. -/
theorem Chunk.signature_of_instrument {slots : CaptureSlots} {c c' : Chunk Value}
    (h : (c.instrument slots).outcome = .ok c') : c'.signature = Signature.none := by
  unfold Chunk.instrument at h
  split at h
  · cases h
  · split at h
    · cases h
    · split at h
      · cases h
      · dsimp only at h
        split at h
        · cases h
          rfl
        · cases h

/-- **Such a body has a local slot for each of its parameters.** -/
theorem Chunk.Made.slots_le {c : Chunk Value} (h : c.Made) : c.signature.slots ≤ c.localCount := by
  cases h with
  | built name ops h => exact Builder.slots_le_of_build h
  | declared sig h => exact Nat.le_max_right _ _
  | rewritten slots h hpass =>
      rw [Chunk.signature_of_instrument hpass]
      exact Nat.zero_le _

/-! ## §2. What the instrumented copy keeps. -/

/-- **What an action yields in a world,** calling nothing and whatever the
machine. -/
inductive Action.Yields {α : Type} : World σ → Action σ α → α → World σ → Prop where
  | done (w : World σ) (x : α) : Yields w (.done (.ok x)) x w
  | read {w w' : World σ} {next : World σ → Action σ α} {x : α} (h : Yields w (next w) x w') :
      Yields w (.read next) x w'
  | write {w v w' : World σ} {next : Action σ α} {x : α} (h : Yields v next x w') :
      Yields w (.write v next) x w'

/-- A change of the world is made before anything else. -/
theorem Action.Yields.of_change {α β : Type} {change : World σ → α × World σ}
    {next : α → Action σ β} {x : β} {w w' : World σ}
    (h : (Action.change change >>= next).Yields w x w') :
    (next (change w).1).Yields (change w).2 x w' := by
  have h : (Action.read fun w => .write (change w).2 (next (change w).1)).Yields w x w' := h
  cases h with
  | read h =>
      cases h with
      | write h => exact h

/-- **`g` takes the calls of `f` and shows what `f` shows.** -/
structure Function.Faithful (f g : Function Value) : Prop where
  /-- Every argument list is bound to the same locals, or refused with the same
  error. -/
  binds : ∀ args, g.bindArguments args = f.bindArguments args
  signature : g.signature = f.signature
  localCount : g.body.localCount = f.body.localCount
  name : g.name = f.name
  scope : g.scope = f.scope
  defaults : g.defaults = f.defaults
  kwDefaults : g.kwDefaults = f.kwDefaults
  constants : g.body.constants = f.body.constants
  names : g.body.names = f.body.names
  /-- What `f` captures is captured at the same index. -/
  captures : ∀ index < f.captures.size, g.captures[index]? = f.captures[index]?
  /-- So the same holds of whatever is made of `g`. -/
  made : g.body.Made

/-- The instrumented copy is made of the function and its instrumented body. -/
theorem Function.eq_copyWith_of_yields {registry : RegistryId} {a : Adapter Value}
    {f g : Function Value} {w w' : World σ} (h : (f.instrument registry a).Yields w g w') :
    ∃ id body entry, f.instrumentedBody = .ok body ∧ g = f.copyWith id body entry a := by
  unfold Function.instrument at h
  cases hbody : f.instrumentedBody with
  | error e =>
      rw [hbody] at h
      cases h
  | ok body =>
      rw [hbody] at h
      -- an entry point is made, then a number is taken
      have h := h.of_change.of_change
      cases h with
      | done => exact ⟨_, body, _, rfl, rfl⟩

/-- Once the body can be instrumented the copy is made, in any world. -/
theorem Function.exists_yields {f : Function Value} {body : Chunk Value}
    (hbody : f.instrumentedBody = .ok body) (registry : RegistryId) (a : Adapter Value)
    (w : World σ) : ∃ g w', (f.instrument registry a).Yields w g w' := by
  unfold Function.instrument
  rw [hbody]
  exact ⟨_, _, .read (.write (.read (.write (.done _ _))))⟩

/-- **Signature fidelity:** whenever a function whose body was made by these means
is instrumented, the copy is faithful to it. -/
theorem Function.instrument_faithful {registry : RegistryId} {a : Adapter Value}
    {f g : Function Value} {w w' : World σ} (hmade : f.body.Made)
    (hyields : (f.instrument registry a).Yields w g w') : f.Faithful g := by
  obtain ⟨id, body, entry, hbody, rfl⟩ := Function.eq_copyWith_of_yields hyields
  obtain ⟨slots, hslots⟩ := Function.exists_freshSlots hbody
  obtain ⟨chunk, hpass, rfl⟩ := Function.exists_pass hslots hbody
  obtain ⟨-, -, hconstants, hnames, hcount⟩ := Chunk.instrument_ok hpass
  have hgrown : max chunk.localCount f.signature.slots = max f.body.localCount f.signature.slots :=
    congrArg (max · f.signature.slots) hcount
  refine
    { binds := fun args => Function.bindArguments_congr rfl rfl rfl rfl hgrown
      signature := rfl
      localCount := hgrown.trans (Nat.max_eq_left hmade.slots_le)
      name := rfl
      scope := rfl
      defaults := rfl
      kwDefaults := rfl
      constants := hconstants
      names := hnames
      captures := ?_
      made := (hmade.rewritten slots hpass).declared f.signature }
  intro index hindex
  exact Function.captures_copyWith_lt hindex _ _ _ _

/-! ## §3. A function with parameters of several sorts. -/

/-- The steps of a body that calls the global `g` with its first local and a
constant. -/
def passesOnSteps : List (Builder.Op Value) :=
  [.emitLoadGlobal "g", .emit (.loadLocal 0), .emitConstant (.int 1000),
    .emit (.call (CallShape.plain 2)), .emit .return]

/-- That body, with parameters declared for it. -/
def passesOnBody : Chunk Value :=
  Chunk.withSignature
    ⟨"f", encode [.loadGlobal 0, .loadLocal 0, .pushConstant 0, .call (CallShape.plain 2), .return],
      #[.int 1000], #["g"], Signature.none, 1⟩
    ⟨["a", "b"], ["k"], some "rest", none⟩

/-- The function with that body, with defaults and a capture. -/
def passesOn : Function Value :=
  ⟨⟨2⟩, "f", passesOnBody, ⟨⟨0⟩, "m"⟩, [.int 10], [("k", .int 20)], #[⟨"seen", .nil⟩]⟩

/-- A transformation with extra arguments. -/
def leveledAdapter : Adapter Value :=
  Adapter.new (.native ⟨⟨0⟩, "leveled", .host⟩) [.int 3] [("level", .int 4)]

/-- The function above, instrumented with a transformation that has extra
arguments. -/
theorem instrument_faithful_passesOn :
    ∃ g w', passesOn.body.Made
      ∧ (passesOn.instrument ⟨0⟩ leveledAdapter).Yields boundWorld g w' ∧ passesOn.Faithful g := by
  have hmade : passesOn.body.Made := .declared _ (.built "f" passesOnSteps (by cbv))
  obtain ⟨body, hbody⟩ : ∃ body, passesOn.instrumentedBody = .ok body := ⟨_, rfl⟩
  obtain ⟨g, w', hyields⟩ := Function.exists_yields hbody ⟨0⟩ leveledAdapter boundWorld
  exact ⟨g, w', hmade, hyields, Function.instrument_faithful hmade hyields⟩

end CallDecoration
