/-
  CallDecoration.Proofs.CommandLine.Links
  ──────────────────────────────────────
  **The links of the demonstration and their wrapped copies.**  Every link is
  bound under a name of its own (`setup_eq`), and all but the last are the same
  code.  While the chain is decorated the world is known up to how many links
  have been wrapped (`WrappedTo`): wrapping the next one logs its name and gives
  its copy a new identity (`WrappedTo.next`), so none is wrapped twice.
-/
import CallDecoration.CommandLine.Demo
import CallDecoration.Proofs.Decoration.Decorating
import CallDecoration.Proofs.Decoration.Histories
import CallDecoration.Proofs.Text.Reading

namespace CallDecoration

/-- A name has the value that was bound to it last. -/
theorem World.lookup_bind {σ : Type} (w : World σ) (scope : ScopeId) (name other : String)
    (value : Value) :
    (w.bind scope name value).lookup scope other
      = if name = other then some value else w.lookup scope other := by
  unfold World.bind World.lookup World.setBindings World.bindings
  rw [Dict.get?_set, if_pos rfl]
  exact Dict.get?_set _ _ _ _

namespace Demo

/-! ## §1. Names. -/

/-- **Links have different names.** -/
theorem linkName_inj {i j : Nat} : linkName i = linkName j ↔ i = j := by
  refine ⟨fun h => ?_, fun h => by rw [h]⟩
  have hchars := congrArg String.toList h
  unfold linkName at hchars
  rw [String.toList_append, String.toList_append, List.append_cancel_left_eq] at hchars
  have hread : (i : Int) = j ∧ ([] : List Char) = [] :=
    Text.decimal_readable Text.notStarting_nil Text.notStarting_nil (by rw [hchars])
  exact Int.ofNat.inj hread.1

/-- The names of the first `count` links. -/
def linkNames (count : Nat) : List String :=
  (List.range count).map linkName

theorem linkNames_succ (count : Nat) : linkNames (count + 1) = linkNames count ++ [linkName count] := by
  unfold linkNames
  rw [List.range_succ, List.map_append]
  rfl

theorem length_linkNames (count : Nat) : (linkNames count).length = count := by
  unfold linkNames
  rw [List.length_map, List.length_range]

/-! ## §2. Links. -/

/-- The module of the demonstration. -/
def scope : ScopeRef := ⟨⟨0⟩, "demo"⟩

/-- A link, as the demonstration makes it. -/
def link (depth index : Nat) : Function Value :=
  ⟨⟨index + 1⟩, linkName index, linkBody depth index, scope, [], [], #[]⟩

/-- The code of a link that calls the next one. -/
def callingCode : List Instruction :=
  [.loadGlobal 0, .call (CallShape.plain 0), .return]

/-- The code of the last link. -/
def answeringCode (depth : Nat) : List Instruction :=
  [.pushSmall (Int8.ofNat depth), .return]

/-- What is built for a link that calls the next one. -/
theorem linkCode_calling {depth index : Nat} (h : index + 1 < depth) :
    linkCode depth index
      = ⟨linkName index, encode callingCode, #[], #[linkName (index + 1)], Signature.none, 0,
          none⟩ := by
  have hname : (Builder.new (linkName index) : Builder Value).addName (linkName (index + 1))
      = (0, { Builder.new (linkName index) with names := #[linkName (index + 1)] }) := by
    unfold Builder.addName Builder.new
    rw [Array.findIdx?_empty]
    rfl
  simp only [linkCode, if_pos h, Builder.emitLoadGlobal, hname]
  rfl

/-- What is built for the last link. -/
theorem linkCode_answering {depth index : Nat} (h : ¬ index + 1 < depth) :
    linkCode depth index
      = ⟨linkName index, encode (answeringCode depth), #[], #[], Signature.none, 0, none⟩ := by
  simp only [linkCode, if_neg h]
  rfl

theorem linkBody_calling {depth index : Nat} (h : index + 1 < depth) :
    linkBody depth index
      = ⟨linkName index, encode callingCode, #[], #[linkName (index + 1)], Signature.none, 0⟩ := by
  unfold linkBody
  rw [linkCode_calling h]

theorem linkBody_answering {depth index : Nat} (h : ¬ index + 1 < depth) :
    linkBody depth index
      = ⟨linkName index, encode (answeringCode depth), #[], #[], Signature.none, 0⟩ := by
  unfold linkBody
  rw [linkCode_answering h]

/-- **Every link can be built:** no table has outgrown its index, and the code is
short. -/
theorem build_linkCode (depth index : Nat) :
    (linkCode depth index).build = .ok (linkBody depth index) := by
  have hfits : (linkCode depth index).overflow = none
      ∧ (linkCode depth index).code.size ≤ maxCodeLength := by
    by_cases h : index + 1 < depth
    · rw [linkCode_calling h]
      refine ⟨rfl, ?_⟩
      show (encode callingCode).size ≤ maxCodeLength
      decide
    · rw [linkCode_answering h]
      refine ⟨rfl, ?_⟩
      show 3 ≤ maxCodeLength
      decide
  unfold Builder.build
  rw [hfits.1]
  exact if_pos hfits.2

/-! ## §3. Wrapped links. -/

/-- The counting transformation. -/
def counter : Native Value := ⟨⟨0⟩, counterName, .host⟩

/-- The registry of the demonstration. -/
def registry : RegistryId := ⟨0⟩

/-- Where a wrapped link keeps the entry point and the adapter. -/
def slots : CaptureSlots := ⟨0, 1⟩

/-- The code of a wrapped link that calls the next one. -/
def expandedCode : List Instruction :=
  .loadGlobal 0 :: (slots.expansion (CallShape.plain 0) ++ [.return])

/-- The body of a wrapped link. -/
def wrappedBody (depth index : Nat) : Chunk Value :=
  if index + 1 < depth then
    ⟨linkName index, encode expandedCode, #[], #[linkName (index + 1)], Signature.none, 0⟩
  else linkBody depth index

theorem wrappedBody_calling {depth index : Nat} (h : index + 1 < depth) :
    wrappedBody depth index
      = ⟨linkName index, encode expandedCode, #[], #[linkName (index + 1)], Signature.none, 0⟩ :=
  if_pos h

theorem wrappedBody_answering {depth index : Nat} (h : ¬ index + 1 < depth) :
    wrappedBody depth index
      = ⟨linkName index, encode (answeringCode depth), #[], #[], Signature.none, 0⟩ :=
  (if_neg h).trans (linkBody_answering h)

/-- **Every link can be instrumented.** -/
theorem instrumentedBody_link (depth index : Nat) :
    (link depth index).instrumentedBody = .ok (wrappedBody depth index) := by
  show ((linkBody depth index).instrument slots).outcome.map
    (fun body => body.withSignature (linkBody depth index).signature) = _
  by_cases h : index + 1 < depth
  · rw [linkBody_calling h, wrappedBody_calling h]
    rfl
  · rw [linkBody_answering h, wrappedBody_answering h]
    rfl

/-- **The copy of a link.**  The links are wrapped in their order, and between
two of them an entry point and a decorator are made. -/
def wrapped (depth index : Nat) : Function Value :=
  (link depth index).copyWith ⟨depth + 1 + index⟩ (wrappedBody depth index)
    (.native ⟨⟨2 * index + 2⟩, entryPointName, .entryPoint registry⟩) (plainAdapter counter)

/-- A wrapped link takes no arguments and has no local slots. -/
theorem bindArguments_wrapped (depth index : Nat) :
    (wrapped depth index).bindArguments .none = .ok #[] := by
  have hbody : (wrapped depth index).body = wrappedBody depth index := rfl
  have hsignature : (wrappedBody depth index).signature = Signature.none
      ∧ (wrappedBody depth index).localCount = 0 := by
    by_cases h : index + 1 < depth
    · rw [wrappedBody_calling h]
      exact ⟨rfl, rfl⟩
    · rw [wrappedBody_answering h]
      exact ⟨rfl, rfl⟩
  have hvalues : (wrapped depth index).parameterValues .none = .ok [] := by
    unfold Function.parameterValues Function.callProblem? Function.collectedValues Function.signature
    rw [hbody, hsignature.1]
    rfl
  unfold Function.bindArguments
  rw [hvalues, hbody, hsignature.2]
  rfl

/-! ## §4. The world while the chain is decorated. -/

/-- **The world after the first links have been wrapped.** -/
structure WrappedTo (depth count : Nat) (w : World (List String)) : Prop where
  /-- Every link is bound under its name. -/
  bound : ∀ i < depth, w.lookup scope.id (linkName i) = some (.function (link depth i))
  /-- The links themselves are not marked, only their copies are. -/
  unmarked : ∀ i < depth, (w.registry registry).historyOf (link depth i).id = .empty
  /-- The copy of the first link is marked once. -/
  marked : 0 < count →
    (w.registry registry).historyOf (wrapped depth 0).id = ⟨[counterName]⟩
  nextFunction : w.nextFunction = depth + 1 + count
  nextObject : w.nextObject = 2 * count + 1
  dropped : w.dropped = []
  /-- The names of the links have been logged in their order. -/
  logged : w.host = linkNames count

/-- The world after the name of a value has been logged. -/
def logging (v : Value) (w : World (List String)) : World (List String) :=
  { w with host := w.host ++ [v.transformationName] }

/-- The world after a function has been wrapped. -/
def wrapping (g copy : Function Value) (w : World (List String)) : World (List String) :=
  ((logging (.function copy) (w.newEntryPoint registry).2.freshFunction.2).recordHistory
    registry copy.id (((w.registry registry).historyOf g.id).extend counterName)).2

namespace WrappedTo

variable {depth count : Nat} {w : World (List String)}

theorem length_logged (hw : WrappedTo depth count w) : w.host.length = count := by
  rw [hw.logged, length_linkNames]

/-- The next link may be wrapped. -/
theorem eligible (hw : WrappedTo depth count w) {i : Nat} (hi : i < depth) :
    (w.freshObject.2.registry registry).isEligible (.function (link depth i)) counterName
      = true := by
  show (!((w.registry registry).historyOf (link depth i).id).contains counterName) = true
  rw [hw.unmarked i hi]
  rfl

/-- Wrapping a link makes its copy. -/
theorem copyIn_eq (hw : WrappedTo depth count w) :
    (link depth count).copyIn registry counter (wrappedBody depth count) w.freshObject.2
      = wrapped depth count := by
  have hentry : (w.freshObject.2.newEntryPoint registry).1
      = .native ⟨⟨2 * count + 2⟩, entryPointName, .entryPoint registry⟩ := by
    show Value.native ⟨⟨w.nextObject + 1⟩, _, _⟩ = _
    rw [hw.nextObject]
  have hid : w.freshObject.2.nextFunction = depth + 1 + count := hw.nextFunction
  unfold Function.copyIn
  rw [hentry, hid]
  rfl

/-- **Wrapping the next link.** -/
theorem next (hw : WrappedTo depth count w) (hcount : count < depth) :
    WrappedTo depth (count + 1)
      (wrapping (link depth count) (wrapped depth count) w.freshObject.2) := by
  -- only the new copy gets a history, and that of the link that was copied is empty
  have hhistory : ∀ x : FunctionId,
      ((wrapping (link depth count) (wrapped depth count) w.freshObject.2).registry
          registry).historyOf x
        = if (wrapped depth count).id = x then ⟨[counterName]⟩
          else (w.registry registry).historyOf x := by
    intro x
    unfold wrapping
    rw [World.historyOf_recordHistory (by
      show (!w.dropped.contains x) = true
      rw [hw.dropped]
      rfl)]
    have hown : (w.freshObject.2.registry registry).historyOf (link depth count).id = .empty :=
      hw.unmarked count hcount
    rw [hown]
    simp only [true_and]
    rfl
  refine
    { bound := hw.bound
      unmarked := fun i hi => ?_
      marked := fun _ => ?_
      nextFunction := ?_
      nextObject := ?_
      dropped := hw.dropped
      logged := ?_ }
  · -- copies have later numbers than links
    have hne : (wrapped depth count).id ≠ (link depth i).id := by
      intro h
      have hnumber : depth + 1 + count = i + 1 := congrArg FunctionId.number h
      omega
    rw [hhistory, if_neg hne]
    exact hw.unmarked i hi
  · rw [hhistory]
    by_cases hfirst : count = 0
    · rw [hfirst, if_pos rfl]
    · split
      · rfl
      · exact hw.marked (Nat.pos_of_ne_zero hfirst)
  · show w.nextFunction + 1 = _
    rw [hw.nextFunction]
    rfl
  · show w.nextObject + 1 + 1 = _
    rw [hw.nextObject]
    omega
  · show w.host ++ [(Value.function (wrapped depth count)).transformationName] = _
    rw [hw.logged, linkNames_succ]
    rfl

end WrappedTo

/-! ## §5. The start. -/

/-- The links that have been made so far. -/
structure Linked (depth count : Nat) (w : World (List String)) : Prop where
  bound : ∀ i < count, w.lookup scope.id (linkName i) = some (.function (link depth i))
  /-- Nothing else has been made. -/
  rest : w = { (World.new []).newScope "demo" |>.2 with
    scopes := w.scopes, nextFunction := count + 1 }

theorem Linked.addLink {depth count : Nat} {w : World (List String)} (hw : Linked depth count w) :
    Linked depth (count + 1) (addLink scope depth count w) := by
  have hnumber : w.nextFunction = count + 1 := by rw [hw.rest]
  have hadd : Demo.addLink scope depth count w
      = ({ w with nextFunction := count + 2 } : World (List String)).bind scope.id (linkName count)
          (.function (link depth count)) := by
    unfold Demo.addLink World.freshFunction
    rw [hnumber]
    rfl
  rw [hadd]
  constructor
  · intro i hi
    rw [World.lookup_bind]
    by_cases hlast : count = i
    · rw [hlast, if_pos rfl]
    · rw [if_neg fun h => hlast (linkName_inj.mp h)]
      exact hw.bound i (by omega)
  · rw [hw.rest]
    rfl

theorem linked_range (depth count : Nat) :
    Linked depth count ((List.range count).foldl (fun w index => addLink scope depth index w)
      ((World.new []).newScope "demo").2) := by
  induction count with
  | zero => exact ⟨fun i hi => absurd hi (Nat.not_lt_zero i), rfl⟩
  | succ count ih =>
      rw [List.range_succ, List.foldl_append]
      exact ih.addLink

/-- The decorator of the demonstration. -/
def decorator : Native Value := ⟨⟨1⟩, counterName, .decorator registry (plainAdapter counter)⟩

/-- **What the demonstration begins with.** -/
theorem setup_eq (settings : Settings) {depth : Nat} (hdepth : 0 < depth) :
    ∃ w, WrappedTo depth 0 w
      ∧ setup settings depth
        = ⟨Machine.new settings w.freshObject.2, .native decorator, .function (link depth 0),
            registry⟩ := by
  have hlinked := linked_range depth depth
  generalize hmade : (List.range depth).foldl (fun w index => addLink scope depth index w)
    ((World.new []).newScope "demo").2 = made at hlinked
  have hentry : made.lookup scope.id (linkName 0) = some (.function (link depth 0)) :=
    hlinked.bound 0 hdepth
  obtain ⟨scopes, registries, dropped, nextFunction, nextObject, nextScope, nextRegistry, log⟩ := made
  cases hlinked.rest
  -- the counter takes the first object, and the decorator will take the second
  refine ⟨⟨scopes, [], [], depth + 1, 1, 1, 1, []⟩, ?_, ?_⟩
  · exact
      { bound := hlinked.bound
        unmarked := fun i _ => rfl
        marked := fun h => absurd h (Nat.lt_irrefl 0)
        nextFunction := rfl
        nextObject := rfl
        dropped := rfl
        logged := rfl }
  · unfold setup addLinks
    dsimp only
    rw [show ((World.new ([] : List String)).newScope "demo").1 = scope from rfl, hmade, hentry]
    rfl

end Demo

end CallDecoration
