/-
  CallDecoration.Proofs.Decoration.Stacking
  ──────────────────────────────────────
  **Decorations one on top of the other.**  A function is decorated by a
  sequence of host functions that give their argument back, whatever else they
  do (`GivesBack`).  Every name counts at its first occurrence only (`firsts`):
  there the host function is applied to a copy with one layer more, and where
  the name comes again nothing happens at all.  So the layers of the result,
  its history and the applications are those of the distinct names
  (`Stacks`, `stacks_of_givesBack`).
-/
import CallDecoration.Proofs.Decoration.Programs
import Mathlib.Data.List.Induction

namespace CallDecoration

variable {σ : Type}

/-! ## §1. First occurrences. -/

/-- One element more is dropped if it is related to one that was kept. -/
theorem eraseDupsBy_concat {α : Type} (r : α → α → Bool) (as : List α) (a : α) :
    (as ++ [a]).eraseDupsBy r
      = if (as.eraseDupsBy r).any (r a) then as.eraseDupsBy r else as.eraseDupsBy r ++ [a] := by
  -- the loop carries what it has kept, so the statement is for any that it starts with
  have hloop : ∀ bs, List.eraseDupsBy.loop r (as ++ [a]) bs
      = if (List.eraseDupsBy.loop r as bs).any (r a) then List.eraseDupsBy.loop r as bs
        else List.eraseDupsBy.loop r as bs ++ [a] := by
    induction as with
    | nil =>
        intro bs
        simp only [List.nil_append, List.eraseDupsBy.loop, List.any_reverse]
        cases bs.any (r a) <;> simp
    | cons b as ih =>
        intro bs
        cases hb : bs.any (r b) <;>
          simp only [List.cons_append, List.eraseDupsBy.loop, hb] <;> exact ih _
  exact hloop []

/-- **The host functions whose name has not come before,** in order. -/
def firsts (ns : List (Native Value)) : List (Native Value) :=
  ns.eraseDupsBy fun n m => n.name == m.name

/-- The names of the first occurrences are the distinct names. -/
theorem firsts_names (ns : List (Native Value)) :
    (firsts ns).map Native.name = (ns.map Native.name).eraseDups := by
  induction ns using List.reverseRecOn with
  | nil => rfl
  | append_singleton ns n ih =>
      have hany : (firsts ns).any (fun m => n.name == m.name)
          = ((ns.map Native.name).eraseDups).any (fun name => n.name == name) := by
        rw [← ih, List.any_map]
        rfl
      unfold firsts at hany ih ⊢
      unfold List.eraseDups at hany ih ⊢
      rw [List.map_append, List.map_singleton, eraseDupsBy_concat, eraseDupsBy_concat, hany]
      split
      · exact ih
      · rw [List.map_append, ih]
        rfl

theorem mem_firsts_names {ns : List (Native Value)} {name : String} :
    name ∈ (firsts ns).map Native.name ↔ name ∈ ns.map Native.name := by
  rw [firsts_names, List.mem_eraseDups]

theorem firsts_concat (ns : List (Native Value)) (n : Native Value) :
    firsts (ns ++ [n]) = if n.name ∈ ns.map Native.name then firsts ns else firsts ns ++ [n] := by
  unfold firsts
  rw [eraseDupsBy_concat]
  refine if_congr ?_ rfl rfl
  rw [← mem_firsts_names, List.any_eq_true, List.mem_map]
  exact exists_congr fun m => and_congr_right fun _ => beq_iff_eq.trans eq_comm

theorem firsts_repeated {ns : List (Native Value)} {n : Native Value}
    (h : n.name ∈ ns.map Native.name) : firsts (ns ++ [n]) = firsts ns := by
  rw [firsts_concat, if_pos h]

theorem firsts_new {ns : List (Native Value)} {n : Native Value}
    (h : n.name ∉ ns.map Native.name) : firsts (ns ++ [n]) = firsts ns ++ [n] := by
  rw [firsts_concat, if_neg h]

/-- Later host functions only add to the first occurrences. -/
theorem firsts_length_le (ns rest : List (Native Value)) :
    (firsts ns).length ≤ (firsts (ns ++ rest)).length := by
  induction rest using List.reverseRecOn with
  | nil => simp
  | append_singleton rest n ih =>
      rw [← List.append_assoc, firsts_concat]
      split
      · exact ih
      · rw [List.length_append]
        omega

/-! ## §2. The layers of a body. -/

/-- **The body of a function after a number of rewritings:** each is by a pass
whose slots lie behind those of the one before, and restores the parameters. -/
def Function.rewritten (f : Function Value) : Nat → Except InstrumentError (Chunk Value)
  | 0 => .ok f.body
  | k + 1 =>
      match f.rewritten k with
      | .error e => .error e
      | .ok body =>
          -- each rewriting before this one has added two captures
          match CaptureSlots.behind? (f.captures.size + 2 * k) with
          | none => .error (.tooManyCaptures (f.captures.size + 2 * k + 2))
          | some slots =>
              (body.instrument slots).outcome.map fun chunk => chunk.withSignature f.signature

/-- The entries that a decoration puts behind the captures. -/
def capturePair (entry n : Native Value) : List (Capture Value) :=
  [⟨entryPointName, .native entry⟩, ⟨(plainAdapter n).bindingName, (plainAdapter n).asTuple⟩]

/-- **The captures of `x` are those of `f`,** and behind them a pair for each of
`ns`, in order. -/
def Function.HasPairs (registry : RegistryId) (ns : List (Native Value)) (f x : Function Value) :
    Prop :=
  ∃ entries : List (Native Value), entries.length = ns.length
    ∧ (∀ entry ∈ entries, entry.name = entryPointName ∧ entry.role = .entryPoint registry)
    ∧ x.captures.toList = f.captures.toList ++ (List.zipWith capturePair entries ns).flatten

/-- **The rewriting of `f` for `n` that comes after `k` others,** and what `x`
captures in its slots: its own entry point and adapter. -/
structure Function.HasLayer (registry : RegistryId) (f x : Function Value) (k : Nat)
    (n : Native Value) (slots : CaptureSlots) : Prop where
  entry : slots.entry.toNat = f.captures.size + 2 * k
  adapter : slots.adapter.toNat = f.captures.size + 2 * k + 1
  rewriting : ∃ before after, f.rewritten k = .ok before ∧ f.rewritten (k + 1) = .ok after
    ∧ Nonempty (Layout slots before.code after.code)
  keeps : x.Keeps slots registry n

/-- **`x` is `f` with a layer for each of `ns`,** the first one innermost.  If
the body of `f` has no marks, all layers are recognised in the body of `x`. -/
structure Function.LayeredBy (registry : RegistryId) (ns : List (Native Value))
    (f x : Function Value) : Prop where
  body : f.rewritten ns.length = .ok x.body
  captures : f.HasPairs registry ns x
  layers : ∀ (k : Nat) (n : Native Value), ns[k]? = some n →
    ∃ slots, f.HasLayer registry x k n slots
  stage : Unmarked f.body.code → Stage registry f ns x
  signature : x.signature = f.signature
  name : x.name = f.name
  scope : x.scope = f.scope
  defaults : x.defaults = f.defaults
  kwDefaults : x.kwDefaults = f.kwDefaults

namespace Function

variable {registry : RegistryId} {ns : List (Native Value)} {n : Native Value}
  {f x : Function Value} {k m : Nat} {body : Chunk Value}

/-- Rewritings that come before one that succeeds have succeeded. -/
theorem exists_rewritten (h : f.rewritten m = .ok body) (hk : k ≤ m) :
    ∃ before, f.rewritten k = .ok before := by
  induction hk generalizing body with
  | refl => exact ⟨body, h⟩
  | @step m _ ih =>
      simp only [rewritten] at h
      split at h
      · cases h
      · exact ih ‹_›

/-- **An instrumented copy has the next rewriting of the body.** -/
theorem rewritten_succ (hbody : f.rewritten k = .ok x.body) (hsignature : x.signature = f.signature)
    (hcaptures : x.captures.size = f.captures.size + 2 * k) :
    f.rewritten (k + 1) = x.instrumentedBody := by
  simp only [rewritten, hbody, ← hcaptures, ← hsignature]
  rfl

/-- The pairs behind the captures. -/
theorem length_capturePairs {entries : List (Native Value)} (h : entries.length = ns.length) :
    ((List.zipWith capturePair entries ns).flatten).length = 2 * ns.length := by
  induction entries generalizing ns with
  | nil =>
      rw [← h]
      rfl
  | cons entry entries ih =>
      cases ns with
      | nil => cases h
      | cons n ns =>
          have hrest := ih (Nat.succ.inj h)
          rw [List.zipWith_cons_cons, List.flatten_cons, List.length_append, hrest,
            List.length_cons]
          show 2 + _ = _
          omega

theorem HasPairs.size (h : f.HasPairs registry ns x) :
    x.captures.size = f.captures.size + 2 * ns.length := by
  obtain ⟨entries, hlength, -, hcaptures⟩ := h
  rw [← Array.length_toList, hcaptures, List.length_append, length_capturePairs hlength,
    Array.length_toList]

/-- A copy captures one pair more. -/
theorem HasPairs.next (h : f.HasPairs registry ns x) (body : Chunk Value) (w : World σ) :
    f.HasPairs registry (ns ++ [n]) (x.copyIn registry n body w) := by
  obtain ⟨entries, hlength, hentries, hcaptures⟩ := h
  refine ⟨entries ++ [⟨⟨w.nextObject⟩, entryPointName, .entryPoint registry⟩], ?_, ?_, ?_⟩
  · rw [List.length_append, List.length_append, hlength]
    rfl
  · intro entry hentry
    rcases List.mem_append.mp hentry with hearlier | hnew
    · exact hentries entry hearlier
    · rw [List.mem_singleton.mp hnew]
      exact ⟨rfl, rfl⟩
  · rw [List.zipWith_append hlength, List.flatten_append, ← List.append_assoc, ← hcaptures]
    show ((x.captures.push _).push _).toList = _
    rw [Array.toList_push, Array.toList_push, List.append_assoc]
    rfl

/-- What is rewritten next is the body of the copy. -/
theorem LayeredBy.rewritten_succ (h : f.LayeredBy registry ns x) :
    f.rewritten (ns.length + 1) = x.instrumentedBody :=
  Function.rewritten_succ h.body h.signature h.captures.size

/-- No layer. -/
theorem LayeredBy.start (registry : RegistryId) (f : Function Value) :
    f.LayeredBy registry [] f where
  body := rfl
  captures := ⟨[], rfl, by simp, by simp⟩
  layers := by simp
  stage := fun _ => .start
  signature := rfl
  name := rfl
  scope := rfl
  defaults := rfl
  kwDefaults := rfl

/-- An earlier layer is kept by a copy. -/
theorem HasLayer.copied {earlier : Native Value} {slots slots' : CaptureSlots}
    {x' : Function Value} (h : f.HasLayer registry x k earlier slots)
    (hcopied : x.Copied slots' registry n x') :
    f.HasLayer registry x' k earlier slots :=
  ⟨h.entry, h.adapter, h.rewriting, h.keeps.of_copied hcopied⟩

/-- The layer that a copy adds. -/
theorem LayeredBy.hasLayer (h : f.LayeredBy registry ns x) {slots : CaptureSlots}
    {x' : Function Value} (hslots : x.freshSlots? = some slots)
    (hcopied : x.Copied slots registry n x') (hbody : x.instrumentedBody = .ok x'.body) :
    f.HasLayer registry x' ns.length n slots := by
  obtain ⟨hentry, hadapter⟩ := CaptureSlots.behind?_eq_some hslots
  rw [h.captures.size] at hentry hadapter
  exact ⟨hentry, hadapter, ⟨x.body, x'.body, h.body, h.rewritten_succ.trans hbody,
    hcopied.layout⟩, hcopied.keeps⟩

/-- **One layer more.** -/
theorem LayeredBy.next (h : f.LayeredBy registry ns x) (hbody : x.instrumentedBody = .ok body)
    (w : World σ) : f.LayeredBy registry (ns ++ [n]) (x.copyIn registry n body w) := by
  obtain ⟨slots, hslots⟩ := exists_freshSlots hbody
  have hcopied : x.Copied slots registry n (x.copyIn registry n body w) :=
    copied_freshSlots hslots hbody w
  refine ⟨?_, h.captures.next body w, ?_, fun hmarks => (h.stage hmarks).next hmarks hbody w,
    hcopied.signature.trans h.signature, h.name, h.scope, h.defaults, h.kwDefaults⟩
  · rw [List.length_append]
    exact h.rewritten_succ.trans hbody
  · intro k m hm
    by_cases hk : k < ns.length
    · rw [List.getElem?_append_left hk] at hm
      obtain ⟨earlier, hlayer⟩ := h.layers k m hm
      exact ⟨earlier, hlayer.copied hcopied⟩
    · -- it is the layer of the copy itself
      obtain ⟨hlast, rfl⟩ : k = ns.length ∧ n = m := by
        rw [List.getElem?_append_right (Nat.le_of_not_lt hk)] at hm
        obtain ⟨hzero, hsame⟩ := List.getElem?_eq_some_iff.mp hm
        rw [List.length_singleton] at hzero
        exact ⟨by omega, by simpa using hsame⟩
      rw [hlast]
      exact ⟨slots, h.hasLayer hslots hcopied hbody⟩

end Function

/-! ## §3. Host functions that give their argument back. -/

/-- Only functions that have been made are gone; so a new one is alive. -/
def World.Sound (w : World σ) : Prop :=
  ∀ id ∈ w.dropped, id.number < w.nextFunction

/-- A function that has just been made is alive. -/
theorem World.Sound.isLive_next {w : World σ} (h : w.Sound) : w.isLive ⟨w.nextFunction⟩ = true := by
  unfold World.isLive
  rw [Bool.not_eq_true', ← Bool.not_eq_true, List.contains_iff_mem]
  exact fun hmem => absurd (h _ hmem) (Nat.lt_irrefl _)

theorem World.Sound.freshFunction {w : World σ} (h : w.Sound) : w.freshFunction.2.Sound :=
  fun id hid => Nat.lt_succ_of_lt (h id hid)

/-- Whether an event is an application of one of the host functions. -/
def Event.applies (ns : List (Native Value)) : Event → Bool
  | .applied n _ => (ns.map Native.id).contains n.id
  | .called _ => false

theorem Event.applies_of_mem {ns : List (Native Value)} {n : Native Value} (h : n ∈ ns)
    (args : CallArgs) : (Event.applied n args).applies ns = true := by
  show (ns.map Native.id).contains n.id = true
  rw [List.contains_iff_mem]
  exact List.mem_map_of_mem h

namespace Watched

/-- **A host function that gives the function that it is applied to back.** It
may do whatever it likes before, in the world and by calls of its own, as long
as the function stays alive and none of `ns` is applied. -/
structure GivesBack (host : Host σ) (carried : FunctionId → Bool) (vs : List Value)
    (fs : List Frame) (st : Settings) (flags : List Bool) (ns : List (Native Value))
    (n : Native Value) : Prop where
  role : n.role = .host
  -- it is applied in several worlds, and over whatever the decoration leaves waiting
  answer : ∀ (pending : List (Pending σ)) (g : Function Value) (w : World σ), w.Sound →
    w.isLive g.id = true → ∃ evs w',
      Passes host carried
        ⟨⟨.action (host n.id (.one (.function g))), pending, .of vs fs st w⟩, flags⟩ evs
        ⟨⟨.answer (.ok (.function g)), pending, .of vs fs st w'⟩, flags⟩
      ∧ w'.Sound ∧ w'.isLive g.id = true ∧ ∀ e ∈ evs, e.applies ns = false

section Giving

variable {host : Host σ} {carried : FunctionId → Bool} {registry : RegistryId}
  {pending : List (Pending σ)} {vs : List Value} {fs : List Frame} {st : Settings} {w : World σ}
  {flags : List Bool} {ns : List (Native Value)} {n : Native Value}

theorem GivesBack.respond (hn : GivesBack host carried vs fs st flags ns n) (args : CallArgs) :
    n.respond host args = host n.id args := by
  unfold Native.respond
  rw [hn.role]

theorem givesBack_of_echoes (hn : host.Echoes n) :
    GivesBack host carried vs fs st flags ns n where
  role := hn.role
  answer := by
    intro pending g w hsound hlive
    rw [hn.answer]
    exact ⟨[], w, passes_done, hsound, hlive, by simp⟩

/-- The ready-made host function that answers its argument gives it back,
whether or not its calls are noted. -/
theorem givesBack_of_identity {stock : Dict ObjectId Stocked} {name : String} {quiet : Bool}
    {carried : FunctionId → Bool} {ns : List (Native Value)} (hrole : n.role = .host)
    (hstock : Dict.get? stock n.id = some ⟨name, quiet, .identity⟩) :
    GivesBack (Host.ofStock stock) carried vs fs st flags ns n where
  role := hrole
  answer := by
    intro pending g w hsound hlive
    have hresponse : Host.ofStock stock n.id (.one (.function g))
        = Stocked.respond ⟨name, quiet, .identity⟩ (.one (.function g)) := by
      unfold Host.ofStock
      rw [hstock]
    rw [hresponse]
    cases quiet with
    | true => exact ⟨[], w, passes_done, hsound, hlive, by simp⟩
    | false =>
        exact ⟨[], _, passes_read.silent (passes_write.silent passes_done), hsound, hlive,
          by simp⟩

/-- **A decoration by such a host function** of a function that is eligible:
it is applied once, to the copy, and the copy comes back with the history that
was planned. -/
theorem GivesBack.decorates (hn : GivesBack host carried vs fs st flags ns n) (hmem : n ∈ ns)
    (hsound : w.Sound) {g : Function Value} {body : Chunk Value}
    (h : (w.registry registry).isEligible (.function g) n.name = true)
    (hbody : g.instrumentedBody = .ok body) (pending : List (Pending σ))
    (k : Except RunError Value → Action σ Value) :
    ∃ evs w', Passes host carried
        ⟨⟨.action ((decorate registry (.function g) (plainAdapter n)).handle k), pending,
          .of vs fs st w⟩, flags⟩ evs
        ⟨⟨.action (k (.ok (.function (g.copyIn registry n body w)))), pending,
          .of vs fs st w'⟩, flags⟩
      ∧ w'.Sound
      ∧ (w'.registry registry).historyOf (g.copyIn registry n body w).id
        = ((w.registry registry).historyOf g.id).extend n.name
      ∧ evs.filter (Event.applies ns)
        = [.applied n (.one (.function (g.copyIn registry n body w)))] := by
  -- the history is planned before the application, from the world as it is then
  let history := ((w.registry registry).historyOf g.id).extend n.name
  have hnew : (w.newEntryPoint registry).2.Sound := hsound
  obtain ⟨evs, w', hanswer, hsound', hlive, hspared⟩ :=
    hn.answer (.host (settle registry history k) :: pending) (g.copyIn registry n body w)
      (w.newEntryPoint registry).2.freshFunction.2 hnew.freshFunction hnew.isLive_next
  rw [← hn.respond] at hanswer
  refine ⟨_, _, (passes_application h hbody k).trans (hanswer.then_silent (passes_settle _ _ k)),
    hsound', ?_, ?_⟩
  · -- what the host function did to the history of the copy is overwritten
    rw [World.historyOf_recordHistory hlive, if_pos ⟨rfl, rfl⟩]
  · have hnone : evs.filter (Event.applies ns) = [] :=
      List.filter_eq_nil_iff.mpr fun e he => by simp [hspared e he]
    rw [Native.noted_host hn.role, List.singleton_append,
      List.filter_cons_of_pos (Event.applies_of_mem hmem _), hnone]

end Giving

end Watched

/-! ## §4. Decorations in turn. -/

/-- **Decorates a value by one host function after the other.** -/
def decorateInTurn (registry : RegistryId) : List (Native Value) → Value → Action σ Value
  | [], v => .done (.ok v)
  | n :: ns, v => (decorate registry v (plainAdapter n)).bind (decorateInTurn registry ns)

/-- Decorating and calling is calling what decorating in turn makes. -/
theorem decorateAndCall_eq_bind (registry : RegistryId) (args : CallArgs)
    (ns : List (Native Value)) (v : Value) :
    (decorateAndCall registry args ns v : Action σ Value)
      = (decorateInTurn registry ns v).bind fun x => Action.callValue x args := by
  induction ns generalizing v with
  | nil => rfl
  | cons n ns ih =>
      unfold decorateAndCall decorateInTurn
      rw [Action.bind_assoc]
      exact congrArg _ (funext ih)

/-- **What decorating `f` by `done` has made,** of a sequence `ns`: a function
`x` with a layer for each distinct name, which are its history, by applying
each host function once, at the first occurrence of its name. -/
structure DecoratedInTurn (registry : RegistryId) (ns done : List (Native Value))
    (f x : Function Value) (w : World σ) (evs : List Event) : Prop where
  layered : f.LayeredBy registry (firsts done) x
  history : (w.registry registry).historyOf x.id = ⟨(done.map Native.name).eraseDups⟩
  sound : w.Sound
  -- each copy is made of the one before, and the last one has come back
  applications : ∃ copies : List (Function Value), copies.length = (firsts done).length
    ∧ copies.getLastD f = x
    ∧ evs.filter (Event.applies ns)
      = List.zipWith (fun n copy => .applied n (.one (.function copy))) (firsts done) copies

namespace DecoratedInTurn

variable {registry : RegistryId} {ns done : List (Native Value)} {n : Native Value}
  {f x : Function Value} {w : World σ} {evs : List Event}

/-- Whether a host function is eligible is whether its name is new. -/
theorem isEligible_iff (h : DecoratedInTurn registry ns done f x w evs)
    (n : Native Value) : (w.registry registry).isEligible (.function x) n.name = true
      ↔ n.name ∉ done.map Native.name := by
  show (!((w.registry registry).historyOf x.id).contains n.name) = true ↔ _
  rw [h.history, Bool.not_eq_true', ← Bool.not_eq_true]
  show ¬ (((done.map Native.name).eraseDups).contains n.name = true) ↔ _
  rw [List.contains_iff_mem, List.mem_eraseDups]

/-- A name that comes again adds nothing to what has been made. -/
theorem repeated (h : DecoratedInTurn registry ns done f x w evs)
    (hn : n.name ∈ done.map Native.name) : DecoratedInTurn registry ns (done ++ [n]) f x w evs := by
  have hfirsts : firsts (done ++ [n]) = firsts done := firsts_repeated hn
  refine ⟨?_, ?_, h.sound, ?_⟩
  · rw [hfirsts]
    exact h.layered
  · rw [← firsts_names, hfirsts, firsts_names]
    exact h.history
  · rw [hfirsts]
    exact h.applications

end DecoratedInTurn

namespace Watched

/-- **Decorations of `f` by `ns` stack up:** at every point of the sequence
they have made what the distinct names before it make, and a name that comes
again changes neither the function nor the world. -/
structure Stacks (host : Host σ) (carried : FunctionId → Bool) (registry : RegistryId)
    (ns : List (Native Value)) (f : Function Value) (pending : List (Pending σ))
    (vs : List Value) (fs : List Frame) (st : Settings) (w : World σ) (flags : List Bool) :
    Prop where
  along : ∀ done rest, ns = done ++ rest → ∃ x w' evs,
    Passes host carried
      ⟨⟨.action (decorateInTurn registry ns (.function f)), pending, .of vs fs st w⟩, flags⟩ evs
      ⟨⟨.action (decorateInTurn registry rest (.function x)), pending, .of vs fs st w'⟩, flags⟩
    ∧ DecoratedInTurn registry ns done f x w' evs
    ∧ ∀ n later, rest = n :: later → n.name ∈ done.map Native.name → Passes host carried
      ⟨⟨.action (decorateInTurn registry rest (.function x)), pending, .of vs fs st w'⟩, flags⟩ []
      ⟨⟨.action (decorateInTurn registry later (.function x)), pending, .of vs fs st w'⟩, flags⟩
  ending : ∃ x w' evs,
    Passes host carried
      ⟨⟨.action (decorateInTurn registry ns (.function f)), pending, .of vs fs st w⟩, flags⟩ evs
      ⟨⟨.answer (.ok (.function x)), pending, .of vs fs st w'⟩, flags⟩
    ∧ DecoratedInTurn registry ns ns f x w' evs

section Stacking

variable {host : Host σ} {carried : FunctionId → Bool} {registry : RegistryId}
  {pending : List (Pending σ)} {vs : List Value} {fs : List Frame} {st : Settings}
  {w w' : World σ} {flags : List Bool} {ns done later : List (Native Value)} {n : Native Value}
  {f x : Function Value} {evs : List Event} {body : Chunk Value}

/-- The decoration at the front of a sequence. -/
theorem decorateInTurn_cons (v : Value) : (decorateInTurn registry (n :: ns) v : Action σ Value)
    = (decorate registry v (plainAdapter n)).handle
        fun r => (Action.done r).bind (decorateInTurn registry ns) :=
  Action.bind_eq_handle _ _

/-- **A name that comes again** changes nothing. -/
theorem passes_repeated (h : DecoratedInTurn registry ns done f x w evs)
    (hn : n.name ∈ done.map Native.name) :
    Passes host carried
      ⟨⟨.action (decorateInTurn registry (n :: later) (.function x)), pending, .of vs fs st w⟩,
        flags⟩ []
      ⟨⟨.action (decorateInTurn registry later (.function x)), pending, .of vs fs st w⟩,
        flags⟩ := by
  have hkept : (w.registry registry).isEligible (.function x) n.name = false := by
    rw [← Bool.not_eq_true, h.isEligible_iff, not_not]
    exact hn
  rw [decorateInTurn_cons]
  exact passes_kept hkept _

/-- **A new name** adds a layer. -/
theorem passes_new (hn : GivesBack host carried vs fs st flags ns n) (hmem : n ∈ ns)
    (h : DecoratedInTurn registry ns done f x w evs) (hnew : n.name ∉ done.map Native.name)
    (hbody : f.rewritten ((firsts done).length + 1) = .ok body) :
    ∃ x' w' evs', Passes host carried
        ⟨⟨.action (decorateInTurn registry (n :: later) (.function x)), pending, .of vs fs st w⟩,
          flags⟩ evs'
        ⟨⟨.action (decorateInTurn registry later (.function x')), pending, .of vs fs st w'⟩, flags⟩
      ∧ DecoratedInTurn registry ns (done ++ [n]) f x' w' (evs ++ evs') := by
  have hinstrumented : x.instrumentedBody = .ok body := h.layered.rewritten_succ.symm.trans hbody
  obtain ⟨evs', w', hpasses, hsound, hhistory, happlied⟩ :=
    hn.decorates hmem h.sound ((h.isEligible_iff n).mpr hnew) hinstrumented pending
      fun r => (Action.done r).bind (decorateInTurn registry later)
  have hfirsts : firsts (done ++ [n]) = firsts done ++ [n] := firsts_new hnew
  rw [decorateInTurn_cons]
  refine ⟨_, w', evs', hpasses, ?_, ?_, hsound, ?_⟩
  · rw [hfirsts]
    exact h.layered.next hinstrumented w
  · rw [hhistory, h.history, ← firsts_names, ← firsts_names, hfirsts, List.map_append]
    rfl
  · obtain ⟨copies, hlength, -, hevs⟩ := h.applications
    refine ⟨copies ++ [x.copyIn registry n body w], ?_, ?_, ?_⟩
    · rw [hfirsts, List.length_append, List.length_append, hlength]
      rfl
    · exact List.getLastD_concat
    · rw [List.filter_append, hevs, happlied, hfirsts, List.zipWith_append hlength.symm]
      rfl

/-- **The decorations so far,** by induction on how many there are. -/
theorem passes_inTurn (hns : ∀ n ∈ ns, GivesBack host carried vs fs st flags ns n)
    (hempty : (w.registry registry).historyOf f.id = .empty) (hsound : w.Sound)
    (hbody : f.rewritten (firsts ns).length = .ok body) (hsplit : ns = done ++ later) :
    ∃ x w' evs, Passes host carried
        ⟨⟨.action (decorateInTurn registry ns (.function f)), pending, .of vs fs st w⟩, flags⟩ evs
        ⟨⟨.action (decorateInTurn registry later (.function x)), pending, .of vs fs st w'⟩, flags⟩
      ∧ DecoratedInTurn registry ns done f x w' evs := by
  induction done using List.reverseRecOn generalizing later with
  | nil =>
      subst hsplit
      exact ⟨f, w, [], Passes.refl _, Function.LayeredBy.start registry f, hempty, hsound,
        [], rfl, rfl, rfl⟩
  | append_singleton done n ih =>
      have hmem : n ∈ ns := by simp [hsplit]
      obtain ⟨x, w₁, evs, hpasses, hx⟩ := ih (hsplit.trans (List.append_assoc done [n] later))
      by_cases hname : n.name ∈ done.map Native.name
      · exact ⟨x, w₁, evs, hpasses.then_silent (passes_repeated hx hname), hx.repeated hname⟩
      · -- the rewriting that is needed comes before the last one, or is it
        have hle : (firsts done).length + 1 ≤ (firsts ns).length := by
          have hlength := firsts_length_le (done ++ [n]) later
          rw [← hsplit, firsts_new hname, List.length_append] at hlength
          exact hlength
        obtain ⟨layer, hlayer⟩ := Function.exists_rewritten hbody hle
        obtain ⟨x', w₂, evs', hnext, hx'⟩ := passes_new (hns n hmem) hmem hx hname hlayer
        exact ⟨x', w₂, evs ++ evs', hpasses.trans hnext, hx'⟩

end Stacking

/-- **Decorations in turn are idempotent for each name.** -/
theorem stacks_of_givesBack {host : Host σ} {carried : FunctionId → Bool} {registry : RegistryId}
    {ns : List (Native Value)} {f : Function Value} {vs : List Value} {fs : List Frame}
    {st : Settings} {w : World σ} {flags : List Bool}
    (hns : ∀ n ∈ ns, GivesBack host carried vs fs st flags ns n)
    (hempty : (w.registry registry).historyOf f.id = .empty) (hsound : w.Sound)
    (hrewrites : (f.rewritten (firsts ns).length).isOk = true) (pending : List (Pending σ)) :
    Stacks host carried registry ns f pending vs fs st w flags := by
  obtain ⟨body, hbody⟩ : ∃ body, f.rewritten (firsts ns).length = .ok body := by
    cases hbody : f.rewritten (firsts ns).length with
    | error e =>
        rw [hbody] at hrewrites
        cases hrewrites
    | ok body => exact ⟨body, rfl⟩
  constructor
  · intro done rest hsplit
    obtain ⟨x, w', evs, hpasses, hx⟩ := passes_inTurn hns hempty hsound hbody hsplit
    refine ⟨x, w', evs, hpasses, hx, ?_⟩
    rintro n later rfl hn
    exact passes_repeated hx hn
  · obtain ⟨x, w', evs, hpasses, hx⟩ := passes_inTurn hns hempty hsound hbody
      (List.append_nil ns).symm
    exact ⟨x, w', evs, hpasses.then_silent passes_done, hx⟩

/-- A host function that notes its calls, a quiet one, and another one under the
name of the first. -/
def repeatedNatives : List (Native Value) :=
  [⟨⟨0⟩, "a", .host⟩, ⟨⟨1⟩, "b", .host⟩, ⟨⟨2⟩, "a", .host⟩]

/-- What they do. -/
def repeatedStock : Dict ObjectId Stocked :=
  [(⟨0⟩, ⟨"a", false, .identity⟩), (⟨1⟩, ⟨"b", true, .identity⟩), (⟨2⟩, ⟨"a", false, .identity⟩)]

theorem stacks_of_givesBack_repeatedNatives :
    (callsGlobal.rewritten (firsts repeatedNatives).length).isOk = true
      ∧ Stacks (Host.ofStock repeatedStock) (fun _ => false) ⟨0⟩ repeatedNatives callsGlobal []
        [] [] .standard { World.new [] with nextFunction := 3, nextObject := 3 } [] := by
  have hrewrites : (callsGlobal.rewritten (firsts repeatedNatives).length).isOk = true := by
    decide +kernel
  refine ⟨hrewrites, stacks_of_givesBack ?_ rfl (fun id hid => by cases hid) hrewrites []⟩
  intro n hn
  obtain rfl | rfl | rfl : n = ⟨⟨0⟩, "a", .host⟩ ∨ n = ⟨⟨1⟩, "b", .host⟩
      ∨ n = ⟨⟨2⟩, "a", .host⟩ := by
    simpa [repeatedNatives] using hn
  · exact givesBack_of_identity rfl rfl
  · exact givesBack_of_identity rfl rfl
  · exact givesBack_of_identity rfl rfl

end Watched

end CallDecoration
