/-
  CallDecoration.Proofs.Decoration.Transparency
  ──────────────────────────────────────
  **Decorating is transparent.**  Decorated with a host function that answers
  its argument, a function ends as it ends without, and leaves the same
  bindings, if its calls are of values that can be decorated and the machine
  has room for five more values (`decorate_transparent`).
-/
import CallDecoration.Proofs.Decoration.Mirroring

namespace CallDecoration

open RunState

variable {σ : Type} {host : Host σ}

/-! ## §1. Both runs begin alike. -/

/-- The runs of a function and of what its decoration answers begin alike. -/
theorem mirrors_start (host : Host σ) {registry : RegistryId} {n : Native Value} {st st' : Settings}
    {w w' : World σ} {f : Function Value} {v : Value} (args : CallArgs)
    (hdepth : st'.maxCallDepth = st.maxCallDepth)
    (hcallee : CalleeMirrors registry n (.function f) v) (hscopes : w'.scopes = w.scopes) :
    Mirrors registry n st st' (ofCall host (.new st w) (.function f) args)
      (ofCall host (.of [] [] st' w') v args) := by
  have hbegin : ∀ g : Function Value,
      Machine.admission g args 0 st' = Machine.admission f args 0 st →
      (∀ locals, FrameMirrors registry n ⟨f, 0, 0, locals⟩ ⟨g, 0, 0, locals⟩) →
      Mirrors registry n st st' (activate f args ⟨.bytecode, [], .of [] [] st w⟩)
        (activate g args ⟨.bytecode, [], .of [] [] st' w'⟩) := by
    intro g hadmission hframe
    cases hslots : Machine.admission f args 0 st with
    | error e =>
        rw [hslots] at hadmission
        rw [activate_refused hslots, activate_refused hadmission]
        exact Mirrors.ended (SameError.refl e) hscopes
    | ok locals =>
        rw [hslots] at hadmission
        rw [activate_of hslots, activate_of hadmission]
        exact Mirrors.code (hframe locals) List.Forall₂.nil (Nat.zero_le _) hscopes
  cases hcallee with
  | same =>
      exact hbegin f (admission_limits hdepth f args 0) fun locals => FrameMirrors.same _
  | @copied _ g slots hcopied hcaptures =>
      obtain ⟨L⟩ := hcopied.layout
      refine hbegin g ?_ fun locals => FrameMirrors.copied hcopied hcaptures L L.carried_zero
      rw [Machine.admission_copied hcopied, admission_limits hdepth]

/-! ## §2. The main result. -/

/-- **Decorating is transparent.**  Let `n` answer its argument, and let each
call that `f` attempts on a fresh machine be of a permitted value.  If that
run ends, and not by an overflow of the value stack, then `f` can be decorated
on a machine with room for five more values, and what it is decorated to ends
there with the same result or the same error and leaves the same bindings in
every scope. -/
theorem decorate_transparent {n : Native Value} (hn : host.Echoes n) (registry : RegistryId)
    {f : Function Value} {args : CallArgs} {world : World σ} {st st' : Settings}
    (hroom : st.maxValueStack + 5 ≤ st'.maxValueStack)
    (hdepth : st'.maxCallDepth = st.maxCallDepth) (hf : Permitted host (.function f))
    (hcalls : ∀ t, Reaches host (ofCall host (.new st world) (.function f) args) t →
      ∀ callee, t.callee? = some callee → Permitted host callee)
    {fuel : Nat} {r : Except RunError Value} {m : Machine σ}
    (hrun : run host fuel (ofCall host (.new st world) (.function f) args) = some (r, m))
    (hr : r ≠ .error .valueStackOverflow) :
    ∃ fuel₁ v m₁,
      run host fuel₁
          (ofAction (.new st' world) (decorate registry (.function f) (plainAdapter n)))
        = some (.ok v, m₁)
      ∧ ∃ fuel₂ r' m₂, run host fuel₂ (ofCall host m₁ v args) = some (r', m₂)
        ∧ SameOutcome r r' ∧ ∀ scope, m₂.world.bindings scope = m.world.bindings scope := by
  obtain ⟨v, world', evs, hdec, hcallee⟩ := exists_decorates registry n hf world
  -- the decoration
  have hpasses : Watched.Passes host (fun _ => false)
      ⟨ofAction (.new st' world) (decorate registry (.function f) (plainAdapter n)), []⟩ evs
      ⟨⟨.answer (.ok v), [], .of [] [] st' world'⟩, []⟩ := by
    rw [← Action.handle_done (decorate registry (.function f) (plainAdapter n))]
    exact (Watched.passes_decorate hn hdec .done).then_silent Watched.passes_done
  obtain ⟨fuel₁, hdecorate⟩ := exists_run_iff.mpr hpasses.reaches
  refine ⟨fuel₁, v, _, hdecorate, ?_⟩
  -- the call
  have hstart := mirrors_start host args hdepth hcallee hdec.scopes
  obtain ⟨t, hreach, hmirrors⟩ :=
    mirrors_reaches hn hroom hdepth hcalls hstart (reaches_of_run hrun)
  cases hmirrors with
  | ended houtcome hscopes =>
      obtain ⟨fuel₂, hcall⟩ := exists_run_iff.mpr hreach
      refine ⟨fuel₂, _, _, hcall, houtcome, ?_⟩
      intro scope
      unfold World.bindings
      rw [hscopes]
  | overflowed => exact absurd rfl hr

/-! ## §3. A function that calls a global. -/

/-- The decorated call answers five as well. -/
theorem decorate_transparent_callsGlobal :
    ∃ fuel₁ v m₁,
      run echoHost fuel₁ (ofAction (.new ⟨7, 2, false⟩ boundWorld)
          (decorate ⟨0⟩ (.function callsGlobal) (plainAdapter ⟨⟨0⟩, "w", .host⟩)))
        = some (.ok v, m₁)
      ∧ ∃ fuel₂ r' m₂, run echoHost fuel₂ (ofCall echoHost m₁ v .none) = some (r', m₂)
        ∧ SameOutcome (.ok (.int 5)) r'
        ∧ ∀ scope, m₂.world.bindings scope = boundWorld.bindings scope := by
  have hfive : Permitted echoHost (.function answersFive) := by
    refine ⟨⟨_, rfl⟩, ?_⟩
    intro rows hrows offset index hmem
    have hbody : answersFive.body.instructions = .ok [(0, .pushSmall 5), (2, .return)] := rfl
    rw [hbody] at hrows
    cases hrows
    simp at hmem
  have hcalls : Permitted echoHost (.function callsGlobal) := by
    refine ⟨⟨_, rfl⟩, ?_⟩
    intro rows hrows offset index hmem
    have hbody : callsGlobal.body.instructions
        = .ok [(0, .loadGlobal 0), (3, .call (CallShape.plain 0)), (6, .return)] := rfl
    rw [hbody] at hrows
    cases hrows
    simp at hmem
  have hrun : run echoHost 9 (ofCall echoHost (.new ⟨2, 2, false⟩ boundWorld)
      (.function callsGlobal) .none) = some (.ok (.int 5), .new ⟨2, 2, false⟩ boundWorld) := rfl
  have hechoes : echoHost.Echoes ⟨⟨0⟩, "w", .host⟩ := ⟨rfl, fun _ => rfl⟩
  have hroom : (⟨2, 2, false⟩ : Settings).maxValueStack + 5
      ≤ (⟨7, 2, false⟩ : Settings).maxValueStack := Nat.le_refl 7
  have hdepth : (⟨7, 2, false⟩ : Settings).maxCallDepth
      = (⟨2, 2, false⟩ : Settings).maxCallDepth := rfl
  refine decorate_transparent hechoes ⟨0⟩ hroom hdepth hcalls ?_ hrun (by intro h; cases h)
  intro t hreach callee hcallee
  have hmem := mem_attempted_of_run hrun hreach hcallee
  have hattempted : attempted echoHost 9 (ofCall echoHost (.new ⟨2, 2, false⟩ boundWorld)
      (.function callsGlobal) .none) = [.function answersFive] := rfl
  rw [hattempted, List.mem_singleton] at hmem
  rw [hmem]
  exact hfive

end CallDecoration
