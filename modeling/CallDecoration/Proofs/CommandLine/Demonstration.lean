/-
  CallDecoration.Proofs.CommandLine.Demonstration
  ──────────────────────────────────────
  **What the demonstration prints, for all lengths and limits.**  It succeeds
  exactly if every link can be running at once and the stack has room for six
  values, or for one if no link calls another.  Then every link is wrapped
  once, in the order of the chain (`succeeded`).  Otherwise it ends with the
  error of the limit that is met first, after the links that were reached
  (`failedAfter`).
-/
import CallDecoration.CommandLine.Program
import CallDecoration.Proofs.CommandLine.Chain

namespace CallDecoration.Demo

/-! ## §1. Texts. -/

/-- The line about a wrapped link. -/
def wrappingLine (index : Nat) : String :=
  "  [" ++ Text.decimal (index + 1) ++ "] wrapping " ++ linkName index ++ "\n"

/-- The lines about the links from `start` on and before `stop`. -/
def wrappingLines (start stop : Nat) : String :=
  String.join ((List.range' start (stop - start)).map wrappingLine)

theorem applicationLines_linkNames (start stop : Nat) :
    applicationLines start (linkNames stop) = wrappingLines start stop := by
  unfold applicationLines wrappingLines
  congr 1
  refine List.ext_getElem ?_ fun i h _ => ?_
  · simp [linkNames]
  · simp [linkNames, applicationLine, wrappingLine]

/-- What is printed until the chain is called: the first link has been
wrapped. -/
def opening (depth : Nat) (disassemble : Bool) : String :=
  "Decorating link_0:\n" ++ wrappingLines 0 1
    ++ listingText disassemble (.function (wrapped depth 0)) ++ "Running link_0:\n"

theorem opening_eq (depth : Nat) (disassemble : Bool) :
    opening depth disassemble
      = "Decorating " ++ linkName 0 ++ ":\n" ++ wrappingLines 0 1
        ++ listingText disassemble (.function (wrapped depth 0)) ++ "Running " ++ linkName 0
        ++ ":\n" := by
  have hdecorating : "Decorating link_0:\n" = "Decorating " ++ linkName 0 ++ ":\n" := by
    decide +kernel
  have hrunning : "Running link_0:\n" = "Running " ++ linkName 0 ++ ":\n" := by decide +kernel
  unfold opening
  rw [hdecorating, hrunning]
  simp only [String.append_assoc]

/-- **The output when the chain has answered:** every link has been wrapped, and
the result is the length. -/
def succeeded (depth : Nat) (disassemble : Bool) : Output :=
  ⟨0, opening depth disassemble ++ wrappingLines 1 depth
    ++ ("\nresult:       " ++ Text.decimal depth ++ "\napplications: " ++ Text.decimal depth
      ++ "\nhistory:      [count_calls]\n"), ""⟩

/-- **The output when the chain has failed** after `count` links have been
wrapped. -/
def failedAfter (count depth : Nat) (disassemble : Bool) (e : RunError) : Output :=
  ⟨1, opening depth disassemble ++ wrappingLines 1 count, "Error: " ++ e.message ++ "\n"⟩

/-- The answer of a chain is shown as its length. -/
theorem display_answer {depth : Nat} (hdepth : depth ≤ 127) :
    (answer depth).display = Text.decimal depth := by
  have hint : (Int8.ofNat depth).toInt64.toInt = depth := by
    rw [Int8.toInt_toInt64, Int8.toInt_ofNat_of_lt (by omega)]
  show Text.decimal (Int8.ofNat depth).toInt64.toInt = _
  rw [hint]

theorem resultLines_wrapped {depth : Nat} {w : World (List String)} (hpositive : 0 < depth)
    (hdepth : depth ≤ 127) (hw : WrappedTo depth depth w) :
    resultLines registry (.function (wrapped depth 0)) (answer depth) w
      = "\nresult:       " ++ Text.decimal depth ++ "\napplications: " ++ Text.decimal depth
        ++ "\nhistory:      [count_calls]\n" := by
  have hhistory := hw.marked hpositive
  unfold resultLines
  dsimp only
  rw [display_answer hdepth, hhistory, hw.logged, length_linkNames]
  simp only [String.append_assoc]
  rfl

/-! ## §2. The two calls. -/

section Runs

variable {settings : Settings} {depth : Nat} (disassemble : Bool)

/-- **The first call wraps the first link,** whatever the limits are. -/
theorem run_opening (settings : Settings) (hpositive : 0 < depth) :
    ∃ w, WrappedTo depth 1 w
      ∧ run settings depth disassemble
        = runDecorated depth registry (opening depth disassemble) (.function (wrapped depth 0))
            (.of [] [] settings w) := by
  obtain ⟨w, hw, hsetup⟩ := setup_eq settings hpositive
  refine ⟨_, hw.next hpositive, ?_⟩
  have hcall := call_decorator settings hpositive hw
  have hlogged : applicationLines 0 (Machine.of [] [] settings
      (wrapping (link depth 0) (wrapped depth 0) w.freshObject.2)).world.host
        = wrappingLines 0 1 := by
    show applicationLines 0 (wrapping (link depth 0) (wrapped depth 0) w.freshObject.2).host = _
    rw [(hw.next hpositive).logged, applicationLines_linkNames]
  have hmachine : Machine.new settings w.freshObject.2 = .of [] [] settings w.freshObject.2 := rfl
  unfold run
  rw [hsetup]
  dsimp only
  rw [hmachine, hcall]
  dsimp only
  rw [hlogged, opening_eq]

variable {w : World (List String)} {m : Machine (List String)}

theorem runDecorated_answered (hpositive : 0 < depth) (hdepth : depth ≤ 127)
    (hw : WrappedTo depth 1 w) (hm : WrappedTo depth depth m.world)
    (hcall : call depth (.of [] [] settings w) (.function (wrapped depth 0)) .none
      = some (.ok (answer depth), m)) :
    runDecorated depth registry (opening depth disassemble) (.function (wrapped depth 0))
      (.of [] [] settings w) = succeeded depth disassemble := by
  have hbefore : (Machine.of [] [] settings w).world.host.length = 1 := hw.length_logged
  unfold runDecorated
  rw [hbefore, hcall]
  dsimp only
  rw [hm.logged, applicationLines_linkNames, resultLines_wrapped hpositive hdepth hm]
  rfl

theorem runDecorated_failed {e : RunError} {count : Nat} (hw : WrappedTo depth 1 w)
    (hm : WrappedTo depth count m.world)
    (hcall : call depth (.of [] [] settings w) (.function (wrapped depth 0)) .none
      = some (.error e, m)) :
    runDecorated depth registry (opening depth disassemble) (.function (wrapped depth 0))
      (.of [] [] settings w) = failedAfter count depth disassemble e := by
  have hbefore : (Machine.of [] [] settings w).world.host.length = 1 := hw.length_logged
  unfold runDecorated
  rw [hbefore, hcall]
  dsimp only
  rw [hm.logged, applicationLines_linkNames]
  rfl

/-! ## §3. The demonstration. -/

variable (hpositive : 0 < depth)

include hpositive

theorem run_succeeded (hlength : depth ≤ 127) (hdepth : depth ≤ settings.maxCallDepth)
    (hroom : 6 ≤ settings.maxValueStack ∨ depth = 1 ∧ 1 ≤ settings.maxValueStack) :
    run settings depth disassemble = succeeded depth disassemble := by
  obtain ⟨w, hw, hrun⟩ := run_opening disassemble settings hpositive
  obtain ⟨m, hcall, hm⟩ := call_wrapped_answers hw hpositive hdepth hroom
  exact hrun.trans (runDecorated_answered disassemble hpositive hlength hw hm hcall)

theorem run_tooDeep (hdepth : settings.maxCallDepth < depth)
    (hroom : 6 ≤ settings.maxValueStack ∨ settings.maxCallDepth = 0) :
    run settings depth disassemble
      = failedAfter (settings.maxCallDepth + 1) depth disassemble
          (.callDepthExceeded settings.maxCallDepth) := by
  obtain ⟨w, hw, hrun⟩ := run_opening disassemble settings hpositive
  obtain ⟨m, hcall, hm⟩ := call_wrapped_tooDeep hw hdepth hroom
  exact hrun.trans (runDecorated_failed disassemble hw hm hcall)

theorem run_overflows (hdepth : 0 < settings.maxCallDepth)
    (hfull : settings.maxValueStack < 1 ∨ 1 < depth ∧ settings.maxValueStack < 6) :
    run settings depth disassemble = failedAfter 1 depth disassemble .valueStackOverflow := by
  obtain ⟨w, hw, hrun⟩ := run_opening disassemble settings hpositive
  obtain ⟨m, hcall, hm⟩ := call_wrapped_overflows hw hpositive hdepth hfull
  exact hrun.trans (runDecorated_failed disassemble hw hm hcall)

end Runs

/-! ## §4. Lengths that the command line accepts. -/

/-- **A length of the chain that the command line accepts.** -/
def Accepted (depth : Nat) : Prop :=
  ∃ text, CommandLine.readDepth text = .ok depth

/-- **These are the lengths from 1 to 127.** -/
theorem accepted_iff {depth : Nat} : Accepted depth ↔ 1 ≤ depth ∧ depth ≤ 127 := by
  constructor
  · rintro ⟨text, hread⟩
    unfold CommandLine.readDepth at hread
    split at hread
    · cases hread
    · split at hread
      case isTrue hrange =>
        cases hread
        exact hrange
      case isFalse => cases hread
  · rintro ⟨hpositive, hlength⟩
    -- each of them is read from its own text
    have hread : ∀ n : Fin 128, 1 ≤ n.val →
        CommandLine.readDepth (Text.decimal n.val) = .ok n.val := by decide +kernel
    exact ⟨Text.decimal depth, hread ⟨depth, by omega⟩ hpositive⟩

/-- **Arguments give an accepted length,** whether they name one or not. -/
theorem accepted_of_parse {args : List String} {before after : CommandLine.Options}
    (h : CommandLine.parse before args = .ok (.demo after)) (hbefore : Accepted before.depth) :
    Accepted after.depth := by
  fun_induction CommandLine.parse before args with
  | case1 options =>
      cases h
      exact hbefore
  | case6 options text rest n hread ih => exact ih h ⟨text, hread⟩
  | case3 options file rest ih => exact ih h hbefore
  | case9 options rest _ _ _ _ _ _ ih => exact ih h hbefore
  | case10 options rest _ _ _ _ _ _ _ ih => exact ih h hbefore
  | _ => cases h

/-! ## §5. The laws of the demonstration. -/

/-- **What the demonstration does,** for every length of the chain that the command
line accepts and all settings. -/
structure ChainLaws : Prop where
  /-- It succeeds exactly if the limits allow it. -/
  exits : ∀ depth settings disassemble, Accepted depth →
    ((run settings depth disassemble).code = 0
      ↔ depth ≤ settings.maxCallDepth
        ∧ (6 ≤ settings.maxValueStack ∨ depth = 1 ∧ 1 ≤ settings.maxValueStack))
  /-- Then all links have been wrapped in their order, and the result, the number of
  applications and the history are reported. -/
  reports : ∀ depth settings disassemble, Accepted depth →
    (run settings depth disassemble).code = 0 →
    run settings depth disassemble = succeeded depth disassemble
  /-- If the chain is too deep, one link more has been wrapped than could be
  running. -/
  tooDeep : ∀ depth settings disassemble, Accepted depth →
    6 ≤ settings.maxValueStack ∨ settings.maxCallDepth = 0 → settings.maxCallDepth < depth →
    run settings depth disassemble
      = failedAfter (settings.maxCallDepth + 1) depth disassemble
          (.callDepthExceeded settings.maxCallDepth)
  /-- In all other cases the stack is too low, and only the first link has been
  wrapped. -/
  overflows : ∀ depth settings disassemble, Accepted depth → 0 < settings.maxCallDepth →
    settings.maxValueStack < 1 ∨ 1 < depth ∧ settings.maxValueStack < 6 →
    run settings depth disassemble = failedAfter 1 depth disassemble .valueStackOverflow
  /-- No two links have the same name. -/
  distinct : ∀ depth, (linkNames depth).Nodup
  /-- The lengths from 1 to 127 are accepted. -/
  accepts : ∀ depth, Accepted depth ↔ 1 ≤ depth ∧ depth ≤ 127
  /-- What the builder makes of the code of a link is its body. -/
  builds : ∀ depth index, (linkCode depth index).build = .ok (linkBody depth index)
  /-- This is what the program does with arguments that ask for the demonstration and
  settings that can be read, whatever reads them from the text of a file. -/
  commanded : ∀ ofText args read options settings,
    CommandLine.parse .standard args = .ok (.demo options) →
    CommandLine.settingsOf ofText options read = .ok settings →
    Accepted options.depth
      ∧ CommandLine.runWith ofText args read = run settings options.depth options.disassemble

theorem nodup_linkNames (depth : Nat) : (linkNames depth).Nodup :=
  List.nodup_range.map fun _ _ h => linkName_inj.mp h

/-- The exit code tells whether the limits allow the demonstration. -/
theorem run_code_iff {depth : Nat} (settings : Settings) (disassemble : Bool)
    (h : Accepted depth) :
    (run settings depth disassemble).code = 0
      ↔ depth ≤ settings.maxCallDepth
        ∧ (6 ≤ settings.maxValueStack ∨ depth = 1 ∧ 1 ≤ settings.maxValueStack) := by
  obtain ⟨hpositive, hlength⟩ := accepted_iff.mp h
  by_cases hallowed : depth ≤ settings.maxCallDepth
      ∧ (6 ≤ settings.maxValueStack ∨ depth = 1 ∧ 1 ≤ settings.maxValueStack)
  · rw [run_succeeded disassemble hpositive hlength hallowed.1 hallowed.2]
    exact iff_of_true rfl hallowed
  · refine iff_of_false ?_ hallowed
    by_cases hdeep : settings.maxCallDepth < depth
        ∧ (6 ≤ settings.maxValueStack ∨ settings.maxCallDepth = 0)
    · rw [run_tooDeep disassemble hpositive hdeep.1 hdeep.2]
      exact Nat.one_ne_zero
    · rw [run_overflows disassemble hpositive (by omega) (by omega)]
      exact Nat.one_ne_zero

/-- **The demonstration succeeds exactly if the limits allow it.** -/
theorem chain_laws : ChainLaws where
  exits depth settings disassemble h := run_code_iff settings disassemble h
  reports depth settings disassemble h hcode := by
    obtain ⟨hpositive, hlength⟩ := accepted_iff.mp h
    obtain ⟨hdepth, hroom⟩ := (run_code_iff settings disassemble h).mp hcode
    exact run_succeeded disassemble hpositive hlength hdepth hroom
  tooDeep depth settings disassemble h hroom hdepth :=
    run_tooDeep disassemble (accepted_iff.mp h).1 hdepth hroom
  overflows depth settings disassemble h hdepth hfull :=
    run_overflows disassemble (accepted_iff.mp h).1 hdepth hfull
  distinct := nodup_linkNames
  accepts depth := accepted_iff
  builds := build_linkCode
  commanded ofText args read options settings hparse hsettings := by
    refine ⟨accepted_of_parse hparse (accepted_iff.mpr (by decide)), ?_⟩
    unfold CommandLine.runWith
    rw [hparse]
    dsimp only
    rw [hsettings]

/-- Three links at the lowest limits that allow them, and with one frame less. -/
theorem chain_laws_threeLinks :
    Accepted 3
      ∧ run ⟨6, 3, false⟩ 3 false
        = ⟨0, "Decorating link_0:\n  [1] wrapping link_0\nRunning link_0:\n"
            ++ "  [2] wrapping link_1\n  [3] wrapping link_2\n"
            ++ "\nresult:       3\napplications: 3\nhistory:      [count_calls]\n", ""⟩
      ∧ run ⟨6, 2, false⟩ 3 false
        = ⟨1, "Decorating link_0:\n  [1] wrapping link_0\nRunning link_0:\n"
            ++ "  [2] wrapping link_1\n  [3] wrapping link_2\n",
            "Error: Maximum call depth exceeded (2)\n"⟩ := by
  have haccepted : Accepted 3 := (chain_laws.accepts 3).mpr (by decide)
  have hcode : (run ⟨6, 3, false⟩ 3 false).code = 0 :=
    (chain_laws.exits 3 ⟨6, 3, false⟩ false haccepted).mpr (by decide)
  have hsucceeded := chain_laws.reports 3 ⟨6, 3, false⟩ false haccepted hcode
  have hfailed := chain_laws.tooDeep 3 ⟨6, 2, false⟩ false haccepted (by decide) (by decide)
  refine ⟨haccepted, hsucceeded.trans ?_, hfailed.trans ?_⟩
  · decide +kernel
  · decide +kernel

end CallDecoration.Demo
