/-
  CallDecoration.Proofs.Machine.Operators
  ──────────────────────────────────────
  **What binary operators answer, and whom they blame.**  Integer arithmetic is
  exact or fails (`exact_eq_ok_iff`, `exact_eq_error_iff`), and the operands do
  not fit exactly if they are not of one kind that the operator works on
  (`apply_eq_mismatch_iff`).  If only one of them is of such a kind, the other
  one is to blame (`BinaryOp.misfit?`).  The error names it except in two cases:
  a tuple to which something else is added, and a string from which an integer
  is subtracted or which is multiplied by one (`BinaryOp.blamesMisfit_iff`).
-/
import CallDecoration.Proofs.Machine.Instructions
import CallDecoration.Proofs.Text.Numerals

namespace CallDecoration

namespace BinaryOp

variable {op : BinaryOp} {a b : Value}

/-! ## §1. Integer arithmetic. -/

/-- The operation on integers that an operator stands for, if it gives an
integer. -/
def arithmetic? : BinaryOp → Option (Int → Int → Int)
  | add => some (· + ·)
  | sub => some (· - ·)
  | mul => some (· * ·)
  | _ => none

theorem apply_arithmetic {f : Int → Int → Int} (h : op.arithmetic? = some f) (x y : Int64) :
    op.apply (.int x) (.int y) = exact (f x.toInt y.toInt) := by
  cases op <;> cases h <;> rfl

/-- **An exact result is the integer itself,** when it has 64 bits. -/
theorem exact_eq_ok_iff {n : Int} {v : Value} :
    exact n = .ok v ↔ ∃ r : Int64, v = .int r ∧ r.toInt = n := by
  unfold exact
  cases hfits : Text.toInt64? n with
  | some r =>
      have hr := Text.toInt64?_eq_some_iff.mp hfits
      constructor
      · intro h
        cases h
        exact ⟨r, rfl, hr⟩
      · rintro ⟨r', rfl, hr'⟩
        rw [Int64.toInt_inj.mp (hr.trans hr'.symm)]
  | none =>
      refine iff_of_false (fun h => nomatch h) ?_
      rintro ⟨r, -, rfl⟩
      exact Text.toInt64?_eq_none_iff.mp hfits (Text.inInt64_toInt r)

/-- **Otherwise it is an overflow.** -/
theorem exact_eq_error_iff {n : Int} {e : RunError} :
    exact n = .error e ↔ e = .arithmeticOverflow ∧ ¬ Text.InInt64 n := by
  unfold exact
  rw [← Text.toInt64?_eq_none_iff]
  cases Text.toInt64? n with
  | some r => exact iff_of_false (fun h => nomatch h) (fun h => nomatch h.2)
  | none =>
      constructor
      · intro h
        cases h
        exact ⟨rfl, rfl⟩
      · rintro ⟨rfl, -⟩
        rfl

/-! ## §2. Operands that fit. -/

/-- Whether an operator works on the kind of a value at all. -/
def Supports (op : BinaryOp) (v : Value) : Prop :=
  v.kind ∈ op.operandKinds

instance (op : BinaryOp) (v : Value) : Decidable (op.Supports v) :=
  inferInstanceAs (Decidable (_ ∈ _))

/-- **Operands that fit:** they are of one kind, which the operator works on. -/
def Fit (op : BinaryOp) (a b : Value) : Prop :=
  a.kind = b.kind ∧ op.Supports a

/-- The values of the three kinds that operators work on. -/
theorem exists_of_supports (h : op.Supports a) :
    (∃ x, a = .int x) ∨ (∃ s, a = .str s) ∨ ∃ items, a = .tuple items := by
  cases a with
  | int x => exact Or.inl ⟨x, rfl⟩
  | str s => exact Or.inr (Or.inl ⟨s, rfl⟩)
  | tuple items => exact Or.inr (Or.inr ⟨items, rfl⟩)
  | _ => cases op <;> simp [Supports, operandKinds, Value.kind] at h

/-- Operands that do not fit are a mismatch. -/
theorem apply_of_not_fit (hop : op ≠ .eq) (h : ¬ op.Fit a b) :
    op.apply a b = .error (op.mismatch a b) := by
  unfold apply
  split
  case h_8 => exact absurd rfl hop
  case h_9 => rfl
  all_goals exact absurd ⟨rfl, by simp [Supports, operandKinds, Value.kind]⟩ h

/-- Operands that fit are not a mismatch. -/
theorem apply_ne_mismatch (h : op.Fit a b) (expected : List Kind) (got : Kind) :
    op.apply a b ≠ .error (.typeMismatch expected got) := by
  obtain ⟨hkind, hsupports⟩ := h
  have hexact : ∀ n, exact n ≠ .error (.typeMismatch expected got) :=
    fun n hn => nomatch (exact_eq_error_iff.mp hn).1
  rcases exists_of_supports hsupports with ⟨x, rfl⟩ | ⟨s, rfl⟩ | ⟨items, rfl⟩ <;>
    cases b <;> cases hkind <;> cases op <;>
    first
      | (simp [Supports, operandKinds, Value.kind] at hsupports; done)
      | exact hexact _
      | exact fun h => nomatch h

/-- **An operator fails with a type error exactly if its operands do not fit.** -/
theorem apply_eq_mismatch_iff (hop : op ≠ .eq) {expected : List Kind} {got : Kind} :
    op.apply a b = .error (.typeMismatch expected got)
      ↔ ¬ op.Fit a b ∧ op.mismatch a b = .typeMismatch expected got := by
  constructor
  · intro h
    have hnot : ¬ op.Fit a b := fun hfit => apply_ne_mismatch hfit expected got h
    rw [apply_of_not_fit hop hnot] at h
    exact ⟨hnot, Except.error.inj h⟩
  · rintro ⟨hnot, hmismatch⟩
    rw [apply_of_not_fit hop hnot, hmismatch]

/-! ## §3. The operand to blame. -/

/-- **The operand that is to blame:** the one that the operator does not work on,
if it works on the other. -/
def misfit? (op : BinaryOp) (a b : Value) : Option Value :=
  if op.Supports a then if op.Supports b then none else some b
  else if op.Supports b then some a else none

/-- **A type error names the operand to blame.** -/
def BlamesMisfit (op : BinaryOp) (a b : Value) : Prop :=
  ∀ v expected got, op.misfit? a b = some v →
    op.apply a b = .error (.typeMismatch expected got) → got = v.kind

theorem misfit?_eq_some {v : Value} (h : op.misfit? a b = some v) :
    (op.Supports a ∧ ¬ op.Supports b ∧ v = b) ∨ (¬ op.Supports a ∧ op.Supports b ∧ v = a) := by
  unfold misfit? at h
  split at h <;> split at h <;> cases h
  case isTrue.isFalse ha hb => exact Or.inl ⟨ha, hb, rfl⟩
  case isFalse.isTrue ha hb => exact Or.inr ⟨ha, hb, rfl⟩

/-- An operand that is to blame does not fit. -/
theorem not_fit_of_misfit {v : Value} (h : op.misfit? a b = some v) : ¬ op.Fit a b := by
  rintro ⟨hkind, hsupports⟩
  have hsupports' : op.Supports b := by
    unfold Supports
    rw [← hkind]
    exact hsupports
  rcases misfit?_eq_some h with ⟨-, hb, -⟩ | ⟨ha, -, -⟩
  · exact hb hsupports'
  · exact ha hsupports

/-- Equality works on all values and blames none. -/
theorem ne_eq_of_misfit {v : Value} (h : op.misfit? a b = some v) : op ≠ .eq := by
  rintro rfl
  cases h

/-- The kind that a mismatch names. -/
def blamed (a b : Value) : Kind :=
  if a.kind = b.kind ∨ a.kind = .int ∨ a.kind = .str then b.kind else a.kind

/-- The error blames the misfit if what it names is of the misfit's kind. -/
theorem blamesMisfit_iff_blamed :
    op.BlamesMisfit a b ↔ ∀ v, op.misfit? a b = some v → blamed a b = v.kind := by
  constructor
  · intro h v hv
    exact h v op.operandKinds _ hv (apply_of_not_fit (ne_eq_of_misfit hv) (not_fit_of_misfit hv))
  · intro h v expected got hv happly
    obtain ⟨-, hmismatch⟩ := (apply_eq_mismatch_iff (ne_eq_of_misfit hv)).mp happly
    cases hmismatch
    exact h v hv

/-- **The two cases in which the wrong operand is named:** something that cannot
be added at all is added to a tuple, or a string stands in front of an integer
in a subtraction or a multiplication. -/
inductive Misblames : BinaryOp → Value → Value → Prop where
  | tuple {a b : Value} (ha : a.kind = .tuple) (hb : ¬ Supports .add b) : Misblames .add a b
  | sub {a b : Value} (ha : a.kind = .str) (hb : b.kind = .int) : Misblames .sub a b
  | mul {a b : Value} (ha : a.kind = .str) (hb : b.kind = .int) : Misblames .mul a b

/-- The kinds that make the error name the second operand are those that all
operators but these work on. -/
theorem misblames_of_supported (ha : op.Supports a) (hb : ¬ op.Supports b)
    (hfirst : ¬ (a.kind = .int ∨ a.kind = .str)) : op.Misblames a b := by
  rcases exists_of_supports ha with ⟨x, rfl⟩ | ⟨s, rfl⟩ | ⟨items, rfl⟩
  · exact absurd (Or.inl rfl) hfirst
  · exact absurd (Or.inr rfl) hfirst
  · -- addition alone works on tuples
    cases op with
    | add => exact .tuple rfl hb
    | _ => simp [Supports, operandKinds, Value.kind] at ha

theorem misblames_of_unsupported (ha : ¬ op.Supports a) (hb : op.Supports b)
    (hfirst : a.kind = .int ∨ a.kind = .str) : op.Misblames a b := by
  unfold Supports at ha hb
  rcases hfirst with hfirst | hfirst <;> rw [hfirst] at ha
  · -- all operators that work on anything work on integers
    cases op with
    | eq => cases hb
    | _ => exact absurd (by simp [operandKinds]) ha
  · cases op with
    | eq => cases hb
    | sub => exact .sub hfirst (List.mem_singleton.mp hb)
    | mul => exact .mul hfirst (List.mem_singleton.mp hb)
    | add | lt => exact absurd (by simp [operandKinds]) ha

/-- Only one of the operands of these cases is to blame, and the other one is
named. -/
theorem not_blamed_of_misblames (h : op.Misblames a b) :
    ∃ v, op.misfit? a b = some v ∧ blamed a b ≠ v.kind := by
  cases h with
  | tuple ha hb =>
      have hsupports : Supports .add a := by simp [Supports, operandKinds, ha]
      have hne : a.kind ≠ b.kind := by
        intro heq
        unfold Supports at hb
        rw [← heq] at hb
        exact hb hsupports
      refine ⟨b, by rw [misfit?, if_pos hsupports, if_neg hb], ?_⟩
      have hfirst : ¬ (a.kind = .int ∨ a.kind = .str) := by simp [ha]
      unfold blamed
      rw [if_neg (fun hcase => hcase.elim hne hfirst)]
      exact hne
  | sub ha hb | mul ha hb =>
      refine ⟨a, by simp [misfit?, Supports, operandKinds, ha, hb], ?_⟩
      unfold blamed
      rw [if_pos (by simp [ha]), ha, hb]
      decide

/-- **The operand to blame is named in all other cases.** -/
theorem blamesMisfit_iff : op.BlamesMisfit a b ↔ ¬ op.Misblames a b := by
  rw [blamesMisfit_iff_blamed]
  constructor
  · intro h hmis
    obtain ⟨v, hv, hne⟩ := not_blamed_of_misblames hmis
    exact hne (h v hv)
  · intro h v hv
    unfold blamed
    rcases misfit?_eq_some hv with ⟨ha, hb, rfl⟩ | ⟨ha, hb, rfl⟩
    · -- the second operand is to blame
      have hfirst : a.kind = .int ∨ a.kind = .str := by
        by_contra hother
        exact h (misblames_of_supported ha hb hother)
      rw [if_pos (Or.inr hfirst)]
    · have hne : v.kind ≠ b.kind := by
        intro heq
        unfold Supports at ha hb
        rw [heq] at ha
        exact ha hb
      have hfirst : ¬ (v.kind = .int ∨ v.kind = .str) :=
        fun hfirst => h (misblames_of_unsupported ha hb hfirst)
      rw [if_neg (fun hcase => hcase.elim hne hfirst)]

/-! ## §4. The instructions. -/

/-- The instruction that applies an operator. -/
def instruction : BinaryOp → Instruction
  | add => .add
  | sub => .sub
  | mul => .mul
  | lt => .lt
  | eq => .eq

theorem isPlain_instruction (op : BinaryOp) : op.instruction.isPlain = true := by
  cases op <;> rfl

theorem operands_instruction (op : BinaryOp) : 2 = op.instruction.operands := by
  cases op <;> rfl

section Instructions

variable {σ : Type} {rest : List Value} {f : Frame} {fs : List Frame} {st : Settings}
  {w : World σ}

theorem results_instruction (op : BinaryOp) (a b : Value) :
    op.instruction.results f w [b, a] = (op.apply a b).map fun value => [value] := by
  cases op <;> rfl

/-- The result takes the place of the operands. -/
theorem execute_instruction_ok {v : Value} (h : op.apply a b = .ok v)
    (hroom : rest.length < st.maxValueStack) :
    Machine.execute op.instruction (.of (b :: a :: rest) (f :: fs) st w)
      = (.ok .advance, .of (v :: rest) (f :: fs) st w) := by
  have hresults : op.instruction.results f w [b, a] = .ok [v] := by
    rw [results_instruction, h]
    rfl
  have hexec : Machine.execute op.instruction (.of ([b, a] ++ rest) (f :: fs) st w)
      = (.ok .advance, .of ([v] ++ rest) (op.instruction.frameAfter f [b, a] :: fs) st
          (op.instruction.worldAfter f w [b, a])) :=
    Machine.execute_ok (isPlain_instruction op) (operands_instruction op) hresults
      (Or.inr (Or.inr hroom))
  have hframe : op.instruction.frameAfter f [b, a] = f := by cases op <;> rfl
  have hworld : op.instruction.worldAfter f w [b, a] = w := by cases op <;> rfl
  rw [hframe, hworld] at hexec
  exact hexec

/-- On an error the operands are gone. -/
theorem execute_instruction_error {e : RunError} (h : op.apply a b = .error e) :
    Machine.execute op.instruction (.of (b :: a :: rest) (f :: fs) st w)
      = (.error e, .of rest (f :: fs) st w) := by
  have hresults : op.instruction.results f w [b, a] = .error e := by
    rw [results_instruction, h]
    rfl
  have hexec : Machine.execute op.instruction (.of ([b, a] ++ rest) (f :: fs) st w)
      = (.error e, .of rest (f :: fs) st w) :=
    Machine.execute_error (isPlain_instruction op) (operands_instruction op) hresults
  exact hexec

end Instructions

/-! ## §5. The laws of operators. -/

/-- **The laws of a binary operator** at its two operands. -/
structure OperatorLaws (op : BinaryOp) (a b : Value) : Prop where
  /-- Arithmetic on integers is exact where the result has 64 bits. -/
  exact : ∀ (f : Int → Int → Int) (x y : Int64), op.arithmetic? = some f → a = .int x →
    b = .int y → Text.InInt64 (f x.toInt y.toInt) →
    ∃ r : Int64, op.apply a b = .ok (.int r) ∧ r.toInt = f x.toInt y.toInt
  /-- Elsewhere it fails. -/
  overflows : ∀ (f : Int → Int → Int) (x y : Int64), op.arithmetic? = some f → a = .int x →
    b = .int y → ¬ Text.InInt64 (f x.toInt y.toInt) →
    op.apply a b = .error .arithmeticOverflow
  /-- Strings are added by putting their characters one behind the other. -/
  joinsText : ∀ s t : String, op = .add → a = .str s → b = .str t →
    ∃ u : String, op.apply a b = .ok (.str u) ∧ u.toList = s.toList ++ t.toList
  /-- So are tuples, by their items. -/
  joinsTuples : ∀ xs ys : List Value, op = .add → a = .tuple xs → b = .tuple ys →
    op.apply a b = .ok (.tuple (xs ++ ys))
  /-- Type errors come from operands that do not fit, and tell the kinds that
  would. -/
  mismatches : op ≠ .eq →
    ((∃ expected got, op.apply a b = .error (.typeMismatch expected got)) ↔ ¬ op.Fit a b)
      ∧ ∀ expected got, op.apply a b = .error (.typeMismatch expected got) →
        expected = op.operandKinds ∧ (got = a.kind ∨ got = b.kind)
  /-- The operand to blame is named but for two cases. -/
  blames : op.BlamesMisfit a b ↔ ¬ op.Misblames a b
  /-- In these the other operand is named, whose kind the operator works on. -/
  misblames : op.Misblames a b →
    ∃ got, op.apply a b = .error (.typeMismatch op.operandKinds got) ∧ got ∈ op.operandKinds
  /-- An instruction puts the result of its operator in place of the operands, or
  fails as the operator does. -/
  executes : ∀ {σ : Type} (rest : List Value) (f : Frame) (fs : List Frame) (st : Settings)
    (w : World σ), rest.length < st.maxValueStack →
    Machine.execute op.instruction (.of (b :: a :: rest) (f :: fs) st w)
      = match op.apply a b with
        | .ok v => (.ok .advance, .of (v :: rest) (f :: fs) st w)
        | .error e => (.error e, .of rest (f :: fs) st w)

theorem blamed_eq_or (a b : Value) : blamed a b = a.kind ∨ blamed a b = b.kind := by
  unfold blamed
  split
  · exact Or.inr rfl
  · exact Or.inl rfl

/-- The kind that is named instead of the one to blame is one that the operator
works on. -/
theorem blamed_mem_of_misblames (h : op.Misblames a b) : blamed a b ∈ op.operandKinds := by
  obtain ⟨v, hv, hne⟩ := not_blamed_of_misblames h
  rcases misfit?_eq_some hv with ⟨ha, -, rfl⟩ | ⟨-, hb, rfl⟩ <;>
    rcases blamed_eq_or _ _ with heq | heq
  · rw [heq]
    exact ha
  · exact absurd heq hne
  · exact absurd heq hne
  · rw [heq]
    exact hb

/-- **Binary operators are exact, and name the operand to blame** but for two
cases. -/
theorem operator_laws (op : BinaryOp) (a b : Value) : op.OperatorLaws a b where
  exact f x y hop ha hb hfits := by
    rw [ha, hb, apply_arithmetic hop]
    obtain ⟨r, hr⟩ : ∃ r : Int64, r.toInt = f x.toInt y.toInt :=
      ⟨Int64.ofInt (f x.toInt y.toInt), Int64.toInt_ofInt_of_le hfits.1 hfits.2⟩
    exact ⟨r, exact_eq_ok_iff.mpr ⟨r, rfl, hr⟩, hr⟩
  overflows f x y hop ha hb hfits := by
    rw [ha, hb, apply_arithmetic hop]
    exact exact_eq_error_iff.mpr ⟨rfl, hfits⟩
  joinsText s t hop ha hb := by
    rw [hop, ha, hb]
    exact ⟨s ++ t, rfl, String.toList_append⟩
  joinsTuples xs ys hop ha hb := by
    rw [hop, ha, hb]
    rfl
  mismatches hop := by
    constructor
    · constructor
      · rintro ⟨expected, got, h⟩
        exact ((apply_eq_mismatch_iff hop).mp h).1
      · exact fun h => ⟨_, _, apply_of_not_fit hop h⟩
    · intro expected got h
      obtain ⟨-, hmismatch⟩ := (apply_eq_mismatch_iff hop).mp h
      cases hmismatch
      exact ⟨rfl, blamed_eq_or a b⟩
  blames := blamesMisfit_iff
  misblames h := by
    obtain ⟨v, hv, -⟩ := not_blamed_of_misblames h
    exact ⟨blamed a b, apply_of_not_fit (ne_eq_of_misfit hv) (not_fit_of_misfit hv),
      blamed_mem_of_misblames h⟩
  executes rest f fs st w hroom := by
    cases happly : op.apply a b with
    | ok v => exact execute_instruction_ok happly hroom
    | error e => exact execute_instruction_error happly

/-- A frame of a function without code. -/
def idleFrame : Frame :=
  ⟨⟨⟨1⟩, "f", ⟨"f", #[], #[], #[], Signature.none, 0⟩, ⟨⟨0⟩, "m"⟩, [], [], #[]⟩, 0, 0, #[]⟩

/-- Results at both ends of the range, and an operand of no kind that can be
multiplied. -/
theorem operator_laws_edges :
    (∃ r : Int64, apply .mul (.int (-4611686018427387904)) (.int 2) = .ok (.int r)
        ∧ r.toInt = -9223372036854775808)
      ∧ apply .add (.int 9223372036854775807) (.int 1) = .error .arithmeticOverflow
      ∧ misfit? .mul .nil (.int 2) = some .nil ∧ BlamesMisfit .mul .nil (.int 2)
      ∧ Machine.execute .mul (.of [.int 2, .nil] [idleFrame] .standard (World.new ()))
        = (.error (.typeMismatch [.int] .nil), .of [] [idleFrame] .standard (World.new ())) := by
  have hblames : BlamesMisfit .mul .nil (.int 2) :=
    (operator_laws .mul .nil (.int 2)).blames.mpr (fun h => nomatch h)
  have hexact := (operator_laws .mul _ _).exact _ (-4611686018427387904) 2 rfl rfl rfl (by decide)
  have hoverflows :=
    (operator_laws .add _ _).overflows _ 9223372036854775807 1 rfl rfl rfl (by decide)
  have hexecutes := (operator_laws .mul .nil (.int 2)).executes [] idleFrame [] .standard
    (World.new ()) (by decide)
  exact ⟨hexact, hoverflows, rfl, hblames, hexecutes⟩

/-- An integer is subtracted from a string, and nil is added to a tuple: the
integer and the tuple are named. -/
theorem not_blamesMisfit_textMinusInt :
    ¬ BlamesMisfit .sub (.str "x") (.int 1) ∧ ¬ BlamesMisfit .add (.tuple []) .nil := by
  constructor
  · intro h
    have hnamed : Kind.int = Kind.str := h (.str "x") [.int] .int rfl rfl
    cases hnamed
  · intro h
    have hnamed : Kind.tuple = Kind.nil := h .nil [.int, .str, .tuple] .tuple rfl rfl
    cases hnamed

end BinaryOp

end CallDecoration
