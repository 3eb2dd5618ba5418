/-
  CallDecoration.Proofs.Value.Comparison
  ──────────────────────────────────────
  **What equality compares, and what it is used for.**  Equality of values is
  an equivalence that compares tuples item by item, dictionaries by their keys
  whatever their order, and callables and modules by their identity
  (`Value.equality_laws`).  Of two dictionaries one direction is enough if they
  have as many entries (`Value.dict_equal_iff_length`).  Equal values have the
  same kind and the same truth value, so that the instructions that only
  compare their operands or look at their truth go on in the same state
  (`RunState.step_of_comparesOnly`).
-/
import CallDecoration.Proofs.Machine.Runs
import CallDecoration.Proofs.Value.Equality
import Mathlib.Data.List.Perm.Subperm

namespace CallDecoration

/-! ## §1. Dictionaries, compared in one direction. -/

/-- Under distinct keys, a dictionary with all keys of another one and no more
entries has no other keys. -/
theorem Dict.keys_within_of_length {κ ν ρ : Type} {d : Dict κ ν} {e : Dict κ ρ}
    (hd : (keys d).Nodup) (hwithin : ∀ key ∈ keys d, key ∈ keys e) (hlen : e.length ≤ d.length) :
    ∀ key ∈ keys e, key ∈ keys d := by
  have hsub : (keys d).Subperm (keys e) := List.subperm_of_subset hd hwithin
  have hperm : (keys d).Perm (keys e) := hsub.perm_of_length_le (by simpa [keys] using hlen)
  exact fun key hkey => hperm.mem_iff.mpr hkey

/-- Dictionaries with distinct keys that have the same keys have as many
entries. -/
theorem Dict.length_eq_of_keys {κ ν ρ : Type} {d : Dict κ ν} {e : Dict κ ρ}
    (hd : (keys d).Nodup) (he : (keys e).Nodup) (hsame : ∀ key, key ∈ keys d ↔ key ∈ keys e) :
    d.length = e.length := by
  have hperm : (keys d).Perm (keys e) := (List.perm_ext_iff_of_nodup hd he).mpr hsame
  simpa [keys] using hperm.length_eq

namespace Value

theorem equal_comm (v w : Value) : equal v w = equal w v := by
  show (v == w) = (w == v)
  exact BEq.comm

/-- **Dictionaries are equal if they have the same keys,** with equal values. -/
theorem dict_equal_iff_keys {a b : List (String × Value)} :
    equal (.dict a) (.dict b) = true
      ↔ (∀ key, key ∈ Dict.keys a ↔ key ∈ Dict.keys b)
        ∧ ∀ key x y, Dict.get? a key = some x → Dict.get? b key = some y → equal x y = true := by
  rw [dict_equal_iff]
  constructor
  · intro h
    constructor
    · intro key
      have hkey := h key
      rw [← Dict.isSome_get?_iff, ← Dict.isSome_get?_iff]
      -- what is there in one is there in the other
      generalize Dict.get? a key = x at hkey ⊢
      generalize Dict.get? b key = y at hkey ⊢
      cases hkey with
      | none => exact Iff.rfl
      | some _ => exact Iff.rfl
    · intro key x y hx hy
      have hkey := h key
      rw [hx, hy, Option.rel_some_some] at hkey
      exact hkey
  · rintro ⟨hkeys, hvalues⟩ key
    cases ha : Dict.get? a key with
    | none =>
        have hb : Dict.get? b key = none :=
          Dict.get?_eq_none_iff.mpr (mt (hkeys key).mpr (Dict.get?_eq_none_iff.mp ha))
        rw [hb]
        exact .none
    | some x =>
        have hmem : key ∈ Dict.keys b :=
          (hkeys key).mp (Dict.isSome_get?_iff.mp (by rw [ha]; rfl))
        obtain ⟨y, hy⟩ := Option.isSome_iff_exists.mp (Dict.isSome_get?_iff.mpr hmem)
        rw [hy]
        exact .some (hvalues key x y ha hy)

/-- **One direction is enough** for dictionaries with as many entries: each key of
the first has an equal value in the second. -/
theorem dict_equal_iff_length {a b : List (String × Value)} (ha : (Dict.keys a).Nodup)
    (hb : (Dict.keys b).Nodup) :
    equal (.dict a) (.dict b) = true
      ↔ a.length = b.length
        ∧ ∀ key x, Dict.get? a key = some x → ∃ y, Dict.get? b key = some y ∧ equal x y = true := by
  rw [dict_equal_iff_keys]
  constructor
  · rintro ⟨hkeys, hvalues⟩
    refine ⟨Dict.length_eq_of_keys ha hb hkeys, fun key x hx => ?_⟩
    have hmem : key ∈ Dict.keys b :=
      (hkeys key).mp (Dict.isSome_get?_iff.mp (by rw [hx]; rfl))
    obtain ⟨y, hy⟩ := Option.isSome_iff_exists.mp (Dict.isSome_get?_iff.mpr hmem)
    exact ⟨y, hy, hvalues key x y hx hy⟩
  · rintro ⟨hlen, hvalues⟩
    have hwithin : ∀ key ∈ Dict.keys a, key ∈ Dict.keys b := by
      intro key hkey
      obtain ⟨x, hx⟩ := Option.isSome_iff_exists.mp (Dict.isSome_get?_iff.mpr hkey)
      obtain ⟨y, hy, -⟩ := hvalues key x hx
      exact Dict.isSome_get?_iff.mp (by rw [hy]; rfl)
    -- counting entries rules out that the second has further keys
    refine ⟨fun key => ⟨hwithin key, Dict.keys_within_of_length ha hwithin (by omega) key⟩, ?_⟩
    intro key x y hx hy
    obtain ⟨y', hy', heq⟩ := hvalues key x hx
    rw [hy] at hy'
    cases hy'
    exact heq

/-- The order of entries does not matter. -/
theorem dict_equal_of_perm {a b : List (String × Value)} (ha : (Dict.keys a).Nodup)
    (h : a.Perm b) : equal (.dict a) (.dict b) = true := by
  have hb : (Dict.keys b).Nodup := (h.map Prod.fst).nodup_iff.mp ha
  refine (dict_equal_iff_length ha hb).mpr ⟨h.length_eq, fun key x hx => ?_⟩
  have hmem : (key, x) ∈ b := h.mem_iff.mp (Dict.mem_of_get? hx)
  exact ⟨x, Dict.get?_of_mem hb hmem, equal_refl x⟩

/-! ## §2. Tuples, callables and modules. -/

/-- **Tuples are equal if they have the same length and equal items** at each
place. -/
theorem tuple_equal_iff {as bs : List Value} :
    equal (.tuple as) (.tuple bs) = true
      ↔ as.length = bs.length
        ∧ ∀ i (ha : i < as.length) (hb : i < bs.length), equal as[i] bs[i] = true := by
  rw [equal, itemsEqual_iff, List.forall₂_iff_get]
  exact Iff.rfl

/-- What an object is known by. -/
inductive Identity where
  | function (id : FunctionId)
  | native (id : ObjectId)
  | type (t : TypeObject)
  | method (id : ObjectId)
  | module (id : ScopeId)
  deriving DecidableEq

/-- **The identity of a callable or a module;** data has none. -/
def identity? : Value → Option Identity
  | function f => some (.function f.id)
  | native n => some (.native n.id)
  | type t => some (.type t)
  | method m => some (.method m.id)
  | module scope => some (.module scope.id)
  | _ => none

/-- Callables and modules are equal if they are the same object. -/
theorem object_equal_iff {v w : Value} (hv : v.isCallable = true ∨ v.kind = .module) :
    equal v w = true ↔ v.identity? = w.identity? := by
  cases v with
  | nil | bool _ | int _ | str _ | tuple _ | dict _ => rcases hv with hv | hv <;> cases hv
  | function _ | native _ | type _ | method _ | module _ =>
      cases w with
      | nil | bool _ | int _ | str _ | tuple _ | dict _ | function _ | native _ | type _
        | method _ | module _ => simp [equal, identity?]

/-! ## §3. What equal values have in common. -/

/-- **Equal values have the same kind.** -/
theorem kind_eq_of_equal {v w : Value} (h : equal v w = true) : v.kind = w.kind := by
  cases v <;> cases w <;> first | rfl | cases h

/-- **Equal values have the same truth value.** -/
theorem isTruthy_eq_of_equal {v w : Value} (h : equal v w = true) :
    v.isTruthy = w.isTruthy := by
  have hkind := kind_eq_of_equal h
  cases v <;> cases w <;> try cases hkind
  case bool a b | int a b | str a b =>
    rw [equal, beq_iff_eq] at h
    rw [h]
  case tuple as bs =>
    have hlen := (tuple_equal_iff.mp h).1
    cases as <;> cases bs <;> first | rfl | cases hlen
  case dict as bs =>
    have hkeys := (dict_equal_iff_keys.mp h).1
    cases as with
    | nil =>
        cases bs with
        | nil => rfl
        | cons b bs => exact absurd ((hkeys b.1).mpr List.mem_cons_self) List.not_mem_nil
    | cons a as =>
        cases bs with
        | nil => exact absurd ((hkeys a.1).mp List.mem_cons_self) List.not_mem_nil
        | cons b bs => rfl
  all_goals rfl

end Value

/-! ## §4. Instructions that compare. -/

/-- Whether an instruction looks at its operands only by comparing them or by
their truth. -/
def Instruction.comparesOnly : Instruction → Bool
  | eq | not | jumpIfFalse _ => true
  | _ => false

namespace Machine

variable {σ : Type} {rest : List Value} {fs : List Frame} {st : Settings} {w : World σ}

theorem execute_eq (a b : Value) :
    execute .eq (of (b :: a :: rest) fs st w)
      = andAdvance (push (.bool (a.equal b))) (of rest fs st w) := rfl

theorem execute_not (a : Value) :
    execute .not (of (a :: rest) fs st w)
      = andAdvance (push (.bool !a.isTruthy)) (of rest fs st w) := rfl

theorem execute_jumpIfFalse (a : Value) (target : Nat) :
    execute (.jumpIfFalse target) (of (a :: rest) fs st w)
      = andAdvance (if !a.isTruthy then jumpTo target else pure ()) (of rest fs st w) := rfl

/-- **The comparing instructions do the same on equal operands.** -/
theorem execute_of_comparesOnly {i : Instruction} {ops ops' : List Value}
    (hi : i.comparesOnly = true) (hops : ops.length = i.operands)
    (h : List.Forall₂ (fun v w => Value.equal v w = true) ops ops') :
    execute i (of (ops ++ rest) fs st w) = execute i (of (ops' ++ rest) fs st w) := by
  cases i with
  | eq =>
      obtain ⟨b, a, rfl⟩ := List.length_eq_two.mp hops
      obtain ⟨b', as', hb, htail, rfl⟩ := List.forall₂_cons_left_iff.mp h
      obtain ⟨a', nil', ha, hnil, rfl⟩ := List.forall₂_cons_left_iff.mp htail
      cases hnil
      have hsame : a.equal b = a'.equal b' := by
        calc
          a.equal b = a'.equal b := Value.equal_congr ha b
          _ = b.equal a' := Value.equal_comm a' b
          _ = b'.equal a' := Value.equal_congr hb a'
          _ = a'.equal b' := Value.equal_comm b' a'
      show execute .eq (of (b :: a :: rest) fs st w) = execute .eq (of (b' :: a' :: rest) fs st w)
      rw [execute_eq, execute_eq, hsame]
  | not =>
      obtain ⟨a, rfl⟩ := List.length_eq_one_iff.mp hops
      obtain ⟨a', nil', ha, hnil, rfl⟩ := List.forall₂_cons_left_iff.mp h
      cases hnil
      show execute .not (of (a :: rest) fs st w) = execute .not (of (a' :: rest) fs st w)
      rw [execute_not, execute_not, Value.isTruthy_eq_of_equal ha]
  | jumpIfFalse target =>
      obtain ⟨a, rfl⟩ := List.length_eq_one_iff.mp hops
      obtain ⟨a', nil', ha, hnil, rfl⟩ := List.forall₂_cons_left_iff.mp h
      cases hnil
      show execute (.jumpIfFalse target) (of (a :: rest) fs st w)
        = execute (.jumpIfFalse target) (of (a' :: rest) fs st w)
      rw [execute_jumpIfFalse, execute_jumpIfFalse, Value.isTruthy_eq_of_equal ha]
  | _ => cases hi

end Machine

/-- **A step that only compares comes to the same state** from equal operands. -/
theorem RunState.step_of_comparesOnly {σ : Type} {host : Host σ} {pending : List (Pending σ)}
    {f : Frame} {fs : List Frame} {st : Settings} {w : World σ} {i : Instruction} {next : Nat}
    {ops ops' rest : List Value} (hfetch : Machine.fetch f = .ok (i, next))
    (hi : i.comparesOnly = true) (hops : ops.length = i.operands)
    (h : List.Forall₂ (fun v w => Value.equal v w = true) ops ops') :
    step host ⟨.bytecode, pending, .of (ops ++ rest) (f :: fs) st w⟩
      = step host ⟨.bytecode, pending, .of (ops' ++ rest) (f :: fs) st w⟩ := by
  have hframe : Machine.stepFrame (.of (ops ++ rest) (f :: fs) st w)
      = Machine.stepFrame (.of (ops' ++ rest) (f :: fs) st w) := by
    rw [Machine.stepFrame_of hfetch, Machine.stepFrame_of hfetch]
    exact Machine.execute_of_comparesOnly hi hops h
  show stepBytecode host _ = stepBytecode host _
  unfold stepBytecode
  rw [hframe]

/-! ## §5. The laws of equality. -/

/-- **The laws of equality.** -/
structure Value.EqualityLaws : Prop where
  /-- Equality is reflexive, symmetric and transitive. -/
  equivalence : Equivalence fun v w => Value.equal v w = true
  /-- Tuples are compared item by item. -/
  tuples : ∀ as bs, Value.equal (.tuple as) (.tuple bs) = true
    ↔ as.length = bs.length
      ∧ ∀ i (ha : i < as.length) (hb : i < bs.length), Value.equal as[i] bs[i] = true
  /-- Dictionaries are compared by their keys and by the values under them. -/
  dicts : ∀ a b, Value.equal (.dict a) (.dict b) = true
    ↔ (∀ key, key ∈ Dict.keys a ↔ key ∈ Dict.keys b)
      ∧ ∀ key x y, Dict.get? a key = some x → Dict.get? b key = some y → Value.equal x y = true
  /-- That comes to as many entries, and an equal value in the second for each
  key of the first. -/
  oneWay : ∀ a b, (Dict.keys a).Nodup → (Dict.keys b).Nodup →
    (Value.equal (.dict a) (.dict b) = true
      ↔ a.length = b.length
        ∧ ∀ key x, Dict.get? a key = some x →
          ∃ y, Dict.get? b key = some y ∧ Value.equal x y = true)
  /-- The order of insertion does not matter. -/
  reordered : ∀ a b, (Dict.keys a).Nodup → a.Perm b → Value.equal (.dict a) (.dict b) = true
  /-- Callables and modules are compared by their identity. -/
  objects : ∀ v w, v.isCallable = true ∨ v.kind = .module →
    (Value.equal v w = true ↔ v.identity? = w.identity?)
  /-- Equal values have the same name of their kind and the same truth value. -/
  alike : ∀ v w, Value.equal v w = true → v.kind.name = w.kind.name ∧ v.isTruthy = w.isTruthy
  /-- The instruction that compares pushes whether its operands are equal. -/
  compares : ∀ {σ : Type} (a b : Value) (rest : List Value) (fs : List Frame) (st : Settings)
    (w : World σ), rest.length < st.maxValueStack →
    Machine.execute .eq (.of (b :: a :: rest) fs st w)
      = (.ok .advance, .of (.bool (a.equal b) :: rest) fs st w)
  /-- Comparing, negating and jumping on a truth value come to the same state
  from equal operands. -/
  untold : ∀ {σ : Type} (host : Host σ) (pending : List (Pending σ)) (f : Frame) (fs : List Frame)
    (st : Settings) (w : World σ) (i : Instruction) (next : Nat) (ops ops' rest : List Value),
    Machine.fetch f = .ok (i, next) → i.comparesOnly = true → ops.length = i.operands →
    List.Forall₂ (fun v w => Value.equal v w = true) ops ops' →
    RunState.step host ⟨.bytecode, pending, .of (ops ++ rest) (f :: fs) st w⟩
      = RunState.step host ⟨.bytecode, pending, .of (ops' ++ rest) (f :: fs) st w⟩

/-- **Equality of values is an equivalence** that forgets the order of keys and
nothing that instructions which compare could tell. -/
theorem Value.equality_laws : EqualityLaws where
  equivalence :=
    { refl := equal_refl
      symm := fun h => (equal_comm _ _).trans h
      trans := fun hab hbc => (equal_congr hab _).trans hbc }
  tuples as bs := tuple_equal_iff
  dicts a b := dict_equal_iff_keys
  oneWay a b ha hb := dict_equal_iff_length ha hb
  reordered a b ha h := dict_equal_of_perm ha h
  objects v w hv := object_equal_iff hv
  alike v w h := ⟨by rw [kind_eq_of_equal h], isTruthy_eq_of_equal h⟩
  compares a b rest fs st w hroom := by
    rw [Machine.execute_eq]
    exact Machine.andAdvance_ok (Machine.push_of hroom)
  untold host pending f fs st w i next ops ops' rest hfetch hi hops h :=
    RunState.step_of_comparesOnly hfetch hi hops h

/-- A dictionary that holds another one in a tuple. -/
def nestedEntries : List (String × Value) :=
  [("size", .int 2), ("parts", .tuple [.str "x", .dict [("on", .bool true), ("at", .nil)]])]

/-- A frame that is about to compare two values. -/
def comparingFrame : Frame :=
  ⟨⟨⟨1⟩, "same", ⟨"same", encode [.eq, .return], #[], #[], Signature.none, 0⟩, ⟨⟨0⟩, "m"⟩, [], [],
    #[]⟩, 0, 0, #[]⟩

/-- A dictionary is equal to the one with its entries in the other order, and a
frame that compares it with another value goes on in the same way with either. -/
theorem Value.equality_laws_nestedEntries :
    ((Dict.keys nestedEntries).Nodup ∧ nestedEntries.Perm nestedEntries.reverse
        ∧ Value.equal (.dict nestedEntries) (.dict nestedEntries.reverse) = true)
      ∧ Machine.fetch comparingFrame = .ok (.eq, 1)
      ∧ RunState.step (fun _ _ => .done (.ok .nil))
          ⟨.bytecode, [], .of [.dict nestedEntries, .nil] [comparingFrame] .standard
            (World.new ())⟩
        = RunState.step (fun _ _ => .done (.ok .nil))
          ⟨.bytecode, [], .of [.dict nestedEntries.reverse, .nil] [comparingFrame] .standard
            (World.new ())⟩ := by
  have hkeys : (Dict.keys nestedEntries).Nodup := by decide
  have hperm : nestedEntries.Perm nestedEntries.reverse := (List.reverse_perm _).symm
  have hequal := equality_laws.reordered _ _ hkeys hperm
  have hfetch : Machine.fetch comparingFrame = .ok (.eq, 1) := rfl
  have hnil := equality_laws.equivalence.refl .nil
  exact ⟨⟨hkeys, hperm, hequal⟩, hfetch, equality_laws.untold _ [] _ [] _ _ _ _ _ _ [] hfetch rfl rfl
    (.cons hequal (.cons hnil .nil))⟩

end CallDecoration
