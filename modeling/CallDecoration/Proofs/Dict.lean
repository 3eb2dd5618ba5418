/-
  CallDecoration.Proofs.Dict
  ──────────────────────────────────────
  **Looking up what was set, kept or merged.**
-/
import CallDecoration.Dict
import Mathlib.Data.List.Nodup

namespace CallDecoration.Dict

variable {κ ν : Type} [DecidableEq κ]

theorem get?_set (d : Dict κ ν) (key key' : κ) (value : ν) :
    get? (set d key value) key' = if key = key' then some value else get? d key' := by
  induction d with
  | nil => rfl
  | cons entry rest ih =>
      obtain ⟨k, v⟩ := entry
      unfold set
      by_cases hk : k = key
      · subst hk
        rw [if_pos rfl]
        unfold get?
        split <;> rfl
      · rw [if_neg hk]
        unfold get?
        by_cases hk' : k = key'
        · subst hk'
          rw [if_pos rfl, if_neg (fun h => hk h.symm), if_pos rfl]
        · rw [if_neg hk', if_neg hk', ih]

/-- A key that a filter keeps has its value. -/
theorem get?_filter (d : Dict κ ν) (keep : κ → Bool) {key : κ} (hkey : keep key = true) :
    get? (d.filter fun entry => keep entry.1) key = get? d key := by
  induction d with
  | nil => rfl
  | cons entry rest ih =>
      obtain ⟨k, v⟩ := entry
      rw [List.filter_cons]
      by_cases hk : keep k = true
      · rw [if_pos hk]
        unfold get?
        rw [ih]
      · have hne : k ≠ key := by
          rintro rfl
          exact hk hkey
        rw [if_neg hk, ih]
        exact (if_neg hne).symm

/-- A key that a filter drops has no value. -/
theorem get?_filter_none (d : Dict κ ν) (keep : κ → Bool) {key : κ} (hkey : keep key = false) :
    get? (d.filter fun entry => keep entry.1) key = none := by
  induction d with
  | nil => rfl
  | cons entry rest ih =>
      obtain ⟨k, v⟩ := entry
      rw [List.filter_cons]
      by_cases hk : keep k = true
      · have hne : k ≠ key := by
          rintro rfl
          rw [hkey] at hk
          cases hk
        rw [if_pos hk]
        unfold get?
        rw [if_neg hne, ih]
      · rw [if_neg hk, ih]

theorem mem_of_get? {d : Dict κ ν} {key : κ} {value : ν} (h : get? d key = some value) :
    (key, value) ∈ d := by
  induction d with
  | nil => cases h
  | cons entry rest ih =>
      obtain ⟨k, v⟩ := entry
      unfold get? at h
      by_cases hk : k = key
      · rw [if_pos hk] at h
        cases h
        rw [hk]
        exact List.mem_cons_self
      · rw [if_neg hk] at h
        exact List.mem_cons_of_mem _ (ih h)

/-- Under distinct keys every entry is found. -/
theorem get?_of_mem {d : Dict κ ν} (h : (keys d).Nodup) {entry : κ × ν} (hmem : entry ∈ d) :
    get? d entry.1 = some entry.2 := by
  induction d with
  | nil => cases hmem
  | cons first rest ih =>
      obtain ⟨k, v⟩ := first
      obtain ⟨hnew, hrest⟩ := List.nodup_cons.mp h
      rw [get?]
      rcases List.mem_cons.mp hmem with rfl | hmem
      · exact if_pos rfl
      · have hne : k ≠ entry.1 := fun hk => hnew (List.mem_map.mpr ⟨entry, hmem, hk.symm⟩)
        rw [if_neg hne]
        exact ih hrest hmem

/-- An entry after setting a key is an entry of before, or the one that was
set. -/
theorem mem_set {d : Dict κ ν} {key : κ} {value : ν} {entry : κ × ν}
    (h : entry ∈ set d key value) : entry ∈ d ∨ entry = (key, value) := by
  induction d with
  | nil => exact Or.inr (List.mem_singleton.mp h)
  | cons first rest ih =>
      obtain ⟨k, v⟩ := first
      unfold set at h
      by_cases hk : k = key
      · rw [if_pos hk] at h
        rcases List.mem_cons.mp h with rfl | h
        · exact Or.inr (by rw [hk])
        · exact Or.inl (List.mem_cons_of_mem _ h)
      · rw [if_neg hk] at h
        rcases List.mem_cons.mp h with rfl | h
        · exact Or.inl List.mem_cons_self
        · rcases ih h with h | h
          · exact Or.inl (List.mem_cons_of_mem _ h)
          · exact Or.inr h

/-- The entries of other keys stay. -/
theorem mem_set_of_ne {d : Dict κ ν} {key : κ} {value : ν} {entry : κ × ν} (h : entry ∈ d)
    (hne : entry.1 ≠ key) : entry ∈ set d key value := by
  induction d with
  | nil => cases h
  | cons first rest ih =>
      obtain ⟨k, v⟩ := first
      rw [set]
      rcases List.mem_cons.mp h with rfl | h
      · rw [if_neg hne]
        exact List.mem_cons_self
      · split
        · exact List.mem_cons_of_mem _ h
        · exact List.mem_cons_of_mem _ (ih h)

/-- An entry of a merged dictionary comes from one of the two. -/
theorem mem_merge {d e : Dict κ ν} {entry : κ × ν} (h : entry ∈ merge d e) :
    entry ∈ d ∨ entry ∈ e := by
  unfold merge at h
  induction e generalizing d with
  | nil => exact Or.inl h
  | cons first rest ih =>
      rw [List.foldl_cons] at h
      rcases ih h with h | h
      · rcases mem_set h with h | rfl
        · exact Or.inl h
        · exact Or.inr List.mem_cons_self
      · exact Or.inr (List.mem_cons_of_mem _ h)

/-- The keys are what has a value. -/
theorem isSome_get?_iff {d : Dict κ ν} {key : κ} : (get? d key).isSome ↔ key ∈ keys d := by
  constructor
  · intro h
    obtain ⟨value, hvalue⟩ := Option.isSome_iff_exists.mp h
    exact List.mem_map_of_mem (mem_of_get? hvalue)
  · intro h
    induction d with
    | nil => cases h
    | cons entry rest ih =>
        obtain ⟨k, v⟩ := entry
        rw [get?]
        by_cases hk : k = key
        · rw [if_pos hk]
          rfl
        · rw [if_neg hk]
          exact ih ((List.mem_cons.mp h).resolve_left fun h => hk h.symm)

/-- A key that is not among the keys has no value. -/
theorem get?_eq_none_iff {d : Dict κ ν} {key : κ} : get? d key = none ↔ key ∉ keys d := by
  rw [← isSome_get?_iff, Option.not_isSome_iff_eq_none]

theorem contains_eq_false {d : Dict κ ν} {key : κ} (h : key ∉ keys d) :
    contains d key = false := by
  unfold contains
  rw [get?_eq_none_iff.mpr h]
  rfl

/-- A new key goes to the end. -/
theorem set_eq_append {d : Dict κ ν} {key : κ} (h : key ∉ keys d) (value : ν) :
    set d key value = d ++ [(key, value)] := by
  induction d with
  | nil => rfl
  | cons entry rest ih =>
      obtain ⟨k, v⟩ := entry
      have hk : k ≠ key := fun hk => h (hk ▸ List.mem_cons_self)
      have hrest : key ∉ keys rest := fun hrest => h (List.mem_cons_of_mem _ hrest)
      rw [set, if_neg hk, ih hrest, List.cons_append]

omit [DecidableEq κ] in
theorem nodup_keys_nil : (keys ([] : Dict κ ν)).Nodup :=
  List.nodup_nil

omit [DecidableEq κ] in
theorem nodup_keys_left {d e : Dict κ ν} (h : (keys (d ++ e)).Nodup) : (keys d).Nodup := by
  unfold keys at h ⊢
  rw [List.map_append] at h
  exact h.of_append_left

omit [DecidableEq κ] in
/-- Under distinct keys, the key of an entry does not come before it. -/
theorem not_mem_keys_left {d e : Dict κ ν} {key : κ} {value : ν}
    (h : (keys (d ++ (key, value) :: e)).Nodup) : key ∉ keys d := by
  unfold keys at h ⊢
  rw [List.map_append, List.map_cons] at h
  exact fun hmem => (List.nodup_append.mp h).2.2 _ hmem _ List.mem_cons_self rfl

omit [DecidableEq κ] in
theorem nodup_keys_concat {d : Dict κ ν} (h : (keys d).Nodup) {key : κ} (hnew : key ∉ keys d)
    (value : ν) : (keys (d ++ [(key, value)])).Nodup := by
  unfold keys at h hnew ⊢
  rw [List.map_append, List.map_singleton, ← List.concat_eq_append]
  exact h.concat hnew

/-- Entries under distinct keys are merged by putting them behind. -/
theorem merge_eq_append {d e : Dict κ ν} (h : (keys (d ++ e)).Nodup) : merge d e = d ++ e := by
  induction e generalizing d with
  | nil => exact (List.append_nil d).symm
  | cons entry rest ih =>
      obtain ⟨key, value⟩ := entry
      have hnew : key ∉ keys d := not_mem_keys_left h
      rw [List.append_cons] at h ⊢
      show merge (set d key value) rest = _
      rw [set_eq_append hnew]
      exact ih h

/-- Setting a key that is present keeps the keys; a new one comes last. -/
theorem keys_set (d : Dict κ ν) (key : κ) (value : ν) :
    keys (set d key value) = if key ∈ keys d then keys d else keys d ++ [key] := by
  by_cases h : key ∈ keys d
  · rw [if_pos h]
    induction d with
    | nil => cases h
    | cons entry rest ih =>
        obtain ⟨k, v⟩ := entry
        rw [set]
        by_cases hk : k = key
        · rw [if_pos hk]
          rfl
        · have hrest : key ∈ keys rest := (List.mem_cons.mp h).resolve_left fun h => hk h.symm
          rw [if_neg hk]
          exact congrArg (k :: ·) (ih hrest)
  · rw [if_neg h, set_eq_append h]
    exact List.map_append

theorem nodup_keys_set {d : Dict κ ν} (h : (keys d).Nodup) (key : κ) (value : ν) :
    (keys (set d key value)).Nodup := by
  by_cases hmem : key ∈ keys d
  · rw [keys_set, if_pos hmem]
    exact h
  · rw [set_eq_append hmem]
    exact nodup_keys_concat h hmem value

theorem nodup_keys_merge {d : Dict κ ν} (h : (keys d).Nodup) (e : Dict κ ν) :
    (keys (merge d e)).Nodup := by
  unfold merge
  induction e generalizing d with
  | nil => exact h
  | cons entry rest ih => exact ih (nodup_keys_set h entry.1 entry.2)

/-- **Merging keeps the keys in their order** and puts the new ones behind them, in
theirs. -/
theorem keys_merge {d e : Dict κ ν} (h : (keys e).Nodup) :
    keys (merge d e) = keys d ++ (keys e).filter fun key => decide (key ∉ keys d) := by
  induction e generalizing d with
  | nil => exact (List.append_nil _).symm
  | cons entry rest ih =>
      obtain ⟨key, value⟩ := entry
      obtain ⟨hnew, hrest⟩ := List.nodup_cons.mp h
      show keys (merge (set d key value) rest)
        = keys d ++ (key :: keys rest).filter fun key => decide (key ∉ keys d)
      rw [ih hrest, keys_set]
      by_cases hmem : key ∈ keys d
      · rw [if_pos hmem, List.filter_cons_of_neg (by simpa using hmem)]
      · rw [if_neg hmem, List.filter_cons_of_pos (by simpa using hmem), List.append_assoc]
        -- a key that comes later is another one
        have hsame : (keys rest).filter (fun k => decide (k ∉ keys d ++ [key]))
            = (keys rest).filter fun k => decide (k ∉ keys d) := by
          refine List.filter_congr fun k hk => ?_
          have hne : k ≠ key := fun heq => hnew (heq ▸ hk)
          simp [hne]
        rw [hsame]
        rfl

/-- **The values that are merged in win.** -/
theorem get?_merge {d e : Dict κ ν} (h : (keys e).Nodup) (key : κ) :
    get? (merge d e) key = (get? e key).or (get? d key) := by
  induction e generalizing d with
  | nil => rfl
  | cons entry rest ih =>
      obtain ⟨k, v⟩ := entry
      obtain ⟨hnew, hrest⟩ := List.nodup_cons.mp h
      show get? (merge (set d k v) rest) key = _
      rw [ih hrest, get?_set, get?]
      by_cases hk : k = key
      · subst hk
        rw [if_pos rfl, if_pos rfl, get?_eq_none_iff.mpr hnew]
        rfl
      · rw [if_neg hk, if_neg hk]

end CallDecoration.Dict
