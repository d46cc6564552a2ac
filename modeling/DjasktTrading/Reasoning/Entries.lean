import Mathlib.Data.List.Nodup

/-!
# Entries — a dictionary as the list of its entries

Entries stand in the order in which their keys were first set.  A dictionary has no two entries with
one key; the operations keep that.
-/

namespace Reasoning.Entries

variable {κ ν : Type*} [DecidableEq κ] {d : List (κ × ν)} {key k : κ} {value : ν}

def keys (d : List (κ × ν)) : List κ := d.map Prod.fst

/-- `d[key] = value` -/
def set (d : List (κ × ν)) (key : κ) (value : ν) : List (κ × ν) :=
  if key ∈ keys d then d.map fun entry => if entry.1 = key then (key, value) else entry
  else d ++ [(key, value)]

/-- The entries whose key passes a test. -/
def restrict (test : κ → Bool) (d : List (κ × ν)) : List (κ × ν) :=
  d.filter fun entry => test entry.1

/-- The values that stand under a key. -/
def valuesAt (key : κ) (d : List (κ × ν)) : List ν := (restrict (· = key) d).map Prod.snd

omit [DecidableEq κ] in
theorem mem_keys_iff : key ∈ keys d ↔ ∃ value, (key, value) ∈ d := by
  simp [keys]

omit [DecidableEq κ] in
theorem keys_append (d d' : List (κ × ν)) : keys (d ++ d') = keys d ++ keys d' := List.map_append

theorem lookup_cons_eq (k' : κ) (v : ν) (d : List (κ × ν)) (k : κ) :
    ((k', v) :: d).lookup k = if k = k' then some v else d.lookup k := by
  rw [List.lookup_cons]
  by_cases hk : k = k'
  · simp [hk]
  · rw [beq_false_of_ne hk, if_neg hk]

theorem lookup_eq_none_iff : d.lookup key = none ↔ key ∉ keys d := by
  induction d with
  | nil => simp [keys]
  | cons entry d ih =>
      obtain ⟨k, value⟩ := entry
      rw [lookup_cons_eq]
      by_cases hk : key = k
      · simp [keys, hk]
      · simpa [keys, hk] using ih

theorem exists_lookup_of_mem_keys (hmem : key ∈ keys d) : ∃ value, d.lookup key = some value :=
  Option.ne_none_iff_exists'.mp fun hnone => lookup_eq_none_iff.mp hnone hmem

theorem lookup_of_mem (hnodup : (keys d).Nodup) (hmem : (key, value) ∈ d) :
    d.lookup key = some value := by
  induction d with
  | nil => cases hmem
  | cons entry d ih =>
      obtain ⟨k, v⟩ := entry
      obtain ⟨hnot, hrest⟩ := List.nodup_cons.mp hnodup
      rcases List.mem_cons.mp hmem with heq | hmem
      · cases heq
        exact List.lookup_cons_self
      · have hne : key ≠ k := fun heq => hnot (heq ▸ mem_keys_iff.mpr ⟨value, hmem⟩)
        rw [lookup_cons_eq, if_neg hne]
        exact ih hrest hmem

theorem mem_of_lookup (h : d.lookup key = some value) : (key, value) ∈ d := by
  obtain ⟨front, back, rfl, -⟩ := List.lookup_eq_some_iff.mp h
  exact List.mem_append_right _ List.mem_cons_self

/-! ## Restriction -/

theorem lookup_restrict (test : κ → Bool) (d : List (κ × ν)) (key : κ) :
    (restrict test d).lookup key = if test key then d.lookup key else none := by
  induction d with
  | nil => simp [restrict]
  | cons entry d ih =>
      obtain ⟨k, value⟩ := entry
      unfold restrict at ih ⊢
      by_cases hk : key = k
      · subst hk
        cases htest : test key with
        | true => simp [htest]
        | false =>
            rw [htest] at ih
            simpa [htest] using ih
      · cases htest : test k with
        | true =>
            rw [List.filter_cons_of_pos (by simpa using htest), lookup_cons_eq, lookup_cons_eq,
              if_neg hk, if_neg hk]
            exact ih
        | false =>
            rw [List.filter_cons_of_neg (by simp [htest]), lookup_cons_eq, if_neg hk]
            exact ih

omit [DecidableEq κ] in
theorem keys_restrict_sublist (test : κ → Bool) (d : List (κ × ν)) :
    (keys (restrict test d)).Sublist (keys d) :=
  List.filter_sublist.map Prod.fst

omit [DecidableEq κ] in
theorem nodup_restrict (test : κ → Bool) (hnodup : (keys d).Nodup) :
    (keys (restrict test d)).Nodup :=
  hnodup.sublist (keys_restrict_sublist test d)

/-- A key of a dictionary has one value, or none. -/
theorem valuesAt_eq (hnodup : (keys d).Nodup) (key : κ) : valuesAt key d = (d.lookup key).toList := by
  induction d with
  | nil => rfl
  | cons entry d ih =>
      obtain ⟨k, value⟩ := entry
      obtain ⟨hnot, hrest⟩ := List.nodup_cons.mp hnodup
      unfold valuesAt restrict at ih ⊢
      by_cases hk : k = key
      · subst hk
        have hnone : d.lookup k = none := lookup_eq_none_iff.mpr hnot
        rw [List.filter_cons_of_pos (by simp), List.map_cons, ih hrest, hnone, List.lookup_cons_self]
        rfl
      · rw [List.filter_cons_of_neg (by simpa using hk), ih hrest, lookup_cons_eq,
          if_neg (Ne.symm hk)]

/-! ## Setting a key -/

theorem keys_set (d : List (κ × ν)) (key : κ) (value : ν) :
    keys (set d key value) = if key ∈ keys d then keys d else keys d ++ [key] := by
  unfold set
  split
  · unfold keys
    rw [List.map_map]
    refine List.map_congr_left fun entry _ => ?_
    dsimp only [Function.comp_apply]
    split
    · exact ‹_ = key›.symm
    · rfl
  · simp [keys]

theorem nodup_set (hnodup : (keys d).Nodup) (key : κ) (value : ν) :
    (keys (set d key value)).Nodup := by
  rw [keys_set]
  split
  · exact hnodup
  · rename_i hnot
    rw [List.nodup_append_comm, List.singleton_append, List.nodup_cons]
    exact ⟨hnot, hnodup⟩

theorem lookup_overwrite (d : List (κ × ν)) (key : κ) (value : ν) (k : κ) :
    (d.map fun entry => if entry.1 = key then (key, value) else entry).lookup k
      = if k = key then (d.lookup key).map fun _ => value else d.lookup k := by
  induction d with
  | nil => simp
  | cons entry d ih =>
      obtain ⟨k', v⟩ := entry
      rw [List.map_cons]
      by_cases hhead : k' = key
      · subst hhead
        simp only [if_true, lookup_cons_eq, ih]
        by_cases hk : k = k'
        · simp [hk]
        · simp [hk]
      · have hback : key ≠ k' := Ne.symm hhead
        simp only [if_neg hhead, if_neg hback, lookup_cons_eq, ih]
        by_cases hk : k = k'
        · rw [if_pos hk, if_neg (hk ▸ hhead), if_pos hk]
        · rw [if_neg hk, if_neg hk]

theorem lookup_set (d : List (κ × ν)) (key : κ) (value : ν) (k : κ) :
    (set d key value).lookup k = if k = key then some value else d.lookup k := by
  unfold set
  by_cases hmem : key ∈ keys d
  · obtain ⟨v, hv⟩ := exists_lookup_of_mem_keys hmem
    rw [if_pos hmem, lookup_overwrite, hv]
    rfl
  · rw [if_neg hmem, List.lookup_append, lookup_cons_eq]
    by_cases hk : k = key
    · subst hk
      simp [lookup_eq_none_iff.mpr hmem]
    · simp [hk]

end Reasoning.Entries
