import Mathlib.Data.List.Nodup

/-!
# Slots — a list with one place for each party

A party that arrives gets the next place and keeps it; what it does next replaces what stands there.
`f` reads something off a place.
-/

namespace Reasoning

variable {α β γ : Type*} {f : α → Option β} {xs : List α} {x y : α} {b : β} {i j : ℕ}

/-- The places after an arrival. -/
theorem getElem?_append_singleton_cases (h : (xs ++ [x])[i]? = some y) :
    xs[i]? = some y ∨ i = xs.length ∧ x = y := by
  rcases Nat.lt_trichotomy i xs.length with hlt | rfl | hgt
  · rw [List.getElem?_append_left hlt] at h
    exact .inl h
  · rw [List.getElem?_concat_length] at h
    exact .inr ⟨rfl, Option.some.inj h⟩
  · rw [List.getElem?_append_right (Nat.le_of_lt hgt),
      List.getElem?_eq_none (by simp only [List.length_singleton]; omega)] at h
    cases h

/-- The places after one is replaced. -/
theorem getElem?_set_cases (h : (xs.set i x)[j]? = some y) :
    i = j ∧ x = y ∨ i ≠ j ∧ xs[j]? = some y := by
  rw [List.getElem?_set] at h
  by_cases hij : i = j
  · rw [if_pos hij] at h
    split at h
    · exact .inl ⟨hij, Option.some.inj h⟩
    · cases h
  · rw [if_neg hij] at h
    exact .inr ⟨hij, h⟩

/-- A mark that is new leaves all marks different. -/
theorem nodup_map_append_singleton {g : α → γ} (h : (xs.map g).Nodup) (hnew : ∀ y ∈ xs, g y ≠ g x) :
    ((xs ++ [x]).map g).Nodup := by
  rw [List.map_append, List.nodup_append]
  refine ⟨h, List.nodup_singleton _, ?_⟩
  intro m hm m' hm'
  obtain ⟨y, hy, rfl⟩ := List.mem_map.mp hm
  rw [List.mem_singleton.mp hm']
  exact hnew y hy

/-- What stands in a list stays there when one place is replaced, unless it stands in that place. -/
theorem mem_set_or_eq {z : α} (hx : xs[i]? = some x) (hy : y ∈ xs) : y ∈ xs.set i z ∨ y = x := by
  obtain ⟨j, hj⟩ := List.mem_iff_getElem?.mp hy
  by_cases hij : i = j
  · rw [hij, hj] at hx
    exact .inr (Option.some.inj hx)
  · refine .inl (List.mem_iff_getElem?.mpr ⟨j, ?_⟩)
    rwa [List.getElem?_set_ne hij]

/-- What replaces a place stands in the list. -/
theorem mem_set_of_getElem? (hx : xs[i]? = some x) (y : α) : y ∈ xs.set i y :=
  List.mem_set (List.getElem?_eq_some_iff.mp hx).1 y

/-- A place that counts as before leaves the count. -/
theorem countP_set_of_eq {q : α → Bool} (hx : xs[i]? = some x) (h : q y = q x) :
    (xs.set i y).countP q = xs.countP q := by
  obtain ⟨hlt, rfl⟩ := List.getElem?_eq_some_iff.mp hx
  rw [List.countP_set hlt, h]
  split
  · have hpos : 0 < xs.countP q := List.countP_pos_iff.mpr ⟨_, List.getElem_mem hlt, ‹_›⟩
    omega
  · rfl

/-- What replaces a place counts for it. -/
theorem countP_set_add {q : α → Bool} (hx : xs[i]? = some x) (y : α) :
    (xs.set i y).countP q + (if q x then 1 else 0) = xs.countP q + if q y then 1 else 0 := by
  obtain ⟨hlt, rfl⟩ := List.getElem?_eq_some_iff.mp hx
  rw [List.countP_set hlt]
  by_cases hold : q xs[i]
  · have hpos : 0 < xs.countP q := List.countP_pos_iff.mpr ⟨_, List.getElem_mem hlt, hold⟩
    rw [if_pos hold]
    omega
  · rw [if_neg hold]
    rfl

/-- Who arrives with nothing to read adds nothing. -/
theorem bind_append_singleton (hnone : f x = none) (h : ((xs ++ [x])[i]?).bind f = some b) :
    (xs[i]?).bind f = some b := by
  obtain ⟨y, hy, hb⟩ := Option.bind_eq_some_iff.mp h
  rcases getElem?_append_singleton_cases hy with hold | ⟨-, rfl⟩
  · exact Option.bind_eq_some_iff.mpr ⟨y, hold, hb⟩
  · rw [hnone] at hb
    cases hb

theorem bind_set_cases (h : ((xs.set i x)[j]?).bind f = some b) :
    i = j ∧ f x = some b ∨ i ≠ j ∧ (xs[j]?).bind f = some b := by
  obtain ⟨y, hy, hb⟩ := Option.bind_eq_some_iff.mp h
  rcases getElem?_set_cases hy with ⟨hij, rfl⟩ | ⟨hij, hold⟩
  · exact .inl ⟨hij, hb⟩
  · exact .inr ⟨hij, Option.bind_eq_some_iff.mpr ⟨y, hold, hb⟩⟩

/-- What the places hold together, when one of them comes to hold more. -/
theorem flatMap_set_perm {g : α → List β} {more : List β} (hx : xs[i]? = some x)
    (hy : g y = g x ++ more) : ((xs.set i y).flatMap g).Perm (xs.flatMap g ++ more) := by
  induction xs generalizing i with
  | nil => cases hx
  | cons z zs ih =>
      cases i with
      | zero =>
          obtain rfl : z = x := by simpa using hx
          rw [List.set_cons_zero, List.flatMap_cons, List.flatMap_cons, hy, List.append_assoc,
            List.append_assoc]
          exact List.perm_append_comm.append_left (g z)
      | succ i =>
          rw [List.set_cons_succ, List.flatMap_cons, List.flatMap_cons, List.append_assoc]
          exact (ih (by simpa using hx)).append_left (g z)

/-- Where nothing is read off twice, what is read off tells the place. -/
theorem eq_of_nodup_filterMap (h : (xs.filterMap f).Nodup) (hi : (xs[i]?).bind f = some b)
    (hj : (xs[j]?).bind f = some b) : i = j := by
  obtain ⟨x, hx, hb⟩ := Option.bind_eq_some_iff.mp hi
  obtain ⟨y, hy, hb'⟩ := Option.bind_eq_some_iff.mp hj
  obtain ⟨hilt, rfl⟩ := List.getElem?_eq_some_iff.mp hx
  obtain ⟨hjlt, rfl⟩ := List.getElem?_eq_some_iff.mp hy
  have hapart := List.pairwise_iff_getElem.mp (List.pairwise_filterMap.mp h)
  rcases Nat.lt_trichotomy i j with hlt | heq | hgt
  · exact absurd rfl (hapart i j hilt hjlt hlt b hb b hb')
  · exact heq
  · exact absurd rfl (hapart j i hjlt hilt hgt b hb' b hb)

end Reasoning
