import Mathlib.Data.List.Infix
import Mathlib.Tactic.Common

/-!
# Pages — a list read a window at a time

A client that asks for one window after another sees the list at a different moment each time.  While
the list only grows at its front, an element moves away from the windows that were asked for, so none
is passed over.
-/

namespace Reasoning

variable {α : Type*}

/-- The `k`-th window of `limit` elements. -/
def page (limit k : ℕ) (xs : List α) : List α := (xs.drop (k * limit)).take limit

theorem page_isPrefix (limit k : ℕ) (xs : List α) : page limit k xs <+: xs.drop (k * limit) :=
  List.take_prefix _ _

theorem page_sublist (limit k : ℕ) (xs : List α) : (page limit k xs).Sublist xs :=
  (page_isPrefix limit k xs).sublist.trans (List.drop_sublist _ _)

theorem mem_page {limit k p : ℕ} {xs : List α} {x : α} (hlo : k * limit ≤ p)
    (hhi : p < (k + 1) * limit) (hx : xs[p]? = some x) : x ∈ page limit k xs := by
  rw [Nat.succ_mul] at hhi
  refine List.mem_of_getElem? (i := p - k * limit) ?_
  rw [page, List.getElem?_take_of_lt (by omega), List.getElem?_drop]
  rwa [Nat.add_sub_cancel' hlo]

/-- Windows laid end to end. -/
theorem flatMap_page (limit n : ℕ) (xs : List α) :
    (List.range n).flatMap (fun k => page limit k xs) = xs.take (n * limit) := by
  induction n with
  | zero => simp
  | succ n ih =>
      rw [List.range_succ, List.flatMap_append, ih, List.flatMap_singleton, Nat.succ_mul,
        List.take_add]
      rfl

theorem getElem?_of_suffix {xs ys : List α} (h : xs <:+ ys) {p : ℕ} {x : α}
    (hx : xs[p]? = some x) : ∃ q, p ≤ q ∧ ys[q]? = some x := by
  obtain ⟨news, rfl⟩ := h
  refine ⟨news.length + p, by omega, ?_⟩
  rwa [List.getElem?_append_right (by omega), Nat.add_sub_cancel_left]

/-- The walk has met the element, or the element is still ahead of it. -/
theorem exists_page_or_ahead {xs : ℕ → List α} {limit last : ℕ}
    (hgrow : ∀ k < last, xs k <:+ xs (k + 1)) {x : α} (hx : x ∈ xs 0) :
    ∀ m ≤ last, (∃ k < m, x ∈ page limit k (xs k)) ∨
      ∃ p, m * limit ≤ p ∧ (xs m)[p]? = some x := by
  intro m hm
  induction m with
  | zero =>
      obtain ⟨p, hp⟩ := List.mem_iff_getElem?.mp hx
      exact .inr ⟨p, by omega, hp⟩
  | succ m ih =>
      rcases ih (by omega) with ⟨k, hk, hmem⟩ | ⟨p, hlo, hp⟩
      · exact .inl ⟨k, by omega, hmem⟩
      by_cases hhi : p < (m + 1) * limit
      · exact .inl ⟨m, by omega, mem_page hlo hhi hp⟩
      · -- it can only have moved further back
        obtain ⟨q, hpq, hq⟩ := getElem?_of_suffix (hgrow m (by omega)) hp
        exact .inr ⟨q, by omega, hq⟩

/-- A walk through windows has met every element the list had when it began, but for those that lie
behind its last window in the end. -/
theorem exists_page_or_behind (xs : ℕ → List α) {limit last : ℕ}
    (hgrow : ∀ k < last, xs k <:+ xs (k + 1)) {x : α} (hx : x ∈ xs 0) :
    (∃ k ≤ last, x ∈ page limit k (xs k)) ∨ x ∈ (xs last).drop ((last + 1) * limit) := by
  rcases exists_page_or_ahead hgrow hx last le_rfl with ⟨k, hk, hmem⟩ | ⟨p, hlo, hp⟩
  · exact .inl ⟨k, hk.le, hmem⟩
  by_cases hhi : p < (last + 1) * limit
  · exact .inl ⟨last, le_rfl, mem_page hlo hhi hp⟩
  · refine .inr (List.mem_of_getElem? (i := p - (last + 1) * limit) ?_)
    rw [List.getElem?_drop, Nat.add_sub_cancel' (not_lt.mp hhi), hp]

end Reasoning
