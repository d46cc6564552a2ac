import DjasktTrading.Reasoning.Runs
import DjasktTrading.Reasoning.Slots
import Mathlib.Data.List.Nodup

/-!
# Reordering — runs that differ only in how their owners interleave

Every event belongs to one owner and carries a label that can be used once.  When a step shows only
in its owner's part of the state, and needs only that part and an unused label, a run may be
reordered freely as long as each owner's events keep their order: the classical argument that a
schedule equals every serial schedule it does not conflict with.
-/

namespace Reasoning

variable {σ ε κ ι : Type*} [DecidableEq κ]

/-- A list is a permutation of another if they agree on each class of elements. -/
theorem perm_of_filter_eq {α : Type*} [DecidableEq α] (owner : α → κ) {xs ys : List α}
    (h : ∀ k, xs.filter (owner · = k) = ys.filter (owner · = k)) : xs.Perm ys := by
  rw [List.perm_iff_count]
  intro a
  have hcount (zs : List α) : zs.count a = (zs.filter (owner · = owner a)).count a := by
    rw [List.count_filter (by simp)]
  rw [hcount xs, hcount ys, h]

theorem filter_concat_owner (owner : ε → κ) (es : List ε) (e : ε) :
    (es ++ [e]).filter (owner · = owner e) = es.filter (owner · = owner e) ++ [e] := by
  simp

theorem filter_concat_of_ne {owner : ε → κ} {e : ε} {k : κ} (hk : owner e ≠ k) (es : List ε) :
    (es ++ [e]).filter (owner · = k) = es.filter (owner · = k) := by
  simp [hk]

/-- How the steps of one system fall apart by owner.  `agree k` compares the part of the state that
belongs to `k`, `used` says which labels a state has seen. -/
structure Partition (step : σ → ε → Option σ) (owner : ε → κ) (label : ε → ι) where
  agree : κ → σ → σ → Prop
  used : σ → ι → Prop
  refl : ∀ k s, agree k s s
  symm : ∀ {k s t}, agree k s t → agree k t s
  trans : ∀ {k s t u}, agree k s t → agree k t u → agree k s u
  enabled : ∀ {s e t}, step s e = some t → ¬ used s (label e)
  used_step : ∀ {s e t}, step s e = some t → ∀ l, used t l ↔ used s l ∨ l = label e
  frame : ∀ {s e t}, step s e = some t → ∀ k, k ≠ owner e → agree k t s
  transfer : ∀ {s s' e t}, agree (owner e) s s' → ¬ used s' (label e) → step s e = some t →
    ∃ t', step s' e = some t' ∧ agree (owner e) t t'

namespace Partition

variable {step : σ → ε → Option σ} {owner : ε → κ} {label : ε → ι}

omit [DecidableEq κ] in
/-- The labels of a run are new and pairwise different. -/
theorem run_labels (p : Partition step owner label) {s t : σ} {es : List ε}
    (h : Run step s es t) :
    (es.map label).Nodup ∧ (∀ l ∈ es.map label, ¬ p.used s l) ∧
      ∀ l, p.used t l ↔ p.used s l ∨ l ∈ es.map label := by
  refine h.induction (motive := fun es t => (es.map label).Nodup ∧
    (∀ l ∈ es.map label, ¬ p.used s l) ∧ ∀ l, p.used t l ↔ p.used s l ∨ l ∈ es.map label) ?_ ?_
  · simp
  · rintro es t e u ht ⟨hnodup, hnew, hused⟩ hstep
    have he := p.enabled hstep
    rw [hused, not_or] at he
    refine ⟨?_, ?_, fun l => ?_⟩
    · refine nodup_map_append_singleton hnodup fun f hf heq => ?_
      exact he.2 (heq ▸ List.mem_map_of_mem hf)
    · intro l hl
      rw [List.map_append, List.mem_append] at hl
      rcases hl with hl | hl
      · exact hnew l hl
      · obtain rfl := List.mem_singleton.mp hl
        exact he.1
    · rw [p.used_step hstep, hused, List.map_append, List.mem_append, or_assoc]
      simp

/-- One owner's events run on their own, to the same part of the state. -/
theorem run_filter (p : Partition step owner label) {s t : σ} {es : List ε}
    (h : Run step s es t) (k : κ) :
    ∃ tk, Run step s (es.filter (owner · = k)) tk ∧ p.agree k t tk := by
  refine h.induction (motive := fun es t =>
    ∃ tk, Run step s (es.filter (owner · = k)) tk ∧ p.agree k t tk) ?_ ?_
  · exact ⟨s, run_nil_iff.mpr rfl, p.refl k s⟩
  · rintro es t e u ht ⟨tk, htk, hagree⟩ hstep
    by_cases hk : owner e = k
    · -- the owner's own event: its label is as new on the shorter run
      subst hk
      have hunused : ¬ p.used tk (label e) := by
        have he := p.enabled hstep
        rw [(p.run_labels ht).2.2, not_or] at he
        rw [(p.run_labels htk).2.2, not_or]
        refine ⟨he.1, fun hmem => he.2 ?_⟩
        obtain ⟨f, hf, hlabel⟩ := List.mem_map.mp hmem
        exact List.mem_map.mpr ⟨f, List.mem_of_mem_filter hf, hlabel⟩
      obtain ⟨uk, huk, hagree'⟩ := p.transfer hagree hunused hstep
      refine ⟨uk, ?_, hagree'⟩
      rw [filter_concat_owner]
      exact run_concat_iff.mpr ⟨tk, htk, huk⟩
    · -- another owner's event does not show
      refine ⟨tk, ?_, p.trans (p.frame hstep k (Ne.symm hk)) hagree⟩
      rw [filter_concat_of_ne hk]
      exact htk

omit [DecidableEq κ] in
/-- Events of one owner that run from two states with the same part of his lead to two such states. -/
theorem agree_of_runs (p : Partition step owner label) {k : κ} {s s' t t' : σ} {es : List ε}
    (hagree : p.agree k s s') (h : Run step s es t) (h' : Run step s' es t')
    (howner : ∀ e ∈ es, owner e = k) : p.agree k t t' := by
  induction es generalizing s s' with
  | nil =>
      obtain rfl := run_nil_iff.mp h
      obtain rfl := run_nil_iff.mp h'
      exact hagree
  | cons e es ih =>
      obtain ⟨u, hstep, hrest⟩ := run_cons_iff.mp h
      obtain ⟨u', hstep', hrest'⟩ := run_cons_iff.mp h'
      have he := howner e List.mem_cons_self
      obtain ⟨v, hv, hnext⟩ := p.transfer (he ▸ hagree) (p.enabled hstep') hstep
      obtain rfl : v = u' := Option.some.inj (hv.symm.trans hstep')
      exact ih (he ▸ hnext) hrest hrest' fun f hf => howner f (List.mem_cons_of_mem e hf)

/-- Events that run owner by owner, under new and different labels, run together in their order. -/
theorem run_of_filters (p : Partition step owner label) {s : σ} {es : List ε}
    (hnodup : (es.map label).Nodup) (hnew : ∀ l ∈ es.map label, ¬ p.used s l)
    (h : ∀ k, ∃ tk, Run step s (es.filter (owner · = k)) tk) :
    ∃ t, Run step s es t ∧
      ∀ k tk, Run step s (es.filter (owner · = k)) tk → p.agree k t tk := by
  induction es using List.reverseRecOn with
  | nil =>
      refine ⟨s, run_nil_iff.mpr rfl, fun k tk htk => ?_⟩
      obtain rfl := run_nil_iff.mp htk
      exact p.refl k s
  | append_singleton es e ih =>
      rw [List.map_append, List.nodup_append] at hnodup
      obtain ⟨t, ht, hagree⟩ := ih hnodup.1
        (fun l hl => hnew l (by rw [List.map_append]; exact List.mem_append_left _ hl))
        (fun k => by
          obtain ⟨tk, htk⟩ := h k
          rw [List.filter_append] at htk
          obtain ⟨tk', htk', -⟩ := run_append_iff.mp htk
          exact ⟨tk', htk'⟩)
      -- the new event comes last among its owner's events
      obtain ⟨v, hv⟩ := h (owner e)
      rw [filter_concat_owner] at hv
      obtain ⟨v₀, hv₀, hstep⟩ := run_concat_iff.mp hv
      have hunused : ¬ p.used t (label e) := by
        rw [(p.run_labels ht).2.2, not_or]
        refine ⟨hnew _ (by simp), fun hmem => ?_⟩
        exact hnodup.2.2 _ hmem _ (List.mem_singleton_self _) rfl
      obtain ⟨u, hu, hagree'⟩ := p.transfer (p.symm (hagree _ v₀ hv₀)) hunused hstep
      refine ⟨u, run_concat_iff.mpr ⟨t, ht, hu⟩, fun k tk htk => ?_⟩
      by_cases hk : owner e = k
      · subst hk
        rw [filter_concat_owner] at htk
        obtain rfl := htk.unique hv
        exact p.symm hagree'
      · rw [filter_concat_of_ne hk] at htk
        exact p.trans (p.frame hu k (Ne.symm hk)) (hagree k tk htk)

/-- **Reordering.**  Events that keep each owner's order run as well, and leave every owner with the
same part of the state. -/
theorem reorder (p : Partition step owner label) [DecidableEq ε] {s t : σ} {es fs : List ε}
    (h : Run step s es t)
    (hfilter : ∀ k, fs.filter (owner · = k) = es.filter (owner · = k)) :
    ∃ u, Run step s fs u ∧ ∀ k, p.agree k t u := by
  have hperm : (fs.map label).Perm (es.map label) := (perm_of_filter_eq owner hfilter).map label
  obtain ⟨hnodup, hnew, -⟩ := p.run_labels h
  -- take the run apart by owner, and put it together in the other order
  obtain ⟨u, hu, hagree⟩ := p.run_of_filters (hperm.nodup_iff.mpr hnodup)
    (fun l hl => hnew l (hperm.mem_iff.mp hl))
    (fun k => by
      obtain ⟨tk, htk, -⟩ := p.run_filter h k
      exact ⟨tk, by rw [hfilter]; exact htk⟩)
  refine ⟨u, hu, fun k => ?_⟩
  obtain ⟨tk, htk, hagree'⟩ := p.run_filter h k
  exact p.trans hagree' (p.symm (hagree k tk (by rw [hfilter]; exact htk)))

end Partition

end Reasoning
