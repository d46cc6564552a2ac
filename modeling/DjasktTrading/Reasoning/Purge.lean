import DjasktTrading.Reasoning.Runs

/-!
# Purge — what an observer sees of a run from which events are removed

Two runs side by side: one over all events, one over those that are not hidden.  A relation between
their states that a hidden step keeps while the second run stands still, and that every other step
keeps in both runs, gives the observer the same answers in both.
-/

namespace Reasoning

variable {σ ε ο : Type*}

/-- The answers that the events marked by `sees` get along a run. -/
def answers (step : σ → ε → Option σ) (out : σ → ε → ο) (sees : ε → Bool) : σ → List ε → List ο
  | _, [] => []
  | s, e :: es =>
      let seen := if sees e then [out s e] else []
      match step s e with
      | some t => seen ++ answers step out sees t es
      | none => seen

theorem answers_cons_of_step {step : σ → ε → Option σ} {out : σ → ε → ο} {sees : ε → Bool} {s t : σ}
    {e : ε} (hstep : step s e = some t) (es : List ε) :
    answers step out sees s (e :: es) =
      (if sees e then [out s e] else []) ++ answers step out sees t es := by
  rw [answers, hstep]

/-- `R` relates a state of the full run to one of the run without the hidden events; the steps are
those that satisfy `C`. -/
structure Unwinding (step : σ → ε → Option σ) (out : σ → ε → ο) (hidden sees : ε → Bool)
    (C : σ → ε → Prop) (R : σ → σ → Prop) : Prop where
  removed : ∀ s s' e t, hidden e → C s e → R s s' → step s e = some t → R t s'
  kept : ∀ s s' e t, ¬ hidden e → C s e → R s s' → step s e = some t →
    ∃ t', step s' e = some t' ∧ R t t'
  unseen : ∀ e, hidden e → sees e = false
  seen : ∀ s s' e, sees e → C s e → R s s' → out s e = out s' e

/-- **Purging.**  The run without the hidden events exists, ends in a related state, and gives the
observer the same answers. -/
theorem Unwinding.purge {step : σ → ε → Option σ} {out : σ → ε → ο} {hidden sees : ε → Bool}
    {C : σ → ε → Prop} {R : σ → σ → Prop} (h : Unwinding step out hidden sees C R) {s s' t : σ}
    {es : List ε} (hR : R s s') (hrun : Run step s es t) (hC : EveryStep step s es C) :
    ∃ t', Run step s' (es.filter fun e => !hidden e) t' ∧ R t t' ∧
      answers step out sees s es = answers step out sees s' (es.filter fun e => !hidden e) := by
  induction es generalizing s s' with
  | nil =>
      rw [run_nil_iff] at hrun
      subst hrun
      exact ⟨s', rfl, hR, rfl⟩
  | cons e es ih =>
      obtain ⟨u, hstep, hrun⟩ := run_cons_iff.mp hrun
      obtain ⟨hcond, hrest⟩ := everyStep_cons hstep hC
      rw [answers_cons_of_step hstep]
      by_cases hhidden : hidden e
      · -- the second run stands still
        obtain ⟨t', hrun', ht', hanswers⟩ := ih (h.removed s s' e u hhidden hcond hR hstep) hrun hrest
        rw [List.filter_cons_of_neg (by simp [hhidden]), h.unseen e hhidden]
        exact ⟨t', hrun', ht', hanswers⟩
      · obtain ⟨u', hstep', hu'⟩ := h.kept s s' e u hhidden hcond hR hstep
        obtain ⟨t', hrun', ht', hanswers⟩ := ih hu' hrun hrest
        rw [List.filter_cons_of_pos (by simp [hhidden])]
        refine ⟨t', run_cons_iff.mpr ⟨u', hstep', hrun'⟩, ht', ?_⟩
        rw [answers_cons_of_step hstep', hanswers]
        by_cases hsees : sees e
        · rw [h.seen s s' e hsees hcond hR]
        · rw [if_neg hsees, if_neg hsees]

end Reasoning
