import Mathlib.Data.List.Induction

/-!
# Runs — event sequences of a deterministic transition function

A system is a partial function `step` from a state and an event to the next state; `none` means the
event is not enabled.  All interleavings of its parties are the event sequences it accepts.  The
rules here turn facts about one step into facts about every state and every step of a run.
-/

namespace Reasoning

variable {σ ε : Type*} {step : σ → ε → Option σ}

/-- The state after a sequence of events, provided each is enabled in its turn. -/
def exec (step : σ → ε → Option σ) : σ → List ε → Option σ
  | s, [] => some s
  | s, e :: es => (step s e).bind fun t => exec step t es

/-- The events `es` lead from `s` to `t`. -/
def Run (step : σ → ε → Option σ) (s : σ) (es : List ε) (t : σ) : Prop :=
  exec step s es = some t

theorem run_nil_iff {s t : σ} : Run step s [] t ↔ s = t := by
  simp [Run, exec]

theorem exec_append (s : σ) (es fs : List ε) :
    exec step s (es ++ fs) = (exec step s es).bind fun t => exec step t fs := by
  induction es generalizing s with
  | nil => rfl
  | cons e es ih =>
      simp only [List.cons_append, exec, Option.bind_assoc]
      congr 1
      funext t
      exact ih t

theorem run_append_iff {s u : σ} {es fs : List ε} :
    Run step s (es ++ fs) u ↔ ∃ t, Run step s es t ∧ Run step t fs u := by
  simp only [Run, exec_append, Option.bind_eq_some_iff]

theorem run_cons_iff {s u : σ} {e : ε} {es : List ε} :
    Run step s (e :: es) u ↔ ∃ t, step s e = some t ∧ Run step t es u := by
  simp only [Run, exec, Option.bind_eq_some_iff]

theorem run_concat_iff {s u : σ} {es : List ε} {e : ε} :
    Run step s (es ++ [e]) u ↔ ∃ t, Run step s es t ∧ step t e = some u := by
  simp only [run_append_iff, run_cons_iff, run_nil_iff, exists_eq_right]

theorem Run.unique {s t u : σ} {es : List ε} (ht : Run step s es t) (hu : Run step s es u) :
    t = u :=
  Option.some.inj (ht.symm.trans hu)

/-- The state after the first `n` of a sequence of events. -/
def stateAt (step : σ → ε → Option σ) (s : σ) (es : List ε) (n : ℕ) : σ :=
  (exec step s (es.take n)).getD s

theorem Run.stateAt {s t : σ} {es : List ε} (hrun : Run step s es t) (n : ℕ) :
    Run step s (es.take n) (stateAt step s es n) := by
  rw [← List.take_append_drop n es] at hrun
  obtain ⟨u, hu, -⟩ := run_append_iff.mp hrun
  have hstate : Reasoning.stateAt step s es n = u := by
    rw [Reasoning.stateAt, show exec step s (es.take n) = some u from hu, Option.getD_some]
  rwa [hstate]

theorem Run.stateAt_stateAt {s t : σ} {es : List ε} (hrun : Run step s es t) {m n : ℕ} (hmn : m ≤ n) :
    Run step (Reasoning.stateAt step s es m) ((es.take n).drop m) (Reasoning.stateAt step s es n) := by
  have hn := hrun.stateAt n
  rw [← List.take_append_drop m (es.take n), List.take_take, Nat.min_eq_left hmn] at hn
  obtain ⟨u, hu, hrest⟩ := run_append_iff.mp hn
  obtain rfl := hu.unique (hrun.stateAt m)
  exact hrest

/-- Induction on a run, its last step last. -/
theorem Run.induction {s : σ} {motive : List ε → σ → Prop} (nil : motive [] s)
    (concat : ∀ es t e u, Run step s es t → motive es t → step t e = some u →
      motive (es ++ [e]) u)
    {es : List ε} {t : σ} (h : Run step s es t) : motive es t := by
  induction es using List.reverseRecOn generalizing t with
  | nil =>
      rw [run_nil_iff] at h
      exact h ▸ nil
  | append_singleton es e ih =>
      obtain ⟨u, hu, hstep⟩ := run_concat_iff.mp h
      exact concat es u e t hu (ih hu) hstep

/-- What holds at the start and is kept by every step holds at the end. -/
theorem Run.invariant {s : σ} {I : σ → Prop} (init : I s)
    (keeps : ∀ t e u, I t → step t e = some u → I u)
    {es : List ε} {t : σ} (h : Run step s es t) : I t :=
  h.induction (motive := fun _ t => I t) init fun _ t e u _ ht hstep => keeps t e u ht hstep

section Projection

variable {σ' ε' : Type*} {inner : σ' → ε' → Option σ'} (state : σ → σ') {s t : σ} {es : List ε}

/-- A run of a system that contains another is a run of the other. -/
theorem Run.project
    (h : ∀ {u e v}, step u e = some v →
      state v = state u ∨ ∃ e', inner (state u) e' = some (state v))
    (hrun : Run step s es t) : ∃ fs, Run inner (state s) fs (state t) := by
  refine hrun.invariant (I := fun u => ∃ fs, Run inner (state s) fs (state u))
    ⟨[], run_nil_iff.mpr rfl⟩ ?_
  rintro u e v ⟨fs, hfs⟩ hstep
  rcases h hstep with hsame | ⟨e', hinner⟩
  · exact ⟨fs, hsame ▸ hfs⟩
  · exact ⟨fs ++ [e'], run_concat_iff.mpr ⟨state u, hfs, hinner⟩⟩

/-- It takes the events that are its own. -/
theorem Run.filterMap {event : ε → Option ε'}
    (hnone : ∀ {u e v}, step u e = some v → event e = none → state v = state u)
    (hsome : ∀ {u e v e'}, step u e = some v → event e = some e' →
      inner (state u) e' = some (state v))
    (hrun : Run step s es t) : Run inner (state s) (es.filterMap event) (state t) := by
  refine hrun.induction (motive := fun es u => Run inner (state s) (es.filterMap event) (state u))
    (run_nil_iff.mpr rfl) ?_
  intro es u e v _ ih hstep
  rw [List.filterMap_append]
  cases hevent : event e with
  | none => simpa [hevent, hnone hstep hevent] using ih
  | some e' =>
      simp only [List.filterMap_cons, hevent, List.filterMap_nil]
      exact run_concat_iff.mpr ⟨state u, ih, hsome hstep hevent⟩

end Projection

/-! ## Properties of every state and of every step of a run -/

/-- `P` holds of every state that a run over `es` passes through, with the events that led there. -/
def EveryState (step : σ → ε → Option σ) (s : σ) (es : List ε) (P : List ε → σ → Prop) : Prop :=
  ∀ pre t, pre <+: es → Run step s pre t → P pre t

/-- `C` holds of every step of a run over `es`, in the state the step is taken from. -/
def EveryStep (step : σ → ε → Option σ) (s : σ) (es : List ε) (C : σ → ε → Prop) : Prop :=
  ∀ pre e t, pre ++ [e] <+: es → Run step s pre t → C t e

theorem everyState_nil_iff {s : σ} {P : List ε → σ → Prop} :
    EveryState step s [] P ↔ P [] s := by
  constructor
  · intro h
    exact h [] s (List.prefix_refl _) (run_nil_iff.mpr rfl)
  · intro h pre t hpre hrun
    rw [List.prefix_nil] at hpre
    subst hpre
    rw [run_nil_iff] at hrun
    exact hrun ▸ h

theorem everyState_concat_iff {s u : σ} {es : List ε} {e : ε} {P : List ε → σ → Prop}
    (hrun : Run step s (es ++ [e]) u) :
    EveryState step s (es ++ [e]) P ↔ EveryState step s es P ∧ P (es ++ [e]) u := by
  constructor
  · intro h
    exact ⟨fun pre t hpre => h pre t (hpre.trans (List.prefix_append _ _)),
      h _ u (List.prefix_refl _) hrun⟩
  · rintro ⟨h, hu⟩ pre t hpre ht
    rcases List.prefix_concat_iff.mp hpre with heq | hpre
    · subst heq
      exact ht.unique hrun ▸ hu
    · exact h pre t hpre ht

theorem everyStep_nil {s : σ} {C : σ → ε → Prop} : EveryStep step s [] C := by
  intro pre e t hpre
  simp at hpre

theorem everyStep_cons {s t : σ} {e : ε} {es : List ε} {C : σ → ε → Prop}
    (hstep : step s e = some t) (h : EveryStep step s (e :: es) C) :
    C s e ∧ EveryStep step t es C := by
  constructor
  · exact h [] e s (List.cons_prefix_cons.mpr ⟨rfl, List.nil_prefix⟩) (run_nil_iff.mpr rfl)
  · intro pre f u hpre hrun
    exact h (e :: pre) f u (List.cons_prefix_cons.mpr ⟨rfl, hpre⟩)
      (run_cons_iff.mpr ⟨t, hstep, hrun⟩)

theorem everyStep_concat_iff {s t : σ} {es : List ε} {e : ε} {C : σ → ε → Prop}
    (hrun : Run step s es t) :
    EveryStep step s (es ++ [e]) C ↔ EveryStep step s es C ∧ C t e := by
  constructor
  · intro h
    exact ⟨fun pre f u hpre => h pre f u (hpre.trans (List.prefix_append _ _)),
      h es e t (List.prefix_refl _) hrun⟩
  · rintro ⟨h, ht⟩ pre f u hpre hu
    rcases List.prefix_concat_iff.mp hpre with heq | hpre
    · obtain ⟨rfl, hf⟩ := List.append_inj' heq rfl
      obtain rfl := List.singleton_inj.mp hf
      exact hu.unique hrun ▸ ht
    · exact h pre f u hpre hu

/-- Every event of a run is enabled in its turn. -/
theorem Run.exists_step {s t u : σ} {es pre : List ε} {e : ε} (hrun : Run step s es t)
    (hpre : pre ++ [e] <+: es) (hu : Run step s pre u) : ∃ v, step u e = some v := by
  obtain ⟨post, rfl⟩ := hpre
  obtain ⟨v, hv, -⟩ := run_append_iff.mp hrun
  obtain ⟨w, hw, hstep⟩ := run_concat_iff.mp hv
  exact ⟨v, hw.unique hu ▸ hstep⟩

/-- From one condition to another along a run, step by step: the earlier steps may be used. -/
theorem EveryStep.imp {s t : σ} {es : List ε} {C C' : σ → ε → Prop} (hrun : Run step s es t)
    (h : EveryStep step s es C)
    (himp : ∀ pre e t u, Run step s pre t → EveryStep step s pre C → step t e = some u → C t e →
      C' t e) : EveryStep step s es C' := by
  intro pre e u hpre hu
  have hC := h pre e u hpre hu
  have hearlier : EveryStep step s pre C := fun pre' e' u' hpre' =>
    h pre' e' u' ((hpre'.trans (List.prefix_append pre [e])).trans hpre)
  obtain ⟨v, hstep⟩ := hrun.exists_step hpre hu
  exact himp pre e u v hu hearlier hstep hC

theorem EveryStep.concat {s t : σ} {es : List ε} {e : ε} {C : σ → ε → Prop} (hrun : Run step s es t)
    (h : EveryStep step s es C) (ht : C t e) : EveryStep step s (es ++ [e]) C :=
  (everyStep_concat_iff hrun).mpr ⟨h, ht⟩

/-- A run has a last step with `C`, or none. -/
theorem Run.last_step {s t : σ} {es : List ε} (hrun : Run step s es t) (C : σ → ε → Prop) :
    EveryStep step s es (fun u e => ¬ C u e) ∨
      ∃ earlier e later u v, es = earlier ++ e :: later ∧ Run step s earlier u ∧ C u e ∧
        step u e = some v ∧ Run step v later t ∧ EveryStep step v later fun w f => ¬ C w f := by
  refine hrun.induction (motive := fun es t => EveryStep step s es (fun u e => ¬ C u e) ∨
    ∃ earlier e later u v, es = earlier ++ e :: later ∧ Run step s earlier u ∧ C u e ∧
      step u e = some v ∧ Run step v later t ∧ EveryStep step v later fun w f => ¬ C w f)
    (.inl everyStep_nil) ?_
  intro es t f w ht ih hstep
  by_cases hC : C t f
  · exact .inr ⟨es, f, [], t, w, rfl, ht, hC, hstep, run_nil_iff.mpr rfl, everyStep_nil⟩
  · rcases ih with hnone | ⟨earlier, e, later, u, v, rfl, hu, hCu, hv, hlater, hnone⟩
    · exact .inl (hnone.concat ht hC)
    · exact .inr ⟨earlier, e, later ++ [f], u, v, by simp, hu, hCu, hv,
        run_concat_iff.mpr ⟨t, hlater, hstep⟩, hnone.concat hlater hC⟩

/-! ## Checking a given run -/

/-- Try `c` on every step of a run over `es`, up to the first event that is not enabled. -/
def checkSteps (step : σ → ε → Option σ) (c : σ → ε → Bool) : σ → List ε → Bool
  | _, [] => true
  | s, e :: es =>
      c s e &&
        match step s e with
        | some t => checkSteps step c t es
        | none => true

theorem everyStep_of_checkSteps {s : σ} {es : List ε} {c : σ → ε → Bool} {C : σ → ε → Prop}
    (hc : ∀ t e, c t e → C t e) (h : checkSteps step c s es) : EveryStep step s es C := by
  induction es generalizing s with
  | nil => exact everyStep_nil
  | cons e es ih =>
      rw [checkSteps, Bool.and_eq_true] at h
      rintro (_ | ⟨e', pre⟩) f t hpre hrun
      · obtain ⟨rfl, -⟩ := List.cons_prefix_cons.mp hpre
        rw [run_nil_iff] at hrun
        exact hc t f (hrun ▸ h.1)
      · obtain ⟨rfl, htail⟩ := List.cons_prefix_cons.mp hpre
        obtain ⟨u, hu, hrun⟩ := run_cons_iff.mp hrun
        rw [hu] at h
        exact ih h.2 pre f t htail hrun

/-- Try `p` on every state of a run over `es`. -/
def checkStates (step : σ → ε → Option σ) (p : σ → Bool) : σ → List ε → Bool
  | s, [] => p s
  | s, e :: es =>
      p s &&
        match step s e with
        | some t => checkStates step p t es
        | none => true

theorem everyState_of_checkStates {s : σ} {es : List ε} {p : σ → Bool} {P : σ → Prop}
    (hp : ∀ t, p t → P t) (h : checkStates step p s es) : EveryState step s es fun _ t => P t := by
  induction es generalizing s with
  | nil => exact everyState_nil_iff.mpr (hp s h)
  | cons e es ih =>
      rw [checkStates, Bool.and_eq_true] at h
      rintro (_ | ⟨e', pre⟩) t hpre hrun
      · rw [run_nil_iff] at hrun
        exact hp t (hrun ▸ h.1)
      · obtain ⟨rfl, htail⟩ := List.cons_prefix_cons.mp hpre
        obtain ⟨u, hu, hrun⟩ := run_cons_iff.mp hrun
        rw [hu] at h
        exact ih h.2 pre t htail hrun

/-! ## Step conditions -/

/-- What holds at the start and is kept by every step with `C` holds throughout a run of such
steps. -/
theorem EveryStep.everyState {s : σ} {es : List ε} {C : σ → ε → Prop} {P : List ε → σ → Prop}
    (h : EveryStep step s es C) (init : P [] s)
    (keeps : ∀ pre t e u, Run step s pre t → P pre t → C t e → step t e = some u →
      P (pre ++ [e]) u) : EveryState step s es P := by
  intro pre t hpre hrun
  revert hpre
  refine hrun.induction (motive := fun pre t => pre <+: es → P pre t) (fun _ => init) ?_
  intro pre t e u ht ih hstep hpre
  exact keeps pre t e u ht (ih ((List.prefix_append pre [e]).trans hpre)) (h pre e t hpre ht) hstep

/-- What every step with `C` keeps is kept by a run of such steps. -/
theorem EveryStep.invariant {s t : σ} {es : List ε} {C : σ → ε → Prop} {I : σ → Prop}
    (h : EveryStep step s es C) (hrun : Run step s es t) (init : I s)
    (keeps : ∀ t e u, I t → C t e → step t e = some u → I u) : I t :=
  h.everyState (P := fun _ u => I u) init (fun _ t e u _ ht hC hstep => keeps t e u ht hC hstep)
    es t (List.prefix_refl _) hrun

/-- **Exact step conditions.**  If `P` holds at the start, and a step from a state with `P` leads to
a state with `P` exactly when `C` holds of it, then `P` holds throughout a run exactly when `C` holds
of each of its steps. -/
theorem everyState_iff_everyStep {s t : σ} {es : List ε} {P : List ε → σ → Prop}
    {C : σ → ε → Prop} (init : P [] s)
    (hstep : ∀ pre e t u, Run step s pre t → EveryState step s pre P → step t e = some u →
      (P (pre ++ [e]) u ↔ C t e))
    (hrun : Run step s es t) : EveryState step s es P ↔ EveryStep step s es C := by
  refine hrun.induction (motive := fun es _ => EveryState step s es P ↔ EveryStep step s es C)
    ?_ ?_
  · simp only [everyState_nil_iff, init, true_iff]
    exact everyStep_nil
  · intro es t e u ht ih hu
    rw [everyState_concat_iff (run_concat_iff.mpr ⟨t, ht, hu⟩), everyStep_concat_iff ht, ← ih]
    constructor
    · rintro ⟨hP, hu'⟩
      exact ⟨hP, (hstep es e t u ht hP hu).mp hu'⟩
    · rintro ⟨hP, hC⟩
      exact ⟨hP, (hstep es e t u ht hP hu).mpr hC⟩

end Reasoning
