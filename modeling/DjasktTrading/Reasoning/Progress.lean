import DjasktTrading.Reasoning.Runs
import Mathlib.Algebra.BigOperators.Group.List.Basic
import Mathlib.Algebra.Ring.Nat

/-!
# Progress — systems whose parties come to an end

`work` counts what the parties still have to do.  If each of their steps uses some of it up, no
schedule of such steps is longer than the work there is; if besides a step is enabled as long as
anything is left, every schedule can be continued to the end.
-/

namespace Reasoning

variable {σ ε : Type*} {step : σ → ε → Option σ} {Own : ε → Prop} {work : σ → ℕ}

/-- Every step of the parties' own uses up work. -/
def Spends (step : σ → ε → Option σ) (Own : ε → Prop) (work : σ → ℕ) : Prop :=
  ∀ s e t, Own e → step s e = some t → work t < work s

/-- A schedule whose steps use up work is no longer than the work it uses up. -/
theorem Run.length_add_le_of_everyStep {C : σ → ε → Prop} {s t : σ} {es : List ε}
    (hspends : ∀ u e v, C u e → step u e = some v → work v < work u) (hrun : Run step s es t)
    (hsteps : EveryStep step s es C) : es.length + work t ≤ work s := by
  refine hrun.induction
    (motive := fun es t => EveryStep step s es C → es.length + work t ≤ work s) ?_ ?_ hsteps
  · intro _
    exact Nat.le_of_eq (Nat.zero_add (work s))
  · intro es t e u ht ih hstep hsteps
    obtain ⟨hearlier, hlast⟩ := (everyStep_concat_iff ht).mp hsteps
    have hbefore := ih hearlier
    have hless := hspends t e u hlast hstep
    rw [List.length_append, List.length_singleton]
    omega

/-- A schedule of the parties' own steps, likewise. -/
theorem Run.length_add_le {s t : σ} {es : List ε} (hspends : Spends step Own work)
    (hrun : Run step s es t) (hown : ∀ e ∈ es, Own e) : es.length + work t ≤ work s := by
  apply hrun.length_add_le_of_everyStep (C := fun _ e => Own e) hspends
  intro pre e u hpre _
  exact hown e (hpre.subset (List.mem_append_right pre (List.mem_singleton_self e)))

/-- Where a step is enabled as long as something is left, the parties can be run to their end. -/
theorem exists_run_of_spends {Done : σ → Prop} (hspends : Spends step Own work)
    (hprogress : ∀ s, ¬ Done s → ∃ e t, Own e ∧ step s e = some t) (s : σ) :
    ∃ es t, (∀ e ∈ es, Own e) ∧ Run step s es t ∧ Done t := by
  -- by the work that is left
  induction hwork : work s using Nat.strongRecOn generalizing s with
  | _ n ih =>
      by_cases hdone : Done s
      · exact ⟨[], s, by simp, run_nil_iff.mpr rfl, hdone⟩
      · obtain ⟨e, t, hown, hstep⟩ := hprogress s hdone
        obtain ⟨es, u, hes, hrun, hend⟩ := ih (work t) (hwork ▸ hspends s e t hown hstep) t rfl
        refine ⟨e :: es, u, ?_, run_cons_iff.mpr ⟨t, hstep, hrun⟩, hend⟩
        intro f hf
        rcases List.mem_cons.mp hf with rfl | hf
        · exact hown
        · exact hes f hf

/-! ## Work summed over the places of a list -/

theorem sum_map_modify {α : Type*} (g : α → ℕ) (f : α → α) {xs : List α} {i : ℕ} {x : α}
    (hx : xs[i]? = some x) :
    ((xs.modify i f).map g).sum + g x = (xs.map g).sum + g (f x) := by
  induction xs generalizing i with
  | nil => cases hx
  | cons y ys ih =>
      cases i with
      | zero =>
          obtain rfl : y = x := by simpa using hx
          simp only [List.modify_zero_cons, List.map_cons, List.sum_cons]
          omega
      | succ i =>
          have htail := ih (by simpa using hx)
          simp only [List.modify_succ_cons, List.map_cons, List.sum_cons]
          omega

theorem sum_map_set {α : Type*} (g : α → ℕ) {xs : List α} {i : ℕ} {x : α} (hx : xs[i]? = some x)
    (y : α) : ((xs.set i y).map g).sum + g x = (xs.map g).sum + g y := by
  have hsum := sum_map_modify g (fun _ => y) hx
  rwa [← List.set_eq_modify] at hsum

/-- At most so much work for each place. -/
theorem sum_map_le {α : Type*} {g : α → ℕ} {n : ℕ} (h : ∀ x, g x ≤ n) (xs : List α) :
    (xs.map g).sum ≤ n * xs.length := by
  induction xs with
  | nil => exact Nat.zero_le _
  | cons x xs ih =>
      rw [List.map_cons, List.sum_cons, List.length_cons, Nat.mul_succ]
      have hx := h x
      omega

end Reasoning
