import DjasktTrading.Reasoning.Runs
import Mathlib.Algebra.Order.BigOperators.Group.Finset

/-!
# Tallies — what the steps of a run add up to

Every step has a weight, which may depend on the state that it is taken from.
-/

namespace Reasoning

variable {σ ε ι M : Type*} [AddCommMonoid M] {step : σ → ε → Option σ} {weight weight' : σ → ε → M}
  {s t : σ} {e : ε} {es : List ε}

/-- The weights of the steps over `es`, added up. -/
def tally (step : σ → ε → Option σ) (weight : σ → ε → M) : σ → List ε → M
  | _, [] => 0
  | s, e :: es => weight s e +
      match step s e with
      | some t => tally step weight t es
      | none => 0

theorem tally_cons (hstep : step s e = some t) :
    tally step weight s (e :: es) = weight s e + tally step weight t es := by
  simp only [tally, hstep]

/-- A weight that the state does not change. -/
theorem tally_const {f : ε → M} (hrun : Run step s es t) :
    tally step (fun _ e => f e) s es = (es.map f).sum := by
  induction es generalizing s with
  | nil => rfl
  | cons e es ih =>
      obtain ⟨u, hstep, hrest⟩ := run_cons_iff.mp hrun
      rw [tally_cons hstep, ih hrest, List.map_cons, List.sum_cons]

theorem tally_sum (indices : Finset ι) (weights : ι → σ → ε → M) (hrun : Run step s es t) :
    tally step (fun s e => ∑ i ∈ indices, weights i s e) s es =
      ∑ i ∈ indices, tally step (weights i) s es := by
  induction es generalizing s with
  | nil => exact Finset.sum_const_zero.symm
  | cons e es ih =>
      obtain ⟨u, hstep, hrest⟩ := run_cons_iff.mp hrun
      simp only [tally_cons hstep, ih hrest, Finset.sum_add_distrib]

/-- What bounds every step bounds the run. -/
theorem tally_le_tally [PartialOrder M] [IsOrderedAddMonoid M] (hrun : Run step s es t)
    (h : EveryStep step s es fun u e => weight u e ≤ weight' u e) :
    tally step weight s es ≤ tally step weight' s es := by
  induction es generalizing s with
  | nil => exact le_rfl
  | cons e es ih =>
      obtain ⟨u, hstep, hrest⟩ := run_cons_iff.mp hrun
      obtain ⟨hfirst, hlater⟩ := everyStep_cons hstep h
      rw [tally_cons hstep, tally_cons hstep]
      exact add_le_add hfirst (ih hrest hlater)

end Reasoning
