import DjasktTrading.Ledger.Concurrency
import Mathlib.Logic.Relation

/-!
# Deadlock — locks are taken in one order

A transaction takes its portfolio row, then its position row, and inserts its unique key last.  So
whoever holds what another one waits for has come further, whatever portfolios, tickers and keys the
two are about.
-/

open Reasoning

namespace DjasktTrading.Ledger

/-! ## 1. Who waits for whom -/

namespace World

/-- What the next statement of request `i` has to lock. -/
def neededBy (w : World) (i : ℕ) : List Resource :=
  match (w.requests[i]?).map Slot.phase with
  | some (.inTx job stage _) => job.needs stage
  | _ => []

/-- Request `i` waits for a row or a unique key that request `j` has locked or inserted and not yet
committed. -/
def WaitsFor (w : World) (i j : ℕ) : Prop :=
  i ≠ j ∧ ∃ r ∈ w.neededBy i, r ∈ w.heldBy j

instance (w : World) (i j : ℕ) : Decidable (w.WaitsFor i j) := instDecidableAnd

/-- The transaction of request `j` is open, and its next statement has nothing to wait for. -/
def running (w : World) (j : ℕ) : Bool :=
  match (w.requests[j]?).map Slot.phase with
  | some (.inTx job stage _) => ¬ w.Blocked j (job.needs stage)
  | _ => false

/-- How far the transaction of a request is from its commit. -/
def remainingOf (w : World) (i : ℕ) : ℕ :=
  match (w.requests[i]?).map Slot.phase with
  | some (.inTx _ stage _) => stage.remaining
  | _ => 0

variable {w : World} {i j : ℕ} {call : Call} {job : Job} {stage : Stage} {ws : List Write}

theorem At.neededBy (here : w.At i call (.inTx job stage ws)) : w.neededBy i = job.needs stage := by
  unfold World.At at here
  simp only [World.neededBy, here, Option.map_some]

theorem At.remainingOf (here : w.At i call (.inTx job stage ws)) :
    w.remainingOf i = stage.remaining := by
  unfold World.At at here
  simp only [World.remainingOf, here, Option.map_some]

theorem At.running_iff (here : w.At i call (.inTx job stage ws)) :
    w.running i ↔ ¬ w.Blocked i (job.needs stage) := by
  unfold World.At at here
  simp only [World.running, here, Option.map_some, decide_eq_true_eq]

/-- Only an open transaction needs anything. -/
theorem exists_at_of_mem_neededBy {r : Resource} (hr : r ∈ w.neededBy i) :
    ∃ call job stage ws, w.At i call (.inTx job stage ws) ∧ r ∈ job.needs stage := by
  unfold World.neededBy at hr
  split at hr
  · rename_i job stage ws hphase
    obtain ⟨⟨call, phase⟩, hslot, rfl⟩ := Option.map_eq_some_iff.mp hphase
    exact ⟨call, job, stage, ws, hslot, hr⟩
  · cases hr

/-- Only an open transaction holds anything. -/
theorem exists_at_of_mem_heldBy {r : Resource} (hr : r ∈ w.heldBy j) :
    ∃ call job stage ws, w.At j call (.inTx job stage ws) ∧ r ∈ job.holds stage := by
  unfold World.heldBy at hr
  split at hr
  · rename_i job stage ws hphase
    obtain ⟨⟨call, phase⟩, hslot, rfl⟩ := Option.map_eq_some_iff.mp hphase
    exact ⟨call, job, stage, ws, hslot, hr⟩
  · cases hr

/-- A statement is blocked exactly if its request waits for some other one. -/
theorem blocked_iff_exists_waitsFor (here : w.At i call (.inTx job stage ws)) :
    w.Blocked i (job.needs stage) ↔ ∃ j, w.WaitsFor i j := by
  constructor
  · rintro ⟨j, -, hne, r, hneeds, hheld⟩
    exact ⟨j, hne.symm, r, here.neededBy ▸ hneeds, hheld⟩
  · rintro ⟨j, hne, r, hneeds, hheld⟩
    obtain ⟨_, _, _, _, there, -⟩ := exists_at_of_mem_heldBy hheld
    have hlt : j < w.requests.length := (List.getElem?_eq_some_iff.mp there).1
    exact ⟨j, hlt, hne.symm, r, here.neededBy ▸ hneeds, hheld⟩

/-- Whoever is waited for, directly or through others, is a request. -/
theorem lt_of_reflTransGen_waitsFor (hi : i < w.requests.length)
    (h : Relation.ReflTransGen w.WaitsFor i j) : j < w.requests.length := by
  cases h with
  | refl => exact hi
  | tail _ hwaits =>
      obtain ⟨-, r, -, hheld⟩ := hwaits
      obtain ⟨_, _, _, _, there, -⟩ := exists_at_of_mem_heldBy hheld
      exact (List.getElem?_eq_some_iff.mp there).1

/-- Of two deposits, the one that comes to the row second waits for the first. -/
example : (exec (step .default) (.initial firstPortfolio)
    [.arrive (transferCall 1 "CREDIT" 1), .arrive (transferCall 2 "CREDIT" 2), .lookup 0, .lookup 1,
      .fetchPrice 0, .fetchPrice 1, .statement 0]).map
        (fun w => (decide (w.WaitsFor 1 0), decide (w.WaitsFor 0 1))) = some (true, false) := by
  decide +kernel

end World

/-! ## 2. The order of locks -/

/-- The holder of what a statement needs has fewer statements left. -/
theorem Job.remaining_lt_of_holds {job job' : Job} {stage stage' : Stage} {r : Resource}
    (hneeds : r ∈ job.needs stage) (hholds : r ∈ job'.holds stage') :
    stage'.remaining < stage.remaining := by
  cases stage with
  | opened =>
      -- the first lock: whoever holds anything has taken it
      cases stage' with
      | opened => cases hholds
      | adjusted portfolio position => cases position <;> simp [Stage.remaining]
      | _ => simp [Stage.remaining]
  | locked row =>
      -- a position row is held from the branch on
      cases job with
      | transfer order fresh => cases hneeds
      | trade order fresh =>
          obtain rfl := List.mem_singleton.mp hneeds
          cases stage' with
          | opened => cases hholds
          | locked row' => simp [Job.holds] at hholds
          | adjusted portfolio position => cases position <;> simp [Stage.remaining]
          | _ => simp [Stage.remaining]
  | adjusted portfolio position => cases hneeds
  | saved portfolio =>
      -- a unique key is held after the last statement
      obtain rfl := List.mem_singleton.mp hneeds
      have hpositions : ∀ key, Resource.uniqueKey key ∉ job'.positionLocks := by
        intro key
        cases job' <;> simp [Job.positionLocks]
      cases stage' with
      | opened => cases hholds
      | recorded entry portfolio' => exact Nat.zero_lt_one
      | _ => simp [Job.holds, hpositions] at hholds
  | recorded entry portfolio => cases hneeds

/-- Whoever is waited for is closer to the commit. -/
theorem World.WaitsFor.remainingOf_lt {w : World} {i j : ℕ} (h : w.WaitsFor i j) :
    w.remainingOf j < w.remainingOf i := by
  obtain ⟨-, r, hneeds, hholds⟩ := h
  obtain ⟨_, job, stage, _, here, hr⟩ := World.exists_at_of_mem_neededBy hneeds
  obtain ⟨_, job', stage', _, there, hr'⟩ := World.exists_at_of_mem_heldBy hholds
  rw [here.remainingOf, there.remainingOf]
  exact Job.remaining_lt_of_holds hr hr'

/-! ## 3. No deadlock -/

/-- **No deadlock.**  Whatever requests are in flight and however far each has come, the wait-for
relation has no cycle. -/
theorem waitsFor_acyclic (w : World) (i : ℕ) : ¬ Relation.TransGen w.WaitsFor i i := by
  intro hcycle
  have hdecreases : Relation.TransGen (· > ·) (w.remainingOf i) (w.remainingOf i) :=
    hcycle.lift w.remainingOf fun _ _ hwaits => hwaits.remainingOf_lt
  rw [Relation.transGen_eq_self] at hdecreases
  exact lt_irrefl _ hdecreases

/-- An open transaction, or one that it waits for, directly or through others, waits for nobody. -/
theorem exists_at_not_blocked {w : World} {i : ℕ} {call : Call} {job : Job} {stage : Stage}
    {ws : List Write} (here : w.At i call (.inTx job stage ws)) :
    ∃ j call' job' stage' ws', Relation.ReflTransGen w.WaitsFor i j ∧
      w.At j call' (.inTx job' stage' ws') ∧ ¬ w.Blocked j (job'.needs stage') := by
  -- by how far the transaction is from its commit
  induction hleft : stage.remaining using Nat.strong_induction_on generalizing i call job stage ws with
  | _ n ih =>
      by_cases hblocked : w.Blocked i (job.needs stage)
      · obtain ⟨j, hwaits⟩ := (World.blocked_iff_exists_waitsFor here).mp hblocked
        have hlt := hwaits.remainingOf_lt
        obtain ⟨-, r, -, hheld⟩ := id hwaits
        obtain ⟨call', job', stage', ws', there, -⟩ := World.exists_at_of_mem_heldBy hheld
        rw [here.remainingOf, there.remainingOf, hleft] at hlt
        obtain ⟨k, call'', job'', stage'', ws'', hreach, hfree⟩ := ih _ hlt there rfl
        exact ⟨k, call'', job'', stage'', ws'', .head hwaits hreach, hfree⟩
      · exact ⟨i, call, job, stage, ws, .refl, here, hblocked⟩

/-- As long as a transaction is open, the next statement or the commit of one is enabled. -/
theorem exists_step_of_inTx (py : Python) {w : World} {i : ℕ} {call : Call} {job : Job}
    {stage : Stage} {ws : List Write} (here : w.At i call (.inTx job stage ws)) :
    ∃ j, (step py w (.statement j)).isSome ∨ (step py w (.commit j)).isSome := by
  obtain ⟨j, call', job', stage', ws', -, there, hfree⟩ := exists_at_not_blocked here
  unfold World.At at there
  refine ⟨j, ?_⟩
  cases stage' with
  | recorded entry portfolio =>
      apply Or.inr
      simp only [step, there, Option.isSome_some]
  | _ =>
      apply Or.inl
      simp only [step, there, if_neg hfree]
      -- the statement returns or raises
      split <;> rfl

end DjasktTrading.Ledger
