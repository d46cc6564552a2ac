import DjasktTrading.Ledger.Deadlock
import DjasktTrading.Ledger.Serializability
import DjasktTrading.Reasoning.Progress

/-!
# Liveness — every request comes to an end

Locks are waited for, but never in a circle, and nothing is retried.  So whatever the scheduler does
with the requests in flight, it has a bounded number of steps to give, and as long as a request is
not answered there is one that needs no luck to be taken.
-/

open Reasoning

namespace DjasktTrading.Ledger

/-! ## 1. The work that is left -/

/-- The request is new. -/
def Event.Arrives : Event → Prop
  | .arrive _ => True
  | _ => False

/-- The database or the channel layer fails a request. -/
def Event.Fails : Event → Prop
  | .fail _ => True
  | .rereadFails _ => True
  | .groupSendFails _ => True
  | _ => False

/-- How many steps a request still takes, at most. -/
def Phase.work : Phase → ℕ
  | .submitted => 10
  | .missed => 9
  | .inTx _ stage _ => 3 + stage.remaining
  | .committed _ _ => 2
  | .sending _ _ _ => 1
  | .done _ => 0

def World.work (w : World) : ℕ := (w.requests.map (·.phase.work)).sum

/-- A lookup ends a request, or leaves its transaction to come. -/
theorem Call.work_lookup (py : Python) (db : Ledger) (call : Call) :
    (call.lookup py db).work < Phase.work .submitted := by
  unfold Call.lookup
  split
  · exact Nat.succ_pos 9
  · split
    · exact Nat.succ_pos 9
    · exact Nat.lt_succ_self 9

namespace World

variable {w : World} {i : ℕ} {call : Call} {phase new : Phase}

/-- A request that moves on uses up work. -/
theorem work_put_lt (here : w.At i call phase) (hless : new.work < phase.work) :
    (w.put i new).work < w.work := by
  have hsum := sum_map_modify (fun slot : Slot => slot.phase.work)
    (fun slot => { slot with phase := new }) here
  change (w.put i new).work + phase.work = w.work + new.work at hsum
  omega

end World

/-- Every step but an arrival uses up work. -/
theorem step_spends (py : Python) :
    Spends (step py) (fun e => ¬ e.Arrives) World.work := by
  intro w e w' hown hstep
  cases step_fires hstep with
  | arrive call => exact absurd trivial hown
  | lookup here => exact World.work_put_lt here (Call.work_lookup py w.db _)
  | priced here opened => exact World.work_put_lt here (Nat.lt_succ_self 8)
  | unpriced here refused => exact World.work_put_lt here (Nat.succ_pos 8)
  | ran here left free returned =>
      have hless := (Job.advance_eq_ok returned).remaining_lt left
      exact World.work_put_lt here (Nat.add_lt_add_left hless 3)
  | raised here free threw => exact World.work_put_lt here (by simp [Phase.work])
  | commit here => exact World.work_put_lt here (Nat.lt_succ_self 2)
  | fail here early =>
      refine World.work_put_lt here ?_
      rcases early with rfl | rfl | ⟨job, stage, ws, rfl⟩ <;> simp [Phase.work]
  | skipBroadcast here => exact World.work_put_lt here Nat.two_pos
  | reread here => exact World.work_put_lt here Nat.one_lt_two
  | rereadFails here => exact World.work_put_lt here Nat.two_pos
  | groupSend here => exact World.work_put_lt here Nat.one_pos
  | groupSendFails here => exact World.work_put_lt here Nat.one_pos

/-! ## 2. Nobody is stuck -/

/-- All requests are answered. -/
def World.Answered (w : World) : Prop :=
  ∀ i call phase, w.At i call phase → ∃ outcome, phase = .done outcome

/-- A step that the program takes of its own. -/
def Event.Proceeds (e : Event) : Prop := ¬ e.Arrives ∧ ¬ e.Fails

/-- As long as a request is not answered, some request can go on without a failure. -/
theorem exists_proceeds (py : Python) {w : World} (hopen : ¬ w.Answered) :
    ∃ e w', e.Proceeds ∧ step py w e = some w' := by
  have aux {e : Event} (hproceeds : e.Proceeds) (henabled : (step py w e).isSome) :
      ∃ e w', e.Proceeds ∧ step py w e = some w' := by
    obtain ⟨w', hstep⟩ := Option.isSome_iff_exists.mp henabled
    exact ⟨e, w', hproceeds, hstep⟩
  unfold World.Answered at hopen
  push Not at hopen
  obtain ⟨i, call, phase, here, hphase⟩ := hopen
  cases phase with
  | done outcome => exact absurd rfl (hphase outcome)
  | inTx job stage ws =>
      -- its own transaction may wait for a lock; then another one is further on
      obtain ⟨j, hstatement | hcommit⟩ := exists_step_of_inTx py here
      · exact aux (e := .statement j) ⟨not_false, not_false⟩ hstatement
      · exact aux (e := .commit j) ⟨not_false, not_false⟩ hcommit
  | submitted =>
      unfold World.At at here
      exact aux (e := .lookup i) ⟨not_false, not_false⟩ (by simp [step, here])
  | missed =>
      unfold World.At at here
      refine aux (e := .fetchPrice i) ⟨not_false, not_false⟩ ?_
      simp only [step, here]
      split <;> rfl
  | committed entry portfolio =>
      unfold World.At at here
      exact aux (e := .reread i) ⟨not_false, not_false⟩ (by simp [step, here])
  | sending entry portfolio message =>
      unfold World.At at here
      exact aux (e := .groupSend i) ⟨not_false, not_false⟩ (by simp [step, here])

/-- Whatever requests are in flight, they can all be answered. -/
theorem exists_answered (py : Python) (w : World) :
    ∃ es w', (∀ e ∈ es, e.Proceeds) ∧ Run (step py) w es w' ∧ w'.Answered := by
  have hspends : Spends (step py) Event.Proceeds World.work :=
    fun u e v hown hstep => step_spends py u e v hown.1 hstep
  exact exists_run_of_spends hspends (fun u hopen => exists_proceeds py hopen) w

/-- **Every schedule ends with every request answered.**  From any state of any requests, a schedule
of the steps of the requests in flight takes no more than the work that is left; and where none of
them can proceed, all are answered. -/
theorem schedule_ends (py : Python) {w w' : World} {es : List Event}
    (hrun : Run (step py) w es w') (hown : ∀ e ∈ es, ¬ e.Arrives) :
    es.length ≤ w.work ∧
      ((∀ e : Event, e.Proceeds → step py w' e = none) → w'.Answered) := by
  constructor
  · have hlength := hrun.length_add_le (step_spends py) hown
    omega
  · intro hstuck
    by_contra hopen
    obtain ⟨e, u, hproceeds, hstep⟩ := exists_proceeds py hopen
    rw [hstuck e hproceeds] at hstep
    cases hstep

/-- The two deposits from their arrival on, one broadcast sent and one skipped. -/
def afterTwoArrivals : List Event :=
  twoDeposits.drop 2 ++ [.reread 0, .skipBroadcast 1, .groupSend 0]

theorem schedule_ends_twoDeposits :
    ∃ w w', Run (step .default) (.initial firstPortfolio) (twoDeposits.take 2) w ∧
      Run (step .default) w afterTwoArrivals w' ∧ afterTwoArrivals.length ≤ w.work ∧
        ((∀ e : Event, e.Proceeds → step .default w' e = none) → w'.Answered) := by
  have hruns : ((exec (step .default) (.initial firstPortfolio) (twoDeposits.take 2)).bind fun w =>
      exec (step .default) w afterTwoArrivals).isSome := by decide +kernel
  obtain ⟨w', hruns⟩ := Option.isSome_iff_exists.mp hruns
  obtain ⟨w, harrived, hrun⟩ := Option.bind_eq_some_iff.mp hruns
  refine ⟨w, w', harrived, hrun, schedule_ends .default hrun ?_⟩
  unfold afterTwoArrivals twoDeposits
  simp [Event.Arrives]

end DjasktTrading.Ledger
