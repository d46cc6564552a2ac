import DjasktTrading.Ledger.Drift
import DjasktTrading.Ledger.History
import Mathlib.Logic.Function.Basic

/-!
# Accuracy — the stored balances against exact arithmetic

A trade is rounded three times on its way to a balance: its total and the new balance by the decimal
context, and the balance again by its column.  The bank that the ledger approximates rounds nothing:
it moves quantity times price.  The two stay together up to a fixed amount for each commit.
-/

open Reasoning

namespace DjasktTrading.Ledger

/-! ## 1. Exact balances -/

/-- A portfolio in exact arithmetic. -/
structure Balances where
  cash : ℚ
  held : String → ℚ

/-- What a trade at a price moves into the cash. -/
def TradeOrder.cashMove (order : TradeOrder) (price : ℚ) : ℚ :=
  match order.tradeType with
  | .buy => -(order.quantity * price)
  | .sell => order.quantity * price

/-- What a trade moves into the holding of its ticker. -/
def TradeOrder.heldMove (order : TradeOrder) : ℚ :=
  match order.tradeType with
  | .buy => order.quantity
  | .sell => -order.quantity

def TransferOrder.cashMove (order : TransferOrder) : ℚ :=
  match order.direction with
  | .credit => order.amount
  | .debit => -order.amount

namespace Balances

/-- One job on exact balances; nothing is traded at an infinite price. -/
def apply (b : Balances) : Job → Balances
  | .trade order _ =>
      match order.price with
      | .infinity => b
      | .finite price =>
          { cash := b.cash + order.cashMove price
            held := Function.update b.held order.ticker (b.held order.ticker + order.heldMove) }
  | .transfer order _ => { b with cash := b.cash + order.cashMove }

/-- The exact balances after a list of jobs. -/
def after (b : Balances) (jobs : List Job) : Balances := jobs.foldl apply b

theorem after_concat (b : Balances) (jobs : List Job) (job : Job) :
    b.after (jobs ++ [job]) = (b.after jobs).apply job := List.foldl_concat apply b job jobs

/-- The balances a ledger stores for a portfolio. -/
def stored (db : Ledger) (id : Uuid) : Balances := ⟨cashOf db id, heldOf db id⟩

end Balances

/-- The job trades the ticker. -/
def Job.trades (ticker : String) : Job → Bool
  | .trade order _ => order.ticker = ticker
  | .transfer _ _ => false

/-! ## 2. One commit -/

/-- What the roundings of one commit can come to. -/
def slack : ℚ := 1 / 2 / 10 ^ 4 + 2 / 10 ^ 12

theorem Numeric.abs_written_round_sub_le (ctx : DecimalContext) {x : ℚ} {n : Numeric}
    (h : Numeric.write (ctx.round x) = .ok n) : |n.value - x| ≤ 1 / 2 / 10 ^ 4 + 1 / 10 ^ 12 := by
  have hrounded := Numeric.abs_lt_of_written h
  have hround := ctx.abs_round_sub_le (ctx.abs_lt_of_round (hrounded.trans (by norm_num)))
  exact (abs_sub_le _ _ _).trans (add_le_add (Numeric.abs_written_sub_le h) hround)

/-- The total of a trade is its quantity at its price, as the context multiplies. -/
def Job.Priced (py : Python) : Job → Prop
  | .trade order _ => order.totalValue = mulDecimal py order.quantity order.price
  | .transfer _ _ => True

theorem Call.job_priced {py : Python} {call : Call} {job : Job} (h : call.job py = .ok job) :
    job.Priced py := by
  cases Call.opens_of_job h with
  | trade request checked priced => exact rfl
  | transfer request checked => trivial

namespace TradeCommit

variable {py : Python} {order : TradeOrder} {db : Ledger}

theorem abs_total_sub_le (c : TradeCommit py order db)
    (hpriced : order.totalValue = mulDecimal py order.quantity order.price) :
    |c.totalValue - order.quantity * c.price| ≤ 1 / 10 ^ 12 := by
  rw [c.totalValue_eq, c.price_eq, mulDecimal, Decimal.finite.injEq] at hpriced
  have htotal := Numeric.abs_lt_of_written c.total_written
  rw [hpriced] at htotal ⊢
  exact py.context.abs_round_sub_le (py.context.abs_lt_of_round (htotal.trans (by norm_num)))

theorem abs_cash_sub_cashMove_le (c : TradeCommit py order db)
    (hpriced : order.totalValue = mulDecimal py order.quantity order.price) :
    |c.cashBalance.value - (cashOf db order.portfolioId + order.cashMove c.price)| ≤ slack := by
  have htotal := c.abs_total_sub_le hpriced
  have hcash := c.cash_written
  rw [cashOf_eq c.row_eq]
  unfold TradeOrder.newCash at hcash
  unfold TradeOrder.cashMove slack
  cases htype : order.tradeType with
  | buy =>
      simp only [htype] at hcash ⊢
      have hbalance := Numeric.abs_written_round_sub_le py.context hcash
      rw [abs_le] at htotal hbalance ⊢
      constructor <;> linarith
  | sell =>
      simp only [htype] at hcash ⊢
      have hbalance := Numeric.abs_written_round_sub_le py.context hcash
      rw [abs_le] at htotal hbalance ⊢
      constructor <;> linarith

theorem abs_held_sub_heldMove_le (c : TradeCommit py order db) :
    |c.held.value - (order.heldIn db + order.heldMove)| ≤ slack := by
  have hheld := c.held_written
  unfold TradeOrder.newHeld at hheld
  unfold TradeOrder.heldMove slack
  cases htype : order.tradeType with
  | buy =>
      simp only [htype] at hheld ⊢
      exact (Numeric.abs_written_round_sub_le py.context hheld).trans (by norm_num)
  | sell =>
      simp only [htype, ← sub_eq_add_neg] at hheld ⊢
      exact (Numeric.abs_written_round_sub_le py.context hheld).trans (by norm_num)

end TradeCommit

theorem TransferCommit.abs_cash_sub_cashMove_le {py : Python} {order : TransferOrder} {db : Ledger}
    (c : TransferCommit py order db) :
    |c.cashBalance.value - (cashOf db order.portfolioId + order.cashMove)| ≤ slack := by
  have hcash := c.cash_written
  rw [cashOf_eq c.row_eq]
  unfold TransferOrder.newCash at hcash
  unfold TransferOrder.cashMove slack
  cases hdirection : order.direction with
  | credit =>
      simp only [hdirection] at hcash ⊢
      exact (Numeric.abs_written_round_sub_le py.context hcash).trans (by norm_num)
  | debit =>
      simp only [hdirection, ← sub_eq_add_neg] at hcash ⊢
      exact (Numeric.abs_written_round_sub_le py.context hcash).trans (by norm_num)

/-! ## 3. Runs -/

/-- The ledger is as near to exact balances as the number of jobs between them allows. -/
structure Tracks (id : Uuid) (db : Ledger) (exact : Balances) (jobs : List Job) : Prop where
  cash : |cashOf db id - exact.cash| ≤ jobs.length * slack
  held : ∀ ticker, |heldOf db id ticker - exact.held ticker| ≤ jobs.countP (Job.trades ticker) * slack

/-- Two balances that move by about the same amount. -/
theorem abs_moved_sub_le {stored exact new move : ℚ} {n : ℕ} (h : |stored - exact| ≤ n * slack)
    (hnew : |new - (stored + move)| ≤ slack) :
    |new - (exact + move)| ≤ (n + 1 : ℕ) * slack := by
  rw [abs_le] at h hnew ⊢
  push_cast
  constructor <;> linarith

namespace Tracks

variable {py : Python} {id : Uuid} {db : Ledger} {exact : Balances} {jobs : List Job}

theorem trade (h : Tracks id db exact jobs) {order : TradeOrder} (fresh : Fresh)
    (c : TradeCommit py order db) (hid : order.portfolioId = id)
    (hpriced : order.totalValue = mulDecimal py order.quantity order.price) :
    Tracks id (c.after fresh) (exact.apply (.trade order fresh)) (jobs ++ [.trade order fresh]) where
  cash := by
    have hcash := c.abs_cash_sub_cashMove_le hpriced
    subst hid
    simp only [Balances.apply, c.price_eq, List.length_append, List.length_singleton]
    rw [c.cashOf_after]
    exact abs_moved_sub_le h.cash hcash
  held ticker := by
    have hmoved := c.abs_held_sub_heldMove_le
    have hbefore := h.held ticker
    subst hid
    simp only [Balances.apply, c.price_eq, List.countP_append, List.countP_singleton]
    by_cases hticker : order.ticker = ticker
    · subst hticker
      rw [c.heldOf_after, Function.update_self, if_pos (by simp [Job.trades])]
      exact abs_moved_sub_le hbefore hmoved
    · rw [c.heldOf_after_of_ne fresh hticker, Function.update_of_ne (Ne.symm hticker),
        if_neg (by simpa [Job.trades] using hticker)]
      exact hbefore

theorem transfer (h : Tracks id db exact jobs) {order : TransferOrder} (fresh : Fresh)
    (c : TransferCommit py order db) (hid : order.portfolioId = id) :
    Tracks id (c.after fresh) (exact.apply (.transfer order fresh))
      (jobs ++ [.transfer order fresh]) where
  cash := by
    have hcash := c.abs_cash_sub_cashMove_le
    subst hid
    simp only [Balances.apply, List.length_append, List.length_singleton]
    rw [c.cashOf_after]
    exact abs_moved_sub_le h.cash hcash
  held ticker := by
    have hbefore := h.held ticker
    have hheld : heldOf (c.after fresh) id ticker = heldOf db id ticker := rfl
    simpa [hheld, Balances.apply, Job.trades] using hbefore

theorem commit (h : Tracks id db exact jobs) {job : Job} (c : job.Commit py db)
    (hid : job.portfolioId = id) (hpriced : job.Priced py) :
    Tracks id c.after (exact.apply job) (jobs ++ [job]) := by
  cases c with
  | trade fresh c => exact h.trade fresh c hid hpriced
  | transfer fresh c => exact h.transfer fresh c hid

theorem of_run {start : Ledger} (hrun : Run (jobStep py) start jobs db)
    (hid : ∀ job ∈ jobs, job.portfolioId = id) (hpriced : ∀ job ∈ jobs, job.Priced py) :
    Tracks id db ((Balances.stored start id).after jobs) jobs := by
  refine hrun.induction (motive := fun jobs db => (∀ job ∈ jobs, job.portfolioId = id) →
    (∀ job ∈ jobs, job.Priced py) →
      Tracks id db ((Balances.stored start id).after jobs) jobs) ?_ ?_ hid hpriced
  · intro _ _
    constructor <;> simp [Balances.after, Balances.stored]
  · intro jobs db₁ job db₂ _ ih hstep hid hpriced
    obtain ⟨c, rfl⟩ := jobStep_eq_some hstep
    have hbefore := ih (fun j hj => hid j (List.mem_append_left _ hj))
      fun j hj => hpriced j (List.mem_append_left _ hj)
    rw [Balances.after_concat]
    exact hbefore.commit c (hid job (by simp)) (hpriced job (by simp))

theorem of_agreeOn {db' : Ledger} (h : Tracks id db exact jobs) (hagree : AgreeOn id db' db) :
    Tracks id db' exact jobs where
  cash := hagree.cashOf ▸ h.cash
  held ticker := hagree.heldOf ticker ▸ h.held ticker

end Tracks

/-- **The ledger tracks an exact bank.**  Whatever requests are in flight and however they interleave,
the stored cash of a portfolio differs from what its committed jobs leave in exact arithmetic by at
most `slack` for each of them, and each holding by at most `slack` for each trade of its ticker. -/
theorem tracks_exact (py : Python) {start : Ledger} {w : World} {es : List Event}
    (hrun : Run (step py) (.initial start) es w) (id : Uuid) :
    Tracks id w.db ((Balances.stored start id).after (w.commitsOn id)) (w.commitsOn id) := by
  have hinv := Inv.of_run hrun
  obtain ⟨db, hown, hagree⟩ := (ledgerPartition py).run_filter hinv.serial id
  change Run (jobStep py) start (w.commitsOn id) db at hown
  refine (Tracks.of_run hown (fun job hjob => ?_) fun job hjob => ?_).of_agreeOn hagree
  · simpa using (List.mem_filter.mp hjob).2
  · obtain ⟨x, hx, rfl⟩ := List.mem_map.mp (List.mem_filter.mp hjob).1
    obtain ⟨call, phase, -, hopened, -⟩ := hinv.committed x hx
    exact Call.job_priced hopened

theorem tracks_exact_twoDeposits :
    ∃ w, Run (step .default) (.initial firstPortfolio) twoDeposits w ∧
      Tracks 1 w.db ((Balances.stored firstPortfolio 1).after (w.commitsOn 1)) (w.commitsOn 1) := by
  obtain ⟨w, hrun⟩ := exists_run_twoDeposits
  exact ⟨w, hrun, tracks_exact .default hrun 1⟩

end DjasktTrading.Ledger
