import DjasktTrading.Ledger.Reconstruction
import DjasktTrading.Ledger.Renderings
import DjasktTrading.Ledger.Serializability

/-!
# Drift — how far a stored balance can leave its entries

A balance and the entry that moved it are rounded on their own, so an audit of a portfolio against its
entries need not come out even.  It comes out within one last place for each entry.
-/

open Reasoning

namespace DjasktTrading.Ledger

/-! ## 1. One column against another -/

theorem Numeric.abs_written_sub_le {q : ℚ} {n : Numeric} (h : Numeric.write q = .ok n) :
    |n.value - q| ≤ 1 / 2 / 10 ^ 4 := by
  rw [Numeric.write_eq_ok_iff] at h
  have hnear := abs_roundHalfAway_sub_le (q * 10 ^ 4)
  rw [← h, ← n.value_mul, ← sub_mul, abs_mul, abs_of_pos (show (0 : ℚ) < 10 ^ 4 by norm_num)] at hnear
  rwa [le_div_iff₀ (by norm_num)]

/-- The column of a sum is within one last place of the sum of the columns. -/
theorem Numeric.abs_sum_sub_le (ctx : DecimalContext) {a c : Numeric} {x y : ℚ} {e : ℤ}
    (he : (e : ℚ) = y * 10 ^ 4) (hy : |y - x| ≤ 1 / 2 / 10 ^ 4) (hbound : |x| < 10 ^ 15 + 1)
    (hc : Numeric.write (ctx.round (a.value + x)) = .ok c) :
    |c.value - (a.value + y)| ≤ 1 / 10 ^ 4 := by
  have ha := a.abs_value_lt
  have hround := ctx.abs_round_sub_le (x := a.value + x)
    (lt_of_le_of_lt (abs_add_le _ _) (by linarith))
  have hcolumn := Numeric.abs_written_sub_le hc
  -- less than two units, and a whole number of them
  have hunits : |((c.units - a.units - e : ℤ) : ℚ)| < 2 := by
    push_cast
    rw [← c.value_mul, ← a.value_mul, he, abs_lt]
    rw [abs_le] at hround hcolumn hy
    constructor <;> linarith
  have hone : |((c.units - a.units - e : ℤ) : ℚ)| ≤ 1 := by
    have hlt : |c.units - a.units - e| < 2 := by exact_mod_cast hunits
    exact_mod_cast Int.lt_add_one_iff.mp hlt
  push_cast at hone
  rw [← c.value_mul, ← a.value_mul, he, ← sub_mul, ← sub_mul, abs_mul,
    abs_of_pos (show (0 : ℚ) < 10 ^ 4 by norm_num), sub_sub] at hone
  rwa [le_div_iff₀ (by norm_num)]

theorem Numeric.abs_lt_of_written {q : ℚ} {n : Numeric} (h : Numeric.write q = .ok n) :
    |q| < 10 ^ 15 + 1 := by
  have hvalue := n.abs_value_lt
  have hnear := Numeric.abs_written_sub_le h
  rw [abs_lt] at hvalue ⊢
  rw [abs_le] at hnear
  constructor <;> linarith

theorem Numeric.abs_written_add_le (ctx : DecimalContext) {a s c : Numeric} {x : ℚ}
    (hs : Numeric.write x = .ok s) (hc : Numeric.write (ctx.round (a.value + x)) = .ok c) :
    |c.value - (a.value + s.value)| ≤ 1 / 10 ^ 4 :=
  Numeric.abs_sum_sub_le ctx (e := s.units) s.value_mul.symm (Numeric.abs_written_sub_le hs)
    (Numeric.abs_lt_of_written hs) hc

theorem Numeric.abs_written_diff_le (ctx : DecimalContext) {a s c : Numeric} {x : ℚ}
    (hs : Numeric.write x = .ok s) (hc : Numeric.write (ctx.round (a.value - x)) = .ok c) :
    |c.value - (a.value - s.value)| ≤ 1 / 10 ^ 4 := by
  rw [sub_eq_add_neg a.value] at hc ⊢
  refine Numeric.abs_sum_sub_le ctx (e := -s.units) ?_ ?_ ?_ hc
  · push_cast
    rw [← s.value_mul, neg_mul]
  · rw [neg_sub_neg, abs_sub_comm]
    exact Numeric.abs_written_sub_le hs
  · rw [abs_neg]
    exact Numeric.abs_lt_of_written hs

/-! ## 2. Drift -/

/-- How far the stored cash is from what the entries add up to. -/
def cashDrift (db : Ledger) (id : Uuid) : ℚ := cashOf db id - cashFold db id

/-- How far a stored quantity is from what the trades add up to. -/
def heldDrift (db : Ledger) (id : Uuid) (ticker : String) : ℚ :=
  heldOf db id ticker - quantityFold db id ticker

/-- The number of entries that moved the cash of a portfolio. -/
def cashEntries (db : Ledger) (id : Uuid) : ℕ :=
  (tradesOf db id).length + (cashTransactionsOf db id).length

/-- The number of entries that moved its quantity of a ticker. -/
def tickerTrades (db : Ledger) (id : Uuid) (ticker : String) : ℕ :=
  ((tradesOf db id).filter (·.ticker = ticker)).length

/-- From `db` to `db'` no balance of the portfolio has moved away from its entries, or back, by more
than one last place for each entry that is new. -/
structure DriftsWithin (id : Uuid) (db db' : Ledger) : Prop where
  cash : |cashDrift db' id - cashDrift db id| * 10 ^ 4 ≤ (cashEntries db' id : ℚ) - cashEntries db id
  held : ∀ ticker, |heldDrift db' id ticker - heldDrift db id ticker| * 10 ^ 4 ≤
    (tickerTrades db' id ticker : ℚ) - tickerTrades db id ticker

theorem abs_sub_mul_le_trans {a b c s m n k : ℚ} (hs : 0 ≤ s) (h : |b - a| * s ≤ n - m)
    (h' : |c - b| * s ≤ k - n) : |c - a| * s ≤ k - m := by
  have htri := mul_le_mul_of_nonneg_right (abs_sub_le c b a) hs
  linarith

/-- A balance and a fold that are moved by about the same amount. -/
theorem abs_moved_sub_mul_le {stored fold delta new : ℚ} {entries entries' : ℕ}
    (hentries : entries' = entries + 1) (h : |new - (stored + delta)| ≤ 1 / 10 ^ 4) :
    |new - (fold + delta) - (stored - fold)| * 10 ^ 4 ≤ (entries' : ℚ) - entries := by
  have hmoved : new - (fold + delta) - (stored - fold) = new - (stored + delta) := by ring
  rw [hmoved, hentries, Nat.cast_succ, add_sub_cancel_left]
  rwa [le_div_iff₀ (by norm_num)] at h

namespace DriftsWithin

variable {id : Uuid}

theorem of_agreeOn {db db' : Ledger} (h : AgreeOn id db db') : DriftsWithin id db db' where
  cash := by simp [cashDrift, cashEntries, h.cashOf, h.cashFold, h.trades, h.cashTransactions]
  held ticker := by simp [heldDrift, tickerTrades, h.heldOf, h.quantityFold, h.trades]

theorem trans {db db' db'' : Ledger} (h : DriftsWithin id db db') (h' : DriftsWithin id db' db'') :
    DriftsWithin id db db'' where
  cash := abs_sub_mul_le_trans (by norm_num) h.cash h'.cash
  held ticker := abs_sub_mul_le_trans (by norm_num) (h.held ticker) (h'.held ticker)

end DriftsWithin

/-! ## 3. What a commit adds -/

namespace TradeCommit

variable {py : Python} {order : TradeOrder} {db : Ledger}

theorem abs_cash_sub_le (c : TradeCommit py order db) :
    |c.cashBalance.value - (c.row.cashBalance.value + c.cashDelta)| ≤ 1 / 10 ^ 4 := by
  have hcash := c.cash_written
  unfold TradeOrder.newCash at hcash
  cases htype : order.tradeType with
  | buy =>
      simp only [htype] at hcash
      simp only [cashDelta, htype, ← sub_eq_add_neg]
      exact Numeric.abs_written_diff_le py.context c.total_written hcash
  | sell =>
      simp only [htype] at hcash
      simp only [cashDelta, htype]
      exact Numeric.abs_written_add_le py.context c.total_written hcash

theorem abs_held_sub_le (c : TradeCommit py order db) :
    |c.held.value - (order.heldIn db + c.heldDelta)| ≤ 1 / 10 ^ 4 := by
  obtain ⟨n, hn⟩ := exists_heldOf db order.portfolioId order.ticker
  have hheld := c.held_written
  unfold TradeOrder.newHeld at hheld
  unfold TradeOrder.heldIn at hheld ⊢
  rw [hn] at hheld ⊢
  cases htype : order.tradeType with
  | buy =>
      simp only [htype] at hheld
      simp only [heldDelta, htype]
      exact Numeric.abs_written_add_le py.context c.quantity_written hheld
  | sell =>
      simp only [htype] at hheld
      simp only [heldDelta, htype, ← sub_eq_add_neg]
      exact Numeric.abs_written_diff_le py.context c.quantity_written hheld

theorem driftsWithin (c : TradeCommit py order db) (fresh : Fresh) :
    DriftsWithin order.portfolioId db (c.after fresh) where
  cash := by
    have hentries : cashEntries (c.after fresh) order.portfolioId =
        cashEntries db order.portfolioId + 1 := by
      simp only [cashEntries, c.tradesOf_after, cashTransactionsOf, c.cashTransactions_after,
        List.length_append, List.length_singleton]
      omega
    rw [cashDrift, cashDrift, c.cashOf_after, c.cashFold_after, cashOf_eq c.row_eq]
    exact abs_moved_sub_mul_le hentries c.abs_cash_sub_le
  held ticker := by
    by_cases hticker : order.ticker = ticker
    · subst hticker
      have hentries : tickerTrades (c.after fresh) order.portfolioId order.ticker =
          tickerTrades db order.portfolioId order.ticker + 1 := by
        simp [tickerTrades, c.tradesOf_after, stored, List.filter_append]
      rw [heldDrift, heldDrift, c.heldOf_after, c.quantityFold_after, if_pos rfl]
      exact abs_moved_sub_mul_le hentries c.abs_held_sub_le
    · -- the rows of the other tickers are those of before
      have hentries : tickerTrades (c.after fresh) order.portfolioId ticker =
          tickerTrades db order.portfolioId ticker := by
        simp [tickerTrades, c.tradesOf_after, stored, List.filter_append, hticker]
      rw [hentries, heldDrift, heldDrift, c.heldOf_after_of_ne fresh hticker, c.quantityFold_after,
        if_neg hticker]
      simp

end TradeCommit

namespace TransferCommit

variable {py : Python} {order : TransferOrder} {db : Ledger}

theorem abs_cash_sub_le (c : TransferCommit py order db) :
    |c.cashBalance.value - (c.row.cashBalance.value + c.cashDelta)| ≤ 1 / 10 ^ 4 := by
  have hcash := c.cash_written
  unfold TransferOrder.newCash at hcash
  cases hdirection : order.direction with
  | credit =>
      simp only [hdirection] at hcash
      simp only [cashDelta, hdirection]
      exact Numeric.abs_written_add_le py.context c.amount_written hcash
  | debit =>
      simp only [hdirection] at hcash
      simp only [cashDelta, hdirection, ← sub_eq_add_neg]
      exact Numeric.abs_written_diff_le py.context c.amount_written hcash

theorem driftsWithin (c : TransferCommit py order db) (fresh : Fresh) :
    DriftsWithin order.portfolioId db (c.after fresh) where
  cash := by
    have hentries : cashEntries (c.after fresh) order.portfolioId =
        cashEntries db order.portfolioId + 1 := by
      simp [cashEntries, tradesOf, c.trades_after, cashTransactionsOf, c.cashTransactions_after, stored]
      omega
    rw [cashDrift, cashDrift, c.cashOf_after, c.cashFold_after, cashOf_eq c.row_eq]
    exact abs_moved_sub_mul_le hentries c.abs_cash_sub_le
  held ticker := by
    have hheld : heldOf (c.after fresh) order.portfolioId ticker =
        heldOf db order.portfolioId ticker := rfl
    simp [heldDrift, hheld, quantityFold, sumQuantities, tickerTrades, tradesOf, c.trades_after]

end TransferCommit

theorem Job.Commit.driftsWithin {py : Python} {db : Ledger} {job : Job} (c : job.Commit py db)
    (id : Uuid) : DriftsWithin id db c.after := by
  by_cases hid : job.portfolioId = id
  · subst hid
    cases c with
    | trade fresh c => exact c.driftsWithin fresh
    | transfer fresh c => exact c.driftsWithin fresh
  · exact .of_agreeOn (c.agreeOn_after (Ne.symm hid)).symm

/-! ## 4. Runs -/

/-- **The audit gap is bounded by the number of entries.**  Whatever requests are in flight and however
they interleave, the difference between a portfolio's stored cash and what its entries add up to
changes by at most one ten-thousandth for each entry the run adds to the portfolio, and so does the
difference of each holding with the trades of its ticker. -/
theorem drift_le (py : Python) {start : Ledger} {w : World} {es : List Event}
    (hrun : Run (step py) (.initial start) es w) (id : Uuid) : DriftsWithin id start w.db := by
  refine (Inv.of_run hrun).serial.induction (motive := fun _ db => DriftsWithin id start db) ?_ ?_
  · exact .of_agreeOn (.refl id start)
  · intro jobs db₁ job db₂ _ ih hstep
    obtain ⟨c, rfl⟩ := jobStep_eq_some hstep
    exact ih.trans (c.driftsWithin id)

theorem drift_le_twoDeposits :
    ∃ w, Run (step .default) (.initial firstPortfolio) twoDeposits w ∧
      DriftsWithin 1 firstPortfolio w.db := by
  obtain ⟨w, hrun⟩ := exists_run_twoDeposits
  exact ⟨w, hrun, drift_le .default hrun 1⟩

end DjasktTrading.Ledger
