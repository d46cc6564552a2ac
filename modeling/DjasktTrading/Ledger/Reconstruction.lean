import DjasktTrading.Ledger.Solvency

/-!
# Reconstruction — stored balances against the ledger's entries

A trade or a transfer computes a new balance from the unrounded total and stores the balance and the
total each rounded on its own.  This file says exactly when the two roundings agree, and so when a
portfolio can be rebuilt from its ledger rows.
-/

open Reasoning

namespace DjasktTrading.Ledger

/-! ## 1. One column against another -/

/-- `a - x`, as the arithmetic gives it, falls halfway between two column values, and the arithmetic
has not lowered it there. -/
def SubSlips (ctx : DecimalContext) (a x : ℚ) : Prop :=
  IsTie (ctx.round (a - x) * 10 ^ 4) ∧ a - x ≤ ctx.round (a - x)

/-- `a + x`, as the arithmetic gives it, falls halfway between two column values because the
arithmetic has lifted it there. -/
def AddSlips (ctx : DecimalContext) (a x : ℚ) : Prop :=
  IsTie (ctx.round (a + x) * 10 ^ 4) ∧ a + x < ctx.round (a + x)

instance (ctx : DecimalContext) (a x : ℚ) : Decidable (SubSlips ctx a x) :=
  inferInstanceAs (Decidable (_ ∧ _))

instance (ctx : DecimalContext) (a x : ℚ) : Decidable (AddSlips ctx a x) :=
  inferInstanceAs (Decidable (_ ∧ _))

theorem Numeric.value_eq_add_iff {a s c : Numeric} :
    c.value = a.value + s.value ↔ c.units = a.units + s.units := by
  unfold Numeric.value
  rw [← add_div, div_left_inj' (by norm_num)]
  exact_mod_cast Iff.rfl

theorem Numeric.value_eq_sub_iff {a s c : Numeric} :
    c.value = a.value - s.value ↔ c.units = a.units - s.units := by
  unfold Numeric.value
  rw [← sub_div, div_left_inj' (by norm_num)]
  exact_mod_cast Iff.rfl

/-- A column has room to spare below the bound up to which contexts keep halves. -/
theorem Numeric.units_lt (n : Numeric) : (n.units : ℚ) < 10 ^ 19 := by
  have h : n.units < 10 ^ 19 := by
    have := n.fits
    omega
  exact_mod_cast h

theorem Numeric.written_sub_iff {ctx : DecimalContext} {a s c : Numeric} {x : ℚ} (hx : 0 ≤ x)
    (hxa : x ≤ a.value) (hs : Numeric.write x = .ok s)
    (hc : Numeric.write (ctx.round (a.value - x)) = .ok c) :
    c.value = a.value - s.value ↔ ¬ SubSlips ctx a.value x := by
  rw [Numeric.write_eq_ok_iff] at hs hc
  have hscale : (a.value - x) * 10 ^ 4 = a.units - x * 10 ^ 4 := by rw [sub_mul, a.value_mul]
  have hround : 0 ≤ ctx.round (a.value - x) := ctx.round_nonneg (sub_nonneg.mpr hxa)
  -- in units of the column
  have hkeeps := ctx.keepsHalves (a.value - x)
  rw [hscale] at hkeeps
  rw [Numeric.value_eq_sub_iff, hs, hc,
    roundHalfAway_sub_iff (by positivity) (by rw [← a.value_mul]; linarith)
      (by have := a.units_lt; push_cast; linarith) (by positivity) hkeeps, SubSlips, ← hscale]
  simp only [mul_le_mul_iff_left₀ (show (0 : ℚ) < 10 ^ 4 by norm_num)]

theorem Numeric.written_add_iff {ctx : DecimalContext} {a s c : Numeric} {x : ℚ} (hx : 0 ≤ x)
    (ha : 0 ≤ a.value) (hs : Numeric.write x = .ok s)
    (hc : Numeric.write (ctx.round (a.value + x)) = .ok c) :
    c.value = a.value + s.value ↔ ¬ AddSlips ctx a.value x := by
  rw [Numeric.write_eq_ok_iff] at hs hc
  have hscale : (a.value + x) * 10 ^ 4 = a.units + x * 10 ^ 4 := by rw [add_mul, a.value_mul]
  have hround : 0 ≤ ctx.round (a.value + x) := ctx.round_nonneg (add_nonneg ha hx)
  have hkeeps := ctx.keepsHalves (a.value + x)
  rw [hscale] at hkeeps
  have hunits : 0 ≤ a.units := by
    have : (0 : ℚ) ≤ a.units := by rw [← a.value_mul]; positivity
    exact_mod_cast this
  -- the summand fits a column of its own
  have hxfits : x * 10 ^ 4 < 10 ^ 19 + 1 := by
    have herr := (abs_le.mp (abs_roundHalfAway_sub_le (x * 10 ^ 4))).1
    have hlt := s.units_lt
    rw [← hs] at herr
    linarith
  rw [Numeric.value_eq_add_iff, hs, hc,
    roundHalfAway_add_iff hunits (by positivity)
      (by have := a.units_lt; push_cast; linarith) (by positivity) hkeeps, AddSlips, ← hscale]
  simp only [mul_lt_mul_iff_left₀ (show (0 : ℚ) < 10 ^ 4 by norm_num)]

/-! ## 2. Folds over the stored entries -/

def sumAmounts (db : Ledger) (id : Uuid) (direction : Direction) : ℚ :=
  (((cashTransactionsOf db id).filter (·.direction = direction)).map (·.amount.value)).sum

def sumTotals (db : Ledger) (id : Uuid) (tradeType : TradeType) : ℚ :=
  (((tradesOf db id).filter (·.tradeType = tradeType)).map (·.totalValue.value)).sum

def sumQuantities (db : Ledger) (id : Uuid) (ticker : String) (tradeType : TradeType) : ℚ :=
  (((tradesOf db id).filter fun t => t.ticker = ticker ∧ t.tradeType = tradeType).map
    (·.quantity.value)).sum

/-- The cash that the entries of a portfolio add up to. -/
def cashFold (db : Ledger) (id : Uuid) : ℚ :=
  sumAmounts db id .credit - sumAmounts db id .debit - sumTotals db id .buy + sumTotals db id .sell

/-- The quantity of a ticker that the trades of a portfolio add up to. -/
def quantityFold (db : Ledger) (id : Uuid) (ticker : String) : ℚ :=
  sumQuantities db id ticker .buy - sumQuantities db id ticker .sell

theorem AgreeOn.cashFold {id : Uuid} {db db' : Ledger} (h : AgreeOn id db db') :
    Ledger.cashFold db id = Ledger.cashFold db' id := by
  simp only [Ledger.cashFold, sumAmounts, sumTotals, h.trades, h.cashTransactions]

theorem AgreeOn.quantityFold {id : Uuid} {db db' : Ledger} (h : AgreeOn id db db')
    (ticker : String) : Ledger.quantityFold db id ticker = Ledger.quantityFold db' id ticker := by
  simp only [Ledger.quantityFold, sumQuantities, h.trades]

/-- One more row in a filtered sum. -/
theorem sum_filter_concat {α : Type} (rows : List α) (row : α) (keep : α → Bool) (f : α → ℚ) :
    (((rows ++ [row]).filter keep).map f).sum =
      ((rows.filter keep).map f).sum + if keep row then f row else 0 := by
  rw [List.filter_append, List.map_append, List.sum_append]
  cases h : keep row <;> simp [h]

/-- The stored balances of a portfolio are what its entries add up to. -/
structure Rebuilt (db : Ledger) (id : Uuid) : Prop where
  cash : cashOf db id = cashFold db id
  held : ∀ ticker, heldOf db id ticker = quantityFold db id ticker

theorem AgreeOn.rebuilt_iff {id : Uuid} {db db' : Ledger} (h : AgreeOn id db db') :
    Rebuilt db id ↔ Rebuilt db' id := by
  constructor <;> intro hdb
  · exact ⟨h.cashOf ▸ h.cashFold ▸ hdb.cash,
      fun ticker => h.heldOf ticker ▸ h.quantityFold ticker ▸ hdb.held ticker⟩
  · exact ⟨h.symm.cashOf ▸ h.symm.cashFold ▸ hdb.cash,
      fun ticker => h.symm.heldOf ticker ▸ h.symm.quantityFold ticker ▸ hdb.held ticker⟩

/-! ## 3. What a commit does to the folds -/

namespace TradeCommit

variable {py : Python} {order : TradeOrder} {db : Ledger}

/-- What the new entry adds to the cash fold. -/
def cashDelta (c : TradeCommit py order db) : ℚ :=
  match order.tradeType with
  | .buy => -c.storedTotal.value
  | .sell => c.storedTotal.value

/-- What the new entry adds to the fold of its ticker. -/
def heldDelta (c : TradeCommit py order db) : ℚ :=
  match order.tradeType with
  | .buy => c.storedQuantity.value
  | .sell => -c.storedQuantity.value

theorem tradesOf_after (c : TradeCommit py order db) (fresh : Fresh) :
    tradesOf (c.after fresh) order.portfolioId =
      tradesOf db order.portfolioId ++ [c.stored fresh] := by
  simp [tradesOf, c.trades_after, stored]

theorem cashFold_after (c : TradeCommit py order db) (fresh : Fresh) :
    cashFold (c.after fresh) order.portfolioId = cashFold db order.portfolioId + c.cashDelta := by
  simp only [cashFold, sumTotals, sumAmounts, cashTransactionsOf, c.cashTransactions_after,
    c.tradesOf_after, sum_filter_concat, cashDelta, stored]
  cases order.tradeType <;> simp <;> ring

theorem quantityFold_after (c : TradeCommit py order db) (fresh : Fresh) (ticker : String) :
    quantityFold (c.after fresh) order.portfolioId ticker =
      quantityFold db order.portfolioId ticker +
        if order.ticker = ticker then c.heldDelta else 0 := by
  simp only [quantityFold, sumQuantities, c.tradesOf_after, sum_filter_concat, heldDelta, stored]
  by_cases hticker : order.ticker = ticker
  · cases order.tradeType <;> simp [hticker] <;> ring
  · simp [hticker]

end TradeCommit

namespace TransferCommit

variable {py : Python} {order : TransferOrder} {db : Ledger}

def cashDelta (c : TransferCommit py order db) : ℚ :=
  match order.direction with
  | .credit => c.storedAmount.value
  | .debit => -c.storedAmount.value

theorem cashFold_after (c : TransferCommit py order db) (fresh : Fresh) :
    cashFold (c.after fresh) order.portfolioId = cashFold db order.portfolioId + c.cashDelta := by
  have hrows : cashTransactionsOf (c.after fresh) order.portfolioId =
      cashTransactionsOf db order.portfolioId ++ [c.stored fresh] := by
    simp [cashTransactionsOf, c.cashTransactions_after, stored]
  simp only [cashFold, sumTotals, sumAmounts, tradesOf, c.trades_after, hrows, sum_filter_concat,
    cashDelta, stored]
  cases order.direction <;> simp <;> ring

end TransferCommit

/-! ## 4. When a commit keeps a portfolio rebuilt -/

/-- The two sums and differences that a job computes do not slip. -/
def Job.RoundsCleanly (py : Python) (db : Ledger) : Job → Prop
  | .trade order _ => ∀ totalValue, order.totalValue = .finite totalValue →
      match order.tradeType with
      | .buy => ¬ SubSlips py.context (cashOf db order.portfolioId) totalValue ∧
          ¬ AddSlips py.context (order.heldIn db) order.quantity
      | .sell => ¬ AddSlips py.context (cashOf db order.portfolioId) totalValue ∧
          ¬ SubSlips py.context (order.heldIn db) order.quantity
  | .transfer order _ =>
      match order.direction with
      | .credit => ¬ AddSlips py.context (cashOf db order.portfolioId) order.amount
      | .debit => ¬ SubSlips py.context (cashOf db order.portfolioId) order.amount

/-- The stored quantity of a position as a column value, also where there is no row. -/
theorem exists_heldOf (db : Ledger) (id : Uuid) (ticker : String) :
    ∃ n : Numeric, heldOf db id ticker = n.value := by
  unfold heldOf
  cases (positionsAt db id ticker).head? with
  | none => exact ⟨.zero, by simp⟩
  | some row => exact ⟨row.quantity, rfl⟩

/-- Each of the two columns against its own fold; `n` is the position column before. -/
theorem TradeCommit.rebuilt_after_iff_columns {py : Python} {order : TradeOrder} {db : Ledger}
    (c : TradeCommit py order db) (fresh : Fresh) (h : Rebuilt db order.portfolioId) {n : Numeric}
    (hn : heldOf db order.portfolioId order.ticker = n.value) :
    Rebuilt (c.after fresh) order.portfolioId ↔
      c.cashBalance.value = c.row.cashBalance.value + c.cashDelta ∧
        c.held.value = n.value + c.heldDelta := by
  have hcash := cashOf_eq c.row_eq
  constructor
  · -- only the ticker of the trade says anything new
    intro hafter
    have hc := hafter.cash
    have hh := hafter.held order.ticker
    rw [c.cashOf_after, c.cashFold_after, ← h.cash, hcash] at hc
    rw [c.heldOf_after, c.quantityFold_after, if_pos rfl, ← h.held, hn] at hh
    exact ⟨hc, hh⟩
  · rintro ⟨hc, hh⟩
    refine ⟨by rw [c.cashOf_after, c.cashFold_after, ← h.cash, hcash, hc], fun ticker => ?_⟩
    by_cases hticker : order.ticker = ticker
    · subst hticker
      rw [c.heldOf_after, c.quantityFold_after, if_pos rfl, ← h.held, hn, hh]
    · rw [c.heldOf_after_of_ne fresh hticker, c.quantityFold_after, if_neg hticker, add_zero,
        h.held]

theorem TradeCommit.rebuilt_after_iff {py : Python} {order : TradeOrder} {db : Ledger}
    (c : TradeCommit py order db) (fresh : Fresh) (hpos : (Job.trade order fresh).Positive)
    (hsolvent : Solvent db order.portfolioId) (h : Rebuilt db order.portfolioId) :
    Rebuilt (c.after fresh) order.portfolioId ↔ (Job.trade order fresh).RoundsCleanly py db := by
  have htotal := hpos.2 c.totalValue c.totalValue_eq
  have hcash := cashOf_eq c.row_eq
  have hcash0 : 0 ≤ c.row.cashBalance.value := hcash ▸ hsolvent.cashOf_nonneg
  have hheld0 := hsolvent.heldOf_nonneg order.ticker
  obtain ⟨n, hn⟩ := exists_heldOf db order.portfolioId order.ticker
  have hcw := c.cash_written
  have hhw := c.held_written
  have hcovered := c.covered
  rw [c.rebuilt_after_iff_columns fresh h hn, Job.RoundsCleanly, c.totalValue_eq]
  simp only [Decimal.finite.injEq, forall_eq', hcash, hn, TradeOrder.heldIn]
  unfold TradeOrder.newCash at hcw
  unfold TradeOrder.newHeld TradeOrder.heldIn at hhw
  unfold TradeOrder.Covered TradeOrder.heldIn at hcovered
  rw [hn] at hhw hcovered hheld0
  cases htype : order.tradeType with
  | buy =>
      -- the cash is reduced, the position grows
      simp only [htype] at hcw hhw hcovered
      simp only [TradeCommit.cashDelta, TradeCommit.heldDelta, htype, ← sub_eq_add_neg]
      exact and_congr (Numeric.written_sub_iff htotal hcovered c.total_written hcw)
        (Numeric.written_add_iff hpos.1.le hheld0 c.quantity_written hhw)
  | sell =>
      -- the other way round
      simp only [htype] at hcw hhw hcovered
      simp only [TradeCommit.cashDelta, TradeCommit.heldDelta, htype, ← sub_eq_add_neg]
      exact and_congr (Numeric.written_add_iff htotal hcash0 c.total_written hcw)
        (Numeric.written_sub_iff hpos.1.le hcovered c.quantity_written hhw)

/-- Positions and trades are left alone. -/
theorem TransferCommit.rebuilt_after_iff_column {py : Python} {order : TransferOrder} {db : Ledger}
    (c : TransferCommit py order db) (fresh : Fresh) (h : Rebuilt db order.portfolioId) :
    Rebuilt (c.after fresh) order.portfolioId ↔
      c.cashBalance.value = c.row.cashBalance.value + c.cashDelta := by
  have hcash := cashOf_eq c.row_eq
  constructor
  · intro hafter
    have hc := hafter.cash
    rwa [c.cashOf_after, c.cashFold_after, ← h.cash, hcash] at hc
  · intro hc
    exact ⟨by rw [c.cashOf_after, c.cashFold_after, ← h.cash, hcash, hc], h.held⟩

theorem TransferCommit.rebuilt_after_iff {py : Python} {order : TransferOrder} {db : Ledger}
    (c : TransferCommit py order db) (fresh : Fresh) (hpos : (Job.transfer order fresh).Positive)
    (hsolvent : Solvent db order.portfolioId) (h : Rebuilt db order.portfolioId) :
    Rebuilt (c.after fresh) order.portfolioId ↔ (Job.transfer order fresh).RoundsCleanly py db := by
  have hcash := cashOf_eq c.row_eq
  have hcash0 : 0 ≤ c.row.cashBalance.value := hcash ▸ hsolvent.cashOf_nonneg
  have hcw := c.cash_written
  have hcovered := c.covered
  rw [c.rebuilt_after_iff_column fresh h, Job.RoundsCleanly, hcash]
  unfold TransferOrder.newCash at hcw
  cases hdir : order.direction with
  | credit =>
      simp only [hdir] at hcw
      simp only [TransferCommit.cashDelta, hdir]
      exact Numeric.written_add_iff (le_of_lt hpos) hcash0 c.amount_written hcw
  | debit =>
      simp only [hdir] at hcw
      simp only [TransferCommit.cashDelta, hdir, ← sub_eq_add_neg]
      exact Numeric.written_sub_iff (le_of_lt hpos) (hcovered hdir) c.amount_written hcw

/-- A commit keeps a portfolio rebuilt exactly when it rounds cleanly there. -/
theorem Job.Commit.rebuilt_after_iff {py : Python} {db : Ledger} {job : Job} (c : job.Commit py db)
    (hpos : job.Positive) {id : Uuid} (hsolvent : Solvent db id) (h : Rebuilt db id) :
    Rebuilt c.after id ↔ (job.portfolioId = id → job.RoundsCleanly py db) := by
  by_cases hid : job.portfolioId = id
  · subst hid
    simp only [true_implies]
    cases c with
    | trade fresh c => exact c.rebuilt_after_iff fresh hpos hsolvent h
    | transfer fresh c => exact c.rebuilt_after_iff fresh hpos hsolvent h
  · -- a commit on another portfolio shows in none of its rows
    simp only [hid, false_implies, iff_true]
    exact (c.agreeOn_after (Ne.symm hid)).rebuilt_iff.mpr h

/-! ## 5. Runs of calls -/

/-- The portfolio `id` has just been created: no cash and no rows of its own. -/
structure NewPortfolio (db : Ledger) (id : Uuid) : Prop where
  portfolio : ∃ user, db.portfolios.filter (·.id = id) = [⟨id, user, .zero⟩]
  positions : positionsOf db id = []
  trades : tradesOf db id = []
  cashTransactions : cashTransactionsOf db id = []

theorem NewPortfolio.solvent {db : Ledger} {id : Uuid} (h : NewPortfolio db id) :
    Solvent db id where
  cash row hrow hid := by
    obtain ⟨user, hrows⟩ := h.portfolio
    have hmem : row ∈ db.portfolios.filter (·.id = id) := by simp [hrow, hid]
    rw [hrows, List.mem_singleton] at hmem
    rw [hmem, Numeric.value_zero]
  held row hrow hid := by
    have hmem : row ∈ positionsOf db id := by simp [positionsOf, hrow, hid]
    simp [h.positions] at hmem
  single ticker := by simp [positionsAt_eq_filter, h.positions]

theorem NewPortfolio.rebuilt {db : Ledger} {id : Uuid} (h : NewPortfolio db id) :
    Rebuilt db id where
  cash := by
    obtain ⟨user, hrows⟩ := h.portfolio
    have hrow : portfolio? db id = some ⟨id, user, .zero⟩ := by
      rw [portfolio?, ← List.head?_filter, hrows]
      rfl
    rw [cashOf_eq hrow]
    simp [cashFold, sumAmounts, sumTotals, h.trades, h.cashTransactions]
  held ticker := by
    simp [heldOf, positionsAt_eq_filter, h.positions, quantityFold, sumQuantities, h.trades]

/-- What the ledger promises of the portfolio `id` after `calls`: its stored balances are the folds of
its entries, and so is the balance that the newest cash entry recorded. -/
structure Reconstructible (py : Python) (start : Ledger) (id : Uuid) (calls : List Call)
    (db : Ledger) : Prop where
  rebuilt : Rebuilt db id
  resulting : ∀ earlier call db', calls = earlier ++ [call] → Run (callStep py) start earlier db' →
    ∀ row, db.cashTransactions = db'.cashTransactions ++ [row] → row.portfolio = id →
      row.resultingBalance.value = cashFold db id

/-- If the call commits on the portfolio `id`, none of its sums and differences slips. -/
def RoundsCleanly (py : Python) (id : Uuid) (db : Ledger) (call : Call) : Prop :=
  ∀ job, call.committed? py db = some job → job.portfolioId = id → job.RoundsCleanly py db

/-- The balance that a transfer records is the one it stores. -/
theorem resultingBalance_eq_cashOf {py : Python} {db db' : Ledger} {call : Call}
    (hstep : callStep py db call = some db') {row : CashTransaction}
    (hrow : db'.cashTransactions = db.cashTransactions ++ [row]) :
    row.resultingBalance.value = cashOf db' row.portfolio := by
  rcases callStep_cases hstep with ⟨-, rfl⟩ | ⟨job, -, hcommit⟩
  · simp at hrow
  · obtain ⟨c, rfl⟩ := jobStep_eq_some hcommit
    cases c with
    | trade fresh c =>
        change (c.after fresh).cashTransactions = _ at hrow
        rw [c.cashTransactions_after] at hrow
        simp at hrow
    | transfer fresh c =>
        obtain rfl := List.singleton_inj.mp (List.append_cancel_left hrow)
        exact (c.cashOf_after fresh).symm

theorem rebuilt_step_iff {py : Python} {db db' : Ledger} {call : Call} {id : Uuid}
    (hsolvent : Solvent db id) (h : Rebuilt db id) (hstep : callStep py db call = some db') :
    Rebuilt db' id ↔ RoundsCleanly py id db call := by
  unfold RoundsCleanly
  rcases callStep_cases hstep with ⟨hnone, rfl⟩ | ⟨job, hjob, hcommit⟩
  · simpa [hnone] using h
  · obtain ⟨c, rfl⟩ := jobStep_eq_some hcommit
    rw [c.rebuilt_after_iff (Call.job_positive (Call.committed?_eq_some_iff.mp hjob).1) hsolvent h]
    simp [hjob]

/-- A new portfolio stays reconstructible from its entries exactly as long as no committed call
slips. -/
theorem reconstructible_iff_roundsCleanly (py : Python) {start : Ledger} {id : Uuid}
    (hnew : NewPortfolio start id) (calls : List Call) :
    EveryState (callStep py) start calls (Reconstructible py start id) ↔
      EveryStep (callStep py) start calls (RoundsCleanly py id) := by
  obtain ⟨db, hrun⟩ := exists_run_callStep py start calls
  refine everyState_iff_everyStep ⟨hnew.rebuilt, by simp⟩ ?_ hrun
  intro earlier call t u ht hearlier hstep
  -- balances stay nonnegative whether or not anything slips
  have hsolvent : Solvent t id :=
    ht.invariant (I := (Solvent · id)) hnew.solvent fun _ _ _ => callStep_solvent
  rw [← rebuilt_step_iff hsolvent (hearlier earlier t (List.prefix_refl _) ht).rebuilt hstep]
  refine ⟨Reconstructible.rebuilt, fun hu => ⟨hu, ?_⟩⟩
  -- the newest cash entry is the one that this call has made
  intro earlier' call' t' hcalls ht' row hrow hid
  obtain ⟨rfl, hcall⟩ := List.append_inj' hcalls rfl
  obtain rfl := List.singleton_inj.mp hcall
  obtain rfl := ht.unique ht'
  rw [resultingBalance_eq_cashOf hstep hrow, hid, hu.cash]

theorem firstPortfolio_new : NewPortfolio firstPortfolio 1 where
  portfolio := ⟨1, rfl⟩
  positions := rfl
  trades := rfl
  cashTransactions := rfl

theorem reconstructible_iff_roundsCleanly_firstPortfolio :
    EveryState (callStep .default) firstPortfolio [transferCall 1 "CREDIT" 1]
        (Reconstructible .default firstPortfolio 1) ↔
      EveryStep (callStep .default) firstPortfolio [transferCall 1 "CREDIT" 1]
        (RoundsCleanly .default 1) :=
  reconstructible_iff_roundsCleanly .default firstPortfolio_new _

/-- Deposit 1, withdraw half a unit of the column: the column still says 1, the entries say 0.9999. -/
theorem not_reconstructible_half_unit :
    ¬ EveryState (callStep .default) firstPortfolio
        [transferCall 1 "CREDIT" 1, transferCall 2 "DEBIT" (1 / 20000)]
        (Reconstructible .default firstPortfolio 1) := by
  intro h
  obtain ⟨db, hrun⟩ := exists_run_callStep .default firstPortfolio
    [transferCall 1 "CREDIT" 1, transferCall 2 "DEBIT" (1 / 20000)]
  have hcash := (h _ db (List.prefix_refl _) hrun).rebuilt.cash
  have hvalues : (exec (callStep .default) firstPortfolio
      [transferCall 1 "CREDIT" 1, transferCall 2 "DEBIT" (1 / 20000)]).map
        (fun db => (cashOf db 1, cashFold db 1)) = some (1, 9999 / 10000) := by
    decide +kernel
  rw [hrun, Option.map_some, Option.some.injEq, Prod.mk.injEq] at hvalues
  rw [hvalues.1, hvalues.2] at hcash
  norm_num at hcash

end DjasktTrading.Ledger
