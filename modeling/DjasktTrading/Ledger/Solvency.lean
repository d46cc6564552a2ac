import DjasktTrading.Ledger.Jobs

/-!
# Solvency — no overdraft, no overselling, one position row per ticker

The services compare unrounded values and store rounded ones.  Rounding never takes a nonnegative
number below zero, so the comparison that guards a branch is enough for what the branch stores.
-/

open Reasoning

namespace DjasktTrading.Ledger

/-- The rows of one portfolio: nothing negative, and no ticker twice. -/
structure Solvent (db : Ledger) (id : Uuid) : Prop where
  cash : ∀ row ∈ db.portfolios, row.id = id → 0 ≤ row.cashBalance.value
  held : ∀ row ∈ db.positions, row.portfolio = id → 0 ≤ row.quantity.value
  single : ∀ ticker, (positionsAt db id ticker).length ≤ 1

theorem portfolio?_mem {db : Ledger} {id : Uuid} {row : Portfolio}
    (h : portfolio? db id = some row) : row ∈ db.portfolios :=
  List.mem_of_find?_eq_some h

theorem Solvent.cashOf_nonneg {db : Ledger} {id : Uuid} (h : Solvent db id) : 0 ≤ cashOf db id := by
  unfold cashOf
  cases hrow : portfolio? db id with
  | none => simp
  | some row => simpa using h.cash row (portfolio?_mem hrow) (portfolio?_id hrow)

theorem Solvent.heldOf_nonneg {db : Ledger} {id : Uuid} (h : Solvent db id) (ticker : String) :
    0 ≤ heldOf db id ticker := by
  unfold heldOf
  cases hhead : (positionsAt db id ticker).head? with
  | none => simp
  | some row =>
      obtain ⟨hmem, hid, -⟩ := positionsAt_head? hhead
      simpa using h.held row hmem hid

/-! ## 1. What the argument checks leave of a job -/

/-- Strictly positive quantity or amount, and a total that is not negative. -/
def Job.Positive : Job → Prop
  | .trade order _ =>
      0 < order.quantity ∧ ∀ totalValue, order.totalValue = .finite totalValue → 0 ≤ totalValue
  | .transfer order _ => 0 < order.amount

theorem mulDecimal_nonneg {py : Python} {quantity price totalValue : ℚ} (hq : 0 ≤ quantity)
    (hp : 0 ≤ price) (h : mulDecimal py quantity (.finite price) = .finite totalValue) :
    0 ≤ totalValue := by
  rw [mulDecimal, Decimal.finite.injEq] at h
  exact h ▸ py.context.round_nonneg (mul_nonneg hq hp)

theorem Call.job_positive {py : Python} {call : Call} {job : Job} (h : call.job py = .ok job) :
    job.Positive := by
  cases Call.opens_of_job h with
  | @trade req tradeType price request checked priced =>
      have hq := (checkTrade_eq_ok checked).2
      refine ⟨hq, fun totalValue htotal => ?_⟩
      -- an infinite price makes an infinite total
      cases price with
      | infinity => cases htotal
      | finite price => exact mulDecimal_nonneg hq.le (getLivePrice_pos priced).le htotal
  | transfer request checked =>
      obtain ⟨direction, -, ha, rfl⟩ := checkTransfer_eq_ok checked
      exact ha

/-! ## 2. Commits keep a portfolio solvent -/

namespace TradeCommit

variable {py : Python} {order : TradeOrder} {db : Ledger}

/-- The balance that a covered trade stores. -/
theorem cashBalance_nonneg (c : TradeCommit py order db) (htotal : 0 ≤ c.totalValue)
    (hcash : 0 ≤ c.row.cashBalance.value) : 0 ≤ c.cashBalance.value := by
  apply Numeric.write_nonneg _ c.cash_written
  have hcovered := c.covered
  unfold TradeOrder.newCash
  unfold TradeOrder.Covered at hcovered
  cases htype : order.tradeType with
  | buy =>
      rw [htype] at hcovered
      exact py.context.round_nonneg (sub_nonneg.mpr hcovered)
  | sell => exact py.context.round_nonneg (add_nonneg hcash htotal)

/-- The quantity that a covered trade stores. -/
theorem held_nonneg (c : TradeCommit py order db) (hq : 0 ≤ order.quantity)
    (hheld : 0 ≤ order.heldIn db) : 0 ≤ c.held.value := by
  apply Numeric.write_nonneg _ c.held_written
  have hcovered := c.covered
  unfold TradeOrder.newHeld
  unfold TradeOrder.Covered at hcovered
  cases htype : order.tradeType with
  | buy => exact py.context.round_nonneg (add_nonneg hheld hq)
  | sell =>
      rw [htype] at hcovered
      exact py.context.round_nonneg (sub_nonneg.mpr hcovered)

theorem mem_portfolios_after (c : TradeCommit py order db) (fresh : Fresh) {row : Portfolio}
    (h : row ∈ (c.after fresh).portfolios) : row = c.newRow ∨ row ∈ db.portfolios := by
  have hrows : (c.after fresh).portfolios =
      db.portfolios.map fun p => if p.id = c.newRow.id then c.newRow else p := by
    rw [c.after_eq fresh, openPosition]
    split <;> rfl
  rw [hrows] at h
  obtain ⟨p, hp, rfl⟩ := List.mem_map.mp h
  split
  · exact .inl rfl
  · exact .inr hp

theorem positions_after (c : TradeCommit py order db) (fresh : Fresh) :
    (c.after fresh).positions =
      (applyAll db (openPosition db order.portfolioId order.ticker)).positions.map fun p =>
        if p.portfolio = order.portfolioId ∧ p.ticker = order.ticker then c.newPosition else p := by
  rw [c.after_eq fresh]
  rfl

theorem mem_positions_openPosition {db : Ledger} {id : Uuid} {ticker : String} {row : Position}
    (h : row ∈ (applyAll db (openPosition db id ticker)).positions) :
    (row.portfolio = id ∧ row.quantity = Numeric.zero) ∨ row ∈ db.positions := by
  unfold openPosition at h
  split at h
  · -- the row that `get_or_create` has inserted is empty
    rcases List.mem_append.mp (h : row ∈ db.positions ++ [_]) with h | h
    · exact .inr h
    · obtain rfl := List.mem_singleton.mp h
      exact .inl ⟨rfl, rfl⟩
  · exact .inr h

theorem length_positionsAt_openPosition {db : Ledger} {id id' : Uuid} {ticker ticker' : String}
    (h : (positionsAt db id' ticker').length ≤ 1) :
    (positionsAt (applyAll db (openPosition db id ticker)) id' ticker').length ≤ 1 := by
  unfold openPosition
  split
  · rename_i hnone
    rw [applyAll_cons, applyAll_nil, positionsAt_insertPosition]
    split
    · -- a row is inserted only where there is none
      rename_i hsame
      obtain ⟨rfl, rfl⟩ := hsame
      simp [hnone]
    · simpa using h
  · exact h

theorem solvent_after (c : TradeCommit py order db) (fresh : Fresh) (hq : 0 ≤ order.quantity)
    (htotal : 0 ≤ c.totalValue) {id : Uuid} (h : Solvent db id) : Solvent (c.after fresh) id where
  cash row hrow hid := by
    rcases c.mem_portfolios_after fresh hrow with rfl | hold
    · apply c.cashBalance_nonneg htotal
      exact h.cash c.row (portfolio?_mem c.row_eq) (c.row_id.trans (c.newRow_id.symm.trans hid))
    · exact h.cash row hold hid
  held row hrow hid := by
    rw [c.positions_after fresh] at hrow
    obtain ⟨p, hp, hrow⟩ := List.mem_map.mp hrow
    split at hrow
    · -- the row that the trade saved
      subst hrow
      obtain rfl : order.portfolioId = id := hid
      exact c.held_nonneg hq (h.heldOf_nonneg order.ticker)
    · subst hrow
      rcases mem_positions_openPosition hp with ⟨-, hzero⟩ | hold
      · rw [hzero, Numeric.value_zero]
      · exact h.held p hold hid
  single ticker := by
    rw [c.after_eq fresh]
    change (positionsAt (Writable.apply
      (applyAll db (openPosition db order.portfolioId order.ticker))
      (Write.updatePosition c.newPosition)) id ticker).length ≤ 1
    rw [positionsAt_updatePosition, List.length_map]
    exact length_positionsAt_openPosition (h.single ticker)

end TradeCommit

namespace TransferCommit

variable {py : Python} {order : TransferOrder} {db : Ledger}

theorem cashBalance_nonneg (c : TransferCommit py order db) (ha : 0 ≤ order.amount)
    (hcash : 0 ≤ c.row.cashBalance.value) : 0 ≤ c.cashBalance.value := by
  apply Numeric.write_nonneg _ c.cash_written
  unfold TransferOrder.newCash
  cases hdir : order.direction with
  | credit => exact py.context.round_nonneg (add_nonneg hcash ha)
  | debit => exact py.context.round_nonneg (sub_nonneg.mpr (c.covered hdir))

theorem solvent_after (c : TransferCommit py order db) (fresh : Fresh) (ha : 0 ≤ order.amount)
    {id : Uuid} (h : Solvent db id) : Solvent (c.after fresh) id where
  cash row hrow hid := by
    obtain ⟨p, hp, hrow⟩ := List.mem_map.mp
      (hrow : row ∈ db.portfolios.map fun p => if p.id = c.newRow.id then c.newRow else p)
    split at hrow
    · subst hrow
      apply c.cashBalance_nonneg ha
      exact h.cash c.row (portfolio?_mem c.row_eq) (c.row_id.trans (c.newRow_id.symm.trans hid))
    · exact h.cash row (hrow ▸ hp) hid
  held := h.held
  single := h.single

end TransferCommit

/-- A job that commits keeps every portfolio solvent. -/
theorem Job.Commit.solvent_after {py : Python} {db : Ledger} {job : Job} (c : job.Commit py db)
    (hpos : job.Positive) {id : Uuid} (h : Solvent db id) : Solvent c.after id := by
  cases c with
  | trade fresh c =>
      exact c.solvent_after fresh hpos.1.le (hpos.2 c.totalValue c.totalValue_eq) h
  | transfer fresh c => exact c.solvent_after fresh (le_of_lt hpos) h

/-- A call keeps every portfolio solvent. -/
theorem callStep_solvent {py : Python} {db db' : Ledger} {call : Call} {id : Uuid}
    (h : Solvent db id) (hstep : callStep py db call = some db') : Solvent db' id := by
  rcases callStep_cases hstep with ⟨-, rfl⟩ | ⟨job, hjob, hcommit⟩
  · exact h
  · obtain ⟨c, rfl⟩ := jobStep_eq_some hcommit
    exact c.solvent_after (Call.job_positive (Call.committed?_eq_some_iff.mp hjob).1) h

theorem firstPortfolio_solvent (id : Uuid) : Solvent firstPortfolio id where
  cash row hrow _ := by
    obtain rfl := List.mem_singleton.mp hrow
    exact Numeric.value_zero.ge
  held row hrow := by cases hrow
  single ticker := Nat.zero_le 1

end DjasktTrading.Ledger
