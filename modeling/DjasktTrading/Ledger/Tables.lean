import DjasktTrading.Ledger.CashService
import Mathlib.Algebra.BigOperators.Group.List.Basic

/-!
# Ledger tables — what each write changes for each lookup

Every write concerns one portfolio.  The lookups of the services see the writes to the portfolio
they ask about and no others, apart from the two lookups by idempotency key, which see every
portfolio.
-/

open Reasoning

namespace DjasktTrading.Ledger

/-- The portfolio a write concerns. -/
def Write.portfolio : Write → Uuid
  | .insertPosition row => row.portfolio
  | .updatePosition row => row.portfolio
  | .updatePortfolio row => row.id
  | .insertTrade row => row.portfolio
  | .insertCashTransaction row => row.portfolio

/-! ## 1. Portfolios -/

@[simp] theorem portfolio?_insertPosition (db : Ledger) (row : Position) (id : Uuid) :
    portfolio? (Writable.apply db (Write.insertPosition row)) id = portfolio? db id := rfl

@[simp] theorem portfolio?_updatePosition (db : Ledger) (row : Position) (id : Uuid) :
    portfolio? (Writable.apply db (Write.updatePosition row)) id = portfolio? db id := rfl

@[simp] theorem portfolio?_insertTrade (db : Ledger) (row : Trade) (id : Uuid) :
    portfolio? (Writable.apply db (Write.insertTrade row)) id = portfolio? db id := rfl

@[simp] theorem portfolio?_insertCashTransaction (db : Ledger) (row : CashTransaction) (id : Uuid) :
    portfolio? (Writable.apply db (Write.insertCashTransaction row)) id = portfolio? db id := rfl

theorem portfolio?_id {db : Ledger} {id : Uuid} {row : Portfolio}
    (h : portfolio? db id = some row) : row.id = id := by
  simpa using List.find?_some h

theorem filter_updatePortfolio (db : Ledger) (row : Portfolio) (id : Uuid) :
    (Writable.apply db (Write.updatePortfolio row)).portfolios.filter (·.id = id) =
      (db.portfolios.filter (·.id = id)).map fun p => if p.id = row.id then row else p := by
  change (db.portfolios.map _).filter _ = _
  rw [List.filter_map]
  congr 2
  funext p
  by_cases hp : p.id = row.id <;> simp [hp]

theorem portfolio?_updatePortfolio (db : Ledger) (row : Portfolio) (id : Uuid) :
    portfolio? (Writable.apply db (Write.updatePortfolio row)) id =
      if row.id = id then (portfolio? db id).map fun _ => row else portfolio? db id := by
  have hid : ((fun p : Portfolio => decide (p.id = id)) ∘
      fun p => if p.id = row.id then row else p) = fun p => decide (p.id = id) := by
    funext p
    by_cases hp : p.id = row.id <;> simp [hp]
  change (db.portfolios.map _).find? _ = _
  rw [List.find?_map, hid]
  change (portfolio? db id).map _ = _
  cases hf : portfolio? db id with
  | none => simp
  | some p =>
      have hp := portfolio?_id hf
      by_cases h : row.id = id
      · simp [h, hp]
      · simp [h, hp, Ne.symm h]

/-! ## 2. Positions -/

private theorem filter_updatePosition (positions : List Position) (row : Position)
    (keep : Position → Bool)
    (hkeep : ∀ p : Position, p.portfolio = row.portfolio → p.ticker = row.ticker →
      keep row = keep p) :
    (positions.map fun p =>
        if p.portfolio = row.portfolio ∧ p.ticker = row.ticker then row else p).filter keep =
      (positions.filter keep).map fun p =>
        if p.portfolio = row.portfolio ∧ p.ticker = row.ticker then row else p := by
  rw [List.filter_map]
  congr 2
  funext p
  by_cases hp : p.portfolio = row.portfolio ∧ p.ticker = row.ticker
  · simp only [Function.comp_apply, hp, and_self, if_true]
    exact hkeep p hp.1 hp.2
  · simp [hp]

theorem positionsOf_updatePosition (db : Ledger) (row : Position) (id : Uuid) :
    positionsOf (Writable.apply db (Write.updatePosition row)) id =
      (positionsOf db id).map fun p =>
        if p.portfolio = row.portfolio ∧ p.ticker = row.ticker then row else p :=
  filter_updatePosition db.positions row _ (by
    intro p hp ht
    rw [hp])

theorem positionsAt_updatePosition (db : Ledger) (row : Position) (id : Uuid) (ticker : String) :
    positionsAt (Writable.apply db (Write.updatePosition row)) id ticker =
      (positionsAt db id ticker).map fun p =>
        if p.portfolio = row.portfolio ∧ p.ticker = row.ticker then row else p :=
  filter_updatePosition db.positions row _ (by
    intro p hp ht
    rw [hp, ht])

theorem positionsOf_insertPosition (db : Ledger) (row : Position) (id : Uuid) :
    positionsOf (Writable.apply db (Write.insertPosition row)) id =
      positionsOf db id ++ if row.portfolio = id then [row] else [] := by
  change List.filter _ (db.positions ++ [row]) = _
  rw [List.filter_append]
  by_cases h : row.portfolio = id <;> simp [positionsOf, h]

theorem positionsAt_insertPosition (db : Ledger) (row : Position) (id : Uuid) (ticker : String) :
    positionsAt (Writable.apply db (Write.insertPosition row)) id ticker =
      positionsAt db id ticker ++
        if row.portfolio = id ∧ row.ticker = ticker then [row] else [] := by
  change List.filter _ (db.positions ++ [row]) = _
  rw [List.filter_append]
  by_cases h : row.portfolio = id ∧ row.ticker = ticker <;> simp [positionsAt, h]

@[simp] theorem positionsAt_updatePortfolio (db : Ledger) (row : Portfolio) (id : Uuid)
    (ticker : String) :
    positionsAt (Writable.apply db (Write.updatePortfolio row)) id ticker =
      positionsAt db id ticker := rfl

@[simp] theorem positionsAt_insertTrade (db : Ledger) (row : Trade) (id : Uuid) (ticker : String) :
    positionsAt (Writable.apply db (Write.insertTrade row)) id ticker = positionsAt db id ticker :=
  rfl

@[simp] theorem positionsAt_insertCashTransaction (db : Ledger) (row : CashTransaction) (id : Uuid)
    (ticker : String) :
    positionsAt (Writable.apply db (Write.insertCashTransaction row)) id ticker =
      positionsAt db id ticker := rfl

theorem positionsAt_eq_filter (db : Ledger) (id : Uuid) (ticker : String) :
    positionsAt db id ticker = (positionsOf db id).filter (·.ticker = ticker) := by
  unfold positionsAt positionsOf
  rw [List.filter_filter]
  congr 1
  funext p
  rw [Bool.decide_and, Bool.and_comm]

/-- A position row is found under its own portfolio and ticker. -/
theorem mem_positionsAt {db : Ledger} {id : Uuid} {ticker : String} {p : Position}
    (h : p ∈ positionsAt db id ticker) : p ∈ db.positions ∧ p.portfolio = id ∧ p.ticker = ticker := by
  simpa [positionsAt] using h

theorem positionsAt_head? {db : Ledger} {id : Uuid} {ticker : String} {p : Position}
    (h : (positionsAt db id ticker).head? = some p) :
    p ∈ db.positions ∧ p.portfolio = id ∧ p.ticker = ticker :=
  mem_positionsAt (List.mem_of_head? h)

/-! ## 3. Ledger entries -/

theorem tradesOf_insertTrade (db : Ledger) (row : Trade) (id : Uuid) :
    tradesOf (Writable.apply db (Write.insertTrade row)) id =
      tradesOf db id ++ if row.portfolio = id then [row] else [] := by
  change List.filter _ (db.trades ++ [row]) = _
  rw [List.filter_append]
  by_cases h : row.portfolio = id <;> simp [tradesOf, h]

theorem cashTransactionsOf_insertCashTransaction (db : Ledger) (row : CashTransaction) (id : Uuid) :
    cashTransactionsOf (Writable.apply db (Write.insertCashTransaction row)) id =
      cashTransactionsOf db id ++ if row.portfolio = id then [row] else [] := by
  change List.filter _ (db.cashTransactions ++ [row]) = _
  rw [List.filter_append]
  by_cases h : row.portfolio = id <;> simp [cashTransactionsOf, h]

theorem tradeByKey?_insertTrade (db : Ledger) (row : Trade) (key : Uuid) :
    tradeByKey? (Writable.apply db (Write.insertTrade row)) key =
      (tradeByKey? db key).or (if row.idempotencyKey = key then some row else none) := by
  change List.find? _ (db.trades ++ [row]) = _
  rw [List.find?_append]
  by_cases h : row.idempotencyKey = key <;> simp [tradeByKey?, h]

theorem cashTransactionByKey?_insertCashTransaction (db : Ledger) (row : CashTransaction)
    (key : Uuid) :
    cashTransactionByKey? (Writable.apply db (Write.insertCashTransaction row)) key =
      (cashTransactionByKey? db key).or (if row.idempotencyKey = key then some row else none) := by
  change List.find? _ (db.cashTransactions ++ [row]) = _
  rw [List.find?_append]
  by_cases h : row.idempotencyKey = key <;> simp [cashTransactionByKey?, h]

theorem tradeByKey?_eq_none_iff {db : Ledger} {key : Uuid} :
    tradeByKey? db key = none ↔ key ∉ db.trades.map (·.idempotencyKey) := by
  simp [tradeByKey?, List.find?_eq_none]

theorem cashTransactionByKey?_eq_none_iff {db : Ledger} {key : Uuid} :
    cashTransactionByKey? db key = none ↔ key ∉ db.cashTransactions.map (·.idempotencyKey) := by
  simp [cashTransactionByKey?, List.find?_eq_none]

/-! ## 4. Agreement on one portfolio -/

/-- Two databases hold the same rows of the portfolio `id`. -/
structure AgreeOn (id : Uuid) (db db' : Ledger) : Prop where
  portfolios : db.portfolios.filter (·.id = id) = db'.portfolios.filter (·.id = id)
  positions : positionsOf db id = positionsOf db' id
  trades : tradesOf db id = tradesOf db' id
  cashTransactions : cashTransactionsOf db id = cashTransactionsOf db' id

namespace AgreeOn

theorem refl (id : Uuid) (db : Ledger) : AgreeOn id db db := ⟨rfl, rfl, rfl, rfl⟩

theorem symm {id : Uuid} {db db' : Ledger} (h : AgreeOn id db db') : AgreeOn id db' db :=
  ⟨h.portfolios.symm, h.positions.symm, h.trades.symm, h.cashTransactions.symm⟩

theorem trans {id : Uuid} {db db' db'' : Ledger} (h : AgreeOn id db db')
    (h' : AgreeOn id db' db'') : AgreeOn id db db'' :=
  ⟨h.portfolios.trans h'.portfolios, h.positions.trans h'.positions, h.trades.trans h'.trades,
    h.cashTransactions.trans h'.cashTransactions⟩

theorem portfolio {id : Uuid} {db db' : Ledger} (h : AgreeOn id db db') :
    portfolio? db id = portfolio? db' id := by
  rw [portfolio?, portfolio?, ← List.head?_filter, ← List.head?_filter, h.portfolios]

theorem positionsAt {id : Uuid} {db db' : Ledger} (h : AgreeOn id db db') (ticker : String) :
    Ledger.positionsAt db id ticker = Ledger.positionsAt db' id ticker := by
  rw [positionsAt_eq_filter, positionsAt_eq_filter, h.positions]

/-- The same write on both sides keeps the agreement. -/
theorem stable (id : Uuid) : Tx.Stable (AgreeOn id) := by
  intro db db' w h
  cases w with
  | insertPosition row =>
      exact ⟨h.portfolios, by rw [positionsOf_insertPosition, positionsOf_insertPosition, h.positions],
        h.trades, h.cashTransactions⟩
  | updatePosition row =>
      exact ⟨h.portfolios, by rw [positionsOf_updatePosition, positionsOf_updatePosition, h.positions],
        h.trades, h.cashTransactions⟩
  | updatePortfolio row =>
      exact ⟨by rw [filter_updatePortfolio, filter_updatePortfolio, h.portfolios],
        h.positions, h.trades, h.cashTransactions⟩
  | insertTrade row =>
      exact ⟨h.portfolios, h.positions,
        by rw [tradesOf_insertTrade, tradesOf_insertTrade, h.trades], h.cashTransactions⟩
  | insertCashTransaction row =>
      exact ⟨h.portfolios, h.positions, h.trades,
        by rw [cashTransactionsOf_insertCashTransaction, cashTransactionsOf_insertCashTransaction,
          h.cashTransactions]⟩

/-- A write that concerns another portfolio is not seen. -/
theorem apply_of_ne {id : Uuid} {w : Write} (hw : w.portfolio ≠ id) (db : Ledger) :
    AgreeOn id (Writable.apply db w) db := by
  cases w with
  | insertPosition row =>
      change row.portfolio ≠ id at hw
      exact ⟨rfl, by rw [positionsOf_insertPosition, if_neg hw, List.append_nil], rfl, rfl⟩
  | updatePosition row =>
      refine ⟨rfl, ?_, rfl, rfl⟩
      rw [positionsOf_updatePosition]
      -- the rows of this portfolio are none that the update names
      conv_rhs => rw [← List.map_id (positionsOf db id)]
      apply List.map_congr_left
      intro p hp
      have hid : p.portfolio = id := by simpa using (List.mem_filter.mp hp).2
      rw [if_neg (fun h => hw (h.1.symm.trans hid)), id_eq]
  | updatePortfolio row =>
      change row.id ≠ id at hw
      refine ⟨?_, rfl, rfl, rfl⟩
      rw [filter_updatePortfolio]
      conv_rhs => rw [← List.map_id (db.portfolios.filter (·.id = id))]
      apply List.map_congr_left
      intro p hp
      have hid : p.id = id := by simpa using (List.mem_filter.mp hp).2
      rw [if_neg (fun h => hw (h.symm.trans hid)), id_eq]
  | insertTrade row =>
      change row.portfolio ≠ id at hw
      exact ⟨rfl, rfl, by rw [tradesOf_insertTrade, if_neg hw, List.append_nil], rfl⟩
  | insertCashTransaction row =>
      change row.portfolio ≠ id at hw
      exact ⟨rfl, rfl, rfl,
        by rw [cashTransactionsOf_insertCashTransaction, if_neg hw, List.append_nil]⟩

theorem applyAll_of_ne {id : Uuid} {ws : List Write} (hws : ∀ w ∈ ws, w.portfolio ≠ id)
    (db : Ledger) : AgreeOn id (applyAll db ws) db := by
  induction ws generalizing db with
  | nil => exact refl id db
  | cons w ws ih =>
      exact (ih (fun v hv => hws v (List.mem_cons_of_mem w hv)) _).trans
        (apply_of_ne (hws w List.mem_cons_self) db)

end AgreeOn

end DjasktTrading.Ledger
