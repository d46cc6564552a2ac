import DjasktTrading.Reasoning.Rounding
import DjasktTrading.Reasoning.Transactions

/-!
# Ledger models — rows, columns, and the database they live in

The four tables of the ledger app, their `numeric(19,4)` columns, the instances the services hold in
memory, and the writes a statement can make.  Columns that nothing here reads (`created_at`,
`updated_at`, `last_updated`, the surrogate id of a position) are left out.
-/

open Reasoning

namespace DjasktTrading

/-- What the services take from the Python runtime: string functions and the decimal context. -/
structure Python where
  upper : String → String
  strip : String → String
  repr : String → String
  context : DecimalContext

/-- ASCII strings and the default decimal context. -/
def Python.default : Python where
  upper := String.toUpper
  strip := fun s => String.ofList
    (((s.toList.dropWhile Char.isWhitespace).reverse.dropWhile Char.isWhitespace).reverse)
  repr := fun s => "'" ++ s ++ "'"
  context := .prec28

abbrev Uuid := BitVec 128

/-- The canonical text of a UUID: 32 lower-case hex digits in groups of 8, 4, 4, 4 and 12. -/
def Uuid.str (u : Uuid) : String :=
  let digits := Nat.toDigits 16 u.toNat
  let hex := List.replicate (32 - digits.length) '0' ++ digits
  String.ofList (hex.take 8) ++ "-" ++ String.ofList ((hex.drop 8).take 4) ++ "-" ++
    String.ofList ((hex.drop 12).take 4) ++ "-" ++ String.ofList ((hex.drop 16).take 4) ++ "-" ++
    String.ofList (hex.drop 20)

abbrev UserId := ℤ

/-- Microseconds since the epoch. -/
abbrev Timestamp := ℕ

namespace Ledger

/-! ## 1. Exceptions -/

/-- The subclasses of `LedgerServiceError`. -/
inductive LedgerServiceError where
  | portfolioNotFound
  | priceUnavailable
  | insufficientFunds
  | insufficientPosition
  | invalidTradeRequest
deriving DecidableEq, Repr

/-- What a service call can raise: a domain error with its message, or an exception that the ledger
app does not define. -/
inductive Exn where
  | ledgerService (kind : LedgerServiceError) (detail : String)
  | dataError
  | integrityError
  | multipleObjectsReturned
  | invalidOperation
  | operationalError
  | channelLayerError
deriving DecidableEq, Repr

/-! ## 2. Decimals and `numeric(19,4)` columns -/

/-- The `Decimal` values the services compute with.  A NaN never passes their comparisons. -/
inductive Decimal where
  | finite (value : ℚ)
  | infinity
deriving DecidableEq

/-- A stored `numeric(19,4)`: a count of ten-thousandths of at most 19 digits. -/
structure Numeric where
  units : ℤ
  fits : units.natAbs < 10 ^ 19
deriving DecidableEq

def Numeric.value (n : Numeric) : ℚ := n.units / 10 ^ 4

def Numeric.zero : Numeric := ⟨0, by norm_num⟩

@[simp] theorem Numeric.value_zero : Numeric.zero.value = 0 := by
  simp [Numeric.zero, Numeric.value]

@[ext] theorem Numeric.ext {a b : Numeric} (h : a.units = b.units) : a = b := by
  cases a
  cases b
  simpa using h

theorem Numeric.value_mul (n : Numeric) : n.value * 10 ^ 4 = n.units := by
  unfold Numeric.value
  ring

/-- Write a number to a column: round to 4 decimals, half away from zero, and reject what does not
fit. -/
def Numeric.write (q : ℚ) : Except Exn Numeric :=
  let units := roundHalfAway (q * 10 ^ 4)
  if h : units.natAbs < 10 ^ 19 then .ok ⟨units, h⟩ else .error .dataError

/-- Writing a `Decimal`: the column cannot hold an infinite value. -/
def Numeric.writeDecimal : Decimal → Except Exn Numeric
  | .finite q => Numeric.write q
  | .infinity => .error .dataError

theorem Numeric.write_eq_ok_iff {q : ℚ} {n : Numeric} :
    Numeric.write q = .ok n ↔ n.units = roundHalfAway (q * 10 ^ 4) := by
  unfold Numeric.write
  dsimp only
  split
  · rw [Except.ok.injEq]
    constructor
    · rintro rfl
      rfl
    · intro h
      exact Numeric.ext h.symm
  · rename_i hbig
    simp only [reduceCtorEq, false_iff]
    intro h
    exact hbig (h ▸ n.fits)

/-- A value that a column already holds is written back unchanged. -/
theorem Numeric.write_value (n : Numeric) : Numeric.write n.value = .ok n := by
  rw [Numeric.write_eq_ok_iff, n.value_mul, roundHalfAway_intCast]

theorem Numeric.write_nonneg {q : ℚ} {n : Numeric} (hq : 0 ≤ q) (h : Numeric.write q = .ok n) :
    0 ≤ n.value := by
  rw [Numeric.write_eq_ok_iff] at h
  have hu : 0 ≤ n.units := h ▸ roundHalfAway_nonneg (by positivity)
  unfold Numeric.value
  positivity

theorem Numeric.writeDecimal_eq_ok_iff {d : Decimal} {n : Numeric} :
    Numeric.writeDecimal d = .ok n ↔ ∃ q, d = .finite q ∧ Numeric.write q = .ok n := by
  cases d <;> simp [Numeric.writeDecimal]

/-! ## 3. Rows -/

structure Portfolio where
  id : Uuid
  user : UserId
  cashBalance : Numeric
deriving DecidableEq

structure Position where
  portfolio : Uuid
  ticker : String
  quantity : Numeric
deriving DecidableEq

inductive TradeType where
  | buy
  | sell
deriving DecidableEq, Repr

def TradeType.value : TradeType → String
  | .buy => "BUY"
  | .sell => "SELL"

/-- The member of `Trade.TradeType.values` that a string is, if any. -/
def TradeType.ofValue? (s : String) : Option TradeType :=
  if s = "BUY" then some .buy else if s = "SELL" then some .sell else none

structure Trade where
  id : Uuid
  idempotencyKey : Uuid
  portfolio : Uuid
  ticker : String
  tradeType : TradeType
  quantity : Numeric
  price : Numeric
  totalValue : Numeric
  timestamp : Timestamp
deriving DecidableEq

inductive Direction where
  | credit
  | debit
deriving DecidableEq, Repr

def Direction.value : Direction → String
  | .credit => "CREDIT"
  | .debit => "DEBIT"

def Direction.ofValue? (s : String) : Option Direction :=
  if s = "CREDIT" then some .credit else if s = "DEBIT" then some .debit else none

structure CashTransaction where
  id : Uuid
  idempotencyKey : Uuid
  portfolio : Uuid
  direction : Direction
  amount : Numeric
  resultingBalance : Numeric
  timestamp : Timestamp
deriving DecidableEq

/-! ## 4. Instances in memory -/

structure PortfolioInstance where
  id : Uuid
  user : UserId
  cashBalance : Decimal
deriving DecidableEq

structure PositionInstance where
  portfolio : Uuid
  ticker : String
  quantity : ℚ
deriving DecidableEq

/-- A `Trade` object: what a freshly created one holds has not been through the columns. -/
structure TradeInstance where
  id : Uuid
  idempotencyKey : Uuid
  portfolio : Uuid
  ticker : String
  tradeType : TradeType
  quantity : ℚ
  price : Decimal
  totalValue : Decimal
  timestamp : Timestamp
deriving DecidableEq

structure CashTransactionInstance where
  id : Uuid
  idempotencyKey : Uuid
  portfolio : Uuid
  direction : Direction
  amount : ℚ
  resultingBalance : Decimal
  timestamp : Timestamp
deriving DecidableEq

def Portfolio.load (p : Portfolio) : PortfolioInstance where
  id := p.id
  user := p.user
  cashBalance := .finite p.cashBalance.value

def Position.load (p : Position) : PositionInstance where
  portfolio := p.portfolio
  ticker := p.ticker
  quantity := p.quantity.value

def Trade.load (t : Trade) : TradeInstance where
  id := t.id
  idempotencyKey := t.idempotencyKey
  portfolio := t.portfolio
  ticker := t.ticker
  tradeType := t.tradeType
  quantity := t.quantity.value
  price := .finite t.price.value
  totalValue := .finite t.totalValue.value
  timestamp := t.timestamp

def CashTransaction.load (c : CashTransaction) : CashTransactionInstance where
  id := c.id
  idempotencyKey := c.idempotencyKey
  portfolio := c.portfolio
  direction := c.direction
  amount := c.amount.value
  resultingBalance := .finite c.resultingBalance.value
  timestamp := c.timestamp

/-! ## 5. The database -/

end Ledger

/-- The stored rows of the ledger app. -/
structure Ledger where
  portfolios : List Ledger.Portfolio
  positions : List Ledger.Position
  trades : List Ledger.Trade
  cashTransactions : List Ledger.CashTransaction
deriving DecidableEq

namespace Ledger

/-- One row written.  An update replaces every column of the row it names. -/
inductive Write where
  | insertPosition (row : Position)
  | updatePosition (row : Position)
  | updatePortfolio (row : Portfolio)
  | insertTrade (row : Trade)
  | insertCashTransaction (row : CashTransaction)
deriving DecidableEq

instance : Writable Ledger Write where
  apply db
    | .insertPosition row => { db with positions := db.positions ++ [row] }
    | .updatePosition row => { db with
        positions := db.positions.map fun p =>
          if p.portfolio = row.portfolio ∧ p.ticker = row.ticker then row else p }
    | .updatePortfolio row => { db with
        portfolios := db.portfolios.map fun p => if p.id = row.id then row else p }
    | .insertTrade row => { db with trades := db.trades ++ [row] }
    | .insertCashTransaction row => { db with cashTransactions := db.cashTransactions ++ [row] }

abbrev LedgerTx (α : Type) : Type := Tx Ledger Write Exn α

def portfolio? (db : Ledger) (id : Uuid) : Option Portfolio := db.portfolios.find? (·.id = id)

/-- `Portfolio.objects.filter(user=user).first()`; `user` is one-to-one. -/
def portfolioOf? (db : Ledger) (user : UserId) : Option Portfolio :=
  db.portfolios.find? (·.user = user)

def positionsOf (db : Ledger) (portfolio : Uuid) : List Position :=
  db.positions.filter (·.portfolio = portfolio)

/-- The rows for one portfolio and ticker; `unique_portfolio_ticker` keeps them at one. -/
def positionsAt (db : Ledger) (portfolio : Uuid) (ticker : String) : List Position :=
  db.positions.filter fun p => p.portfolio = portfolio ∧ p.ticker = ticker

def tradesOf (db : Ledger) (portfolio : Uuid) : List Trade :=
  db.trades.filter (·.portfolio = portfolio)

def cashTransactionsOf (db : Ledger) (portfolio : Uuid) : List CashTransaction :=
  db.cashTransactions.filter (·.portfolio = portfolio)

def tradeByKey? (db : Ledger) (key : Uuid) : Option Trade :=
  db.trades.find? (·.idempotencyKey = key)

def cashTransactionByKey? (db : Ledger) (key : Uuid) : Option CashTransaction :=
  db.cashTransactions.find? (·.idempotencyKey = key)

end Ledger

end DjasktTrading
