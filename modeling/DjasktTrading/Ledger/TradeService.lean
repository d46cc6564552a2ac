import DjasktTrading.Ledger.PriceService

/-!
# Trade service — `execute_trade`

The statements of the transaction are definitions of their own, in the order the method runs them,
so that the same statements can be run in one go (`executeTrade`) or one at a time between those of
other requests.
-/

open Reasoning

namespace DjasktTrading.Ledger

/-- The arguments of `execute_trade`. -/
structure TradeRequest where
  portfolioId : Uuid
  ticker : String
  tradeType : String
  quantity : ℚ
  idempotencyKey : Uuid
deriving DecidableEq

/-- What a new row takes from its defaults: a fresh `uuid4` and the clock. -/
structure Fresh where
  id : Uuid
  now : Timestamp
deriving DecidableEq

/-- Outcome of a submission: a freshly committed entry, with the portfolio instance it was created
from, or an idempotent replay of a stored one. -/
inductive Result (α : Type) where
  | committed (entry : α) (portfolio : PortfolioInstance)
  | replay (entry : α)
deriving DecidableEq

def Result.isReplay {α : Type} : Result α → Bool
  | .committed _ _ => false
  | .replay _ => true

def Result.entry {α : Type} : Result α → α
  | .committed entry _ => entry
  | .replay entry => entry

abbrev TradeResult : Type := Result TradeInstance

/-- The local variables of `execute_trade` when it opens its transaction. -/
structure TradeOrder where
  portfolioId : Uuid
  ticker : String
  tradeType : TradeType
  quantity : ℚ
  idempotencyKey : Uuid
  price : Decimal
  totalValue : Decimal
deriving DecidableEq

/-- The checks on the arguments. -/
def checkTrade (py : Python) (req : TradeRequest) : Except Exn TradeType :=
  match TradeType.ofValue? req.tradeType with
  | none =>
      .error (.ledgerService .invalidTradeRequest
        ("Invalid trade type: " ++ py.repr req.tradeType))
  | some tradeType =>
      if req.quantity ≤ 0 then
        .error (.ledgerService .invalidTradeRequest "Quantity must be strictly positive.")
      else .ok tradeType

/-- `quantity * price`, with no bound on exponents: there is no `Overflow` of a huge product. -/
def mulDecimal (py : Python) (quantity : ℚ) : Decimal → Decimal
  | .finite price => .finite (py.context.round (quantity * price))
  | .infinity => .infinity

/-- The price lookup and what is computed from it before the transaction opens. -/
def priceTrade (py : Python) (cache : PriceCache) (req : TradeRequest) (tradeType : TradeType) :
    Except Exn TradeOrder := do
  let price ← getLivePrice py cache req.ticker
  return {
    portfolioId := req.portfolioId
    ticker := py.upper req.ticker
    tradeType
    quantity := req.quantity
    idempotencyKey := req.idempotencyKey
    price
    totalValue := mulDecimal py req.quantity price }

theorem priceTrade_eq_ok {py : Python} {cache : PriceCache} {req : TradeRequest}
    {tradeType : TradeType} {order : TradeOrder}
    (h : priceTrade py cache req tradeType = .ok order) :
    ∃ price, getLivePrice py cache req.ticker = .ok price ∧
      order = { portfolioId := req.portfolioId, ticker := py.upper req.ticker, tradeType,
                quantity := req.quantity, idempotencyKey := req.idempotencyKey, price,
                totalValue := mulDecimal py req.quantity price } := by
  unfold priceTrade at h
  cases hp : getLivePrice py cache req.ticker with
  | error e =>
      rw [hp] at h
      cases h
  | ok price =>
      rw [hp] at h
      exact ⟨price, rfl, (Except.ok.inj h).symm⟩

/-- `Portfolio.objects.select_for_update().get(id=portfolio_id)` -/
def lockPortfolio (portfolioId : Uuid) : LedgerTx Portfolio := do
  match ← Tx.read (portfolio? · portfolioId) with
  | some portfolio => pure portfolio
  | none => Tx.raise (.ledgerService .portfolioNotFound
      ("Portfolio " ++ portfolioId.str ++ " does not exist."))

/-- A `varchar(10)` column rejects longer texts. -/
def checkTicker (ticker : String) : LedgerTx Unit :=
  Tx.ofExcept (if ticker.length ≤ 10 then .ok () else .error .dataError)

/-- `Position.objects.select_for_update().get_or_create(...)` -/
def getOrCreatePosition (portfolioId : Uuid) (ticker : String) : LedgerTx Position := do
  match ← Tx.read (positionsAt · portfolioId ticker) with
  | [] =>
      let position := { portfolio := portfolioId, ticker, quantity := Numeric.zero }
      checkTicker ticker
      Tx.write (.insertPosition position)
      pure position
  | [position] => pure position
  | _ => Tx.raise .multipleObjectsReturned

/-- The BUY branch up to `position.save()`: check the funds, debit the instance, find or create the
position and add to it. -/
def buy (py : Python) (order : TradeOrder) (row : Portfolio) :
    LedgerTx (PortfolioInstance × PositionInstance) :=
  let insufficientFunds := Tx.raise (.ledgerService .insufficientFunds
    "Insufficient funds to execute buy order.")
  match order.totalValue with
  | .infinity => insufficientFunds
  | .finite totalValue =>
      if row.cashBalance.value < totalValue then insufficientFunds
      else do
        let cashBalance := py.context.round (row.cashBalance.value - totalValue)
        let position ← getOrCreatePosition row.id order.ticker
        pure ({ row.load with cashBalance := .finite cashBalance },
          { position.load with
            quantity := py.context.round (position.quantity.value + order.quantity) })

/-- `cash_balance + total_value` -/
def addDecimal (py : Python) (cashBalance : ℚ) : Decimal → Decimal
  | .finite totalValue => .finite (py.context.round (cashBalance + totalValue))
  | .infinity => .infinity

/-- The SELL branch up to `position.save()`. -/
def sell (py : Python) (order : TradeOrder) (row : Portfolio) :
    LedgerTx (PortfolioInstance × PositionInstance) := do
  let insufficientPosition := Tx.raise (.ledgerService .insufficientPosition
    ("Insufficient quantity of " ++ order.ticker ++ " to sell."))
  match ← Tx.read fun db => (positionsAt db row.id order.ticker).head? with
  | none => insufficientPosition
  | some position =>
      if position.quantity.value < order.quantity then insufficientPosition
      else
        pure ({ row.load with
                cashBalance := addDecimal py row.cashBalance.value order.totalValue },
          { position.load with
            quantity := py.context.round (position.quantity.value - order.quantity) })

/-- The branch on the trade type. -/
def takePosition (py : Python) (order : TradeOrder) (row : Portfolio) :
    LedgerTx (PortfolioInstance × PositionInstance) :=
  match order.tradeType with
  | .buy => buy py order row
  | .sell => sell py order row

/-- `position.save()` -/
def savePosition (position : PositionInstance) : LedgerTx Unit := do
  let quantity ← Tx.ofExcept (Numeric.write position.quantity)
  Tx.write (.updatePosition
    { portfolio := position.portfolio, ticker := position.ticker, quantity })

/-- `portfolio.save()` -/
def savePortfolio (portfolio : PortfolioInstance) : LedgerTx Unit := do
  let cashBalance ← Tx.ofExcept (Numeric.writeDecimal portfolio.cashBalance)
  Tx.write (.updatePortfolio { id := portfolio.id, user := portfolio.user, cashBalance })

/-- `Trade.objects.create(...)`, under the unique constraint on `idempotency_key`. -/
def createTrade (order : TradeOrder) (fresh : Fresh) (portfolio : PortfolioInstance) :
    LedgerTx TradeInstance := do
  let quantity ← Tx.ofExcept (Numeric.write order.quantity)
  let price ← Tx.ofExcept (Numeric.writeDecimal order.price)
  let totalValue ← Tx.ofExcept (Numeric.writeDecimal order.totalValue)
  checkTicker order.ticker
  match ← Tx.read (tradeByKey? · order.idempotencyKey) with
  | some _ => Tx.raise .integrityError
  | none =>
      Tx.write (.insertTrade
        { id := fresh.id, idempotencyKey := order.idempotencyKey, portfolio := portfolio.id,
          ticker := order.ticker, tradeType := order.tradeType, quantity, price, totalValue,
          timestamp := fresh.now })
      pure
        { id := fresh.id, idempotencyKey := order.idempotencyKey, portfolio := portfolio.id,
          ticker := order.ticker, tradeType := order.tradeType, quantity := order.quantity,
          price := order.price, totalValue := order.totalValue, timestamp := fresh.now }

/-- The body of the `atomic()` block. -/
def tradeBody (py : Python) (order : TradeOrder) (fresh : Fresh) :
    LedgerTx (TradeInstance × PortfolioInstance) := do
  let row ← lockPortfolio order.portfolioId
  let (portfolio, position) ← takePosition py order row
  savePosition position
  savePortfolio portfolio
  let trade ← createTrade order fresh portfolio
  pure (trade, portfolio)

/-- `TradeExecutionService.execute_trade` -/
def executeTrade (py : Python) (cache : PriceCache) (fresh : Fresh) (req : TradeRequest) :
    LedgerTx TradeResult := do
  let tradeType ← Tx.ofExcept (checkTrade py req)
  match ← Tx.read (tradeByKey? · req.idempotencyKey) with
  | some existing => pure (.replay existing.load)
  | none =>
      let order ← Tx.ofExcept (priceTrade py cache req tradeType)
      let (trade, portfolio) ← Tx.atomic (tradeBody py order fresh)
      pure (.committed trade portfolio)

end DjasktTrading.Ledger
