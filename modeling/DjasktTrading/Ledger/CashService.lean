import DjasktTrading.Ledger.TradeService

/-!
# Cash service — `apply_transfer`

The same shape as a trade, without a price and without a position.
-/

open Reasoning

namespace DjasktTrading.Ledger

/-- The arguments of `apply_transfer`. -/
structure TransferRequest where
  portfolioId : Uuid
  direction : String
  amount : ℚ
  idempotencyKey : Uuid
deriving DecidableEq

abbrev CashTransferResult : Type := Result CashTransactionInstance

/-- The local variables of `apply_transfer` when it opens its transaction. -/
structure TransferOrder where
  portfolioId : Uuid
  direction : Direction
  amount : ℚ
  idempotencyKey : Uuid
deriving DecidableEq

/-- The checks on the arguments. -/
def checkTransfer (py : Python) (req : TransferRequest) : Except Exn TransferOrder :=
  match Direction.ofValue? req.direction with
  | none =>
      .error (.ledgerService .invalidTradeRequest
        ("Invalid transfer direction: " ++ py.repr req.direction))
  | some direction =>
      if req.amount ≤ 0 then
        .error (.ledgerService .invalidTradeRequest "Amount must be strictly positive.")
      else .ok {
        portfolioId := req.portfolioId
        direction
        amount := req.amount
        idempotencyKey := req.idempotencyKey }

/-- The branch on the direction: the instance's new balance. -/
def moveCash (py : Python) (order : TransferOrder) (row : Portfolio) :
    LedgerTx PortfolioInstance :=
  match order.direction with
  | .credit =>
      pure { row.load with
             cashBalance := .finite (py.context.round (row.cashBalance.value + order.amount)) }
  | .debit =>
      if row.cashBalance.value < order.amount then
        Tx.raise (.ledgerService .insufficientFunds "Insufficient funds to complete withdrawal.")
      else
        pure { row.load with
               cashBalance := .finite (py.context.round (row.cashBalance.value - order.amount)) }

/-- `CashTransaction.objects.create(...)`, under the unique constraint on `idempotency_key`. -/
def createCashTransaction (order : TransferOrder) (fresh : Fresh) (portfolio : PortfolioInstance) :
    LedgerTx CashTransactionInstance := do
  let amount ← Tx.ofExcept (Numeric.write order.amount)
  let resultingBalance ← Tx.ofExcept (Numeric.writeDecimal portfolio.cashBalance)
  match ← Tx.read (cashTransactionByKey? · order.idempotencyKey) with
  | some _ => Tx.raise .integrityError
  | none =>
      Tx.write (.insertCashTransaction
        { id := fresh.id, idempotencyKey := order.idempotencyKey, portfolio := portfolio.id,
          direction := order.direction, amount, resultingBalance, timestamp := fresh.now })
      pure
        { id := fresh.id, idempotencyKey := order.idempotencyKey, portfolio := portfolio.id,
          direction := order.direction, amount := order.amount,
          resultingBalance := portfolio.cashBalance, timestamp := fresh.now }

/-- The body of the `atomic()` block. -/
def transferBody (py : Python) (order : TransferOrder) (fresh : Fresh) :
    LedgerTx (CashTransactionInstance × PortfolioInstance) := do
  let row ← lockPortfolio order.portfolioId
  let portfolio ← moveCash py order row
  savePortfolio portfolio
  let cashTransaction ← createCashTransaction order fresh portfolio
  pure (cashTransaction, portfolio)

/-- `CashTransferService.apply_transfer` -/
def applyTransfer (py : Python) (fresh : Fresh) (req : TransferRequest) :
    LedgerTx CashTransferResult := do
  let order ← Tx.ofExcept (checkTransfer py req)
  match ← Tx.read (cashTransactionByKey? · req.idempotencyKey) with
  | some existing => pure (.replay existing.load)
  | none =>
      let (cashTransaction, portfolio) ← Tx.atomic (transferBody py order fresh)
      pure (.committed cashTransaction portfolio)

end DjasktTrading.Ledger
