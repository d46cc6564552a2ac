import DjasktTrading.Ledger.Jobs

/-!
# Main service — the orchestrator and its post-commit broadcast

`LedgerOrchestratorService`: execute, then, for a fresh commit only, tell the portfolio's group.
What happens after the commit depends on services that can be absent or raise; their behaviour is an
argument here.  The texts of decimals and timestamps in a payload stand as the values they print.
-/

open Reasoning

namespace DjasktTrading.Ledger

/-- `portfolio_group_name` -/
def portfolioGroupName (portfolioId : String) : String := "portfolio_" ++ portfolioId

structure PositionItem where
  ticker : String
  quantity : ℚ
deriving DecidableEq

structure LatestTrade where
  tradeId : String
  ticker : String
  tradeType : String
  quantity : ℚ
  price : Decimal
  totalValue : Decimal
  timestamp : Timestamp
deriving DecidableEq

structure LatestCashTransaction where
  transactionId : String
  direction : String
  amount : ℚ
  resultingBalance : Decimal
  timestamp : Timestamp
deriving DecidableEq

structure Payload where
  portfolioId : String
  cashBalance : Decimal
  positions : List PositionItem
  latestTrade : Option LatestTrade
  latestCashTransaction : Option LatestCashTransaction
deriving DecidableEq

/-- A message sent to a group. -/
structure Broadcast where
  group : String
  payload : Payload
deriving DecidableEq

def TradeInstance.latest (trade : TradeInstance) : LatestTrade where
  tradeId := trade.id.str
  ticker := trade.ticker
  tradeType := trade.tradeType.value
  quantity := trade.quantity
  price := trade.price
  totalValue := trade.totalValue
  timestamp := trade.timestamp

def CashTransactionInstance.latest (c : CashTransactionInstance) : LatestCashTransaction where
  transactionId := c.id.str
  direction := c.direction.value
  amount := c.amount
  resultingBalance := c.resultingBalance
  timestamp := c.timestamp

/-- The message for a portfolio instance, the positions just re-read and the entry that triggered
it. -/
def portfolioUpdate (portfolio : PortfolioInstance) (positions : List Position) (entry : Entry) :
    Broadcast where
  group := portfolioGroupName portfolio.id.str
  payload := {
    portfolioId := portfolio.id.str
    cashBalance := portfolio.cashBalance
    positions := positions.map fun p => { ticker := p.ticker, quantity := p.quantity.value }
    latestTrade := match entry with
      | .trade trade => some trade.latest
      | .cashTransaction _ => none
    latestCashTransaction := match entry with
      | .trade _ => none
      | .cashTransaction c => some c.latest }

/-- What `get_channel_layer()`, the position re-read and `group_send` do after a commit; a raised
exception stands as itself. -/
inductive ChannelLayer where
  | absent
  | present (reread groupSend : Except Exn Unit)
deriving DecidableEq

/-- `_broadcast_portfolio_update`: the messages it sent, unless it raises. -/
def broadcastPortfolioUpdate (channel : ChannelLayer) (portfolio : PortfolioInstance)
    (entry : Entry) : LedgerTx (List Broadcast) :=
  match channel with
  | .absent => pure []
  | .present reread groupSend => do
      Tx.ofExcept reread
      let positions ← Tx.read (positionsOf · portfolio.id)
      Tx.ofExcept groupSend
      pure [portfolioUpdate portfolio positions entry]

/-- The common shape of `submit_trade` and `submit_cash_transfer`: the result with the messages that
were sent. -/
def submit (py : Python) (channel : ChannelLayer) (call : Call) :
    LedgerTx (Result Entry × List Broadcast) := do
  let result ← call.service py
  match result with
  | .replay _ => pure (result, [])
  | .committed entry portfolio =>
      let sent ← broadcastPortfolioUpdate channel portfolio entry
      pure (result, sent)

/-- `LedgerOrchestratorService.submit_trade` -/
def submitTrade (py : Python) (channel : ChannelLayer) (cache : PriceCache) (fresh : Fresh)
    (req : TradeRequest) : LedgerTx (Result Entry × List Broadcast) :=
  submit py channel { request := .trade req, cache, fresh }

/-- `LedgerOrchestratorService.submit_cash_transfer` -/
def submitCashTransfer (py : Python) (channel : ChannelLayer) (cache : PriceCache) (fresh : Fresh)
    (req : TransferRequest) : LedgerTx (Result Entry × List Broadcast) :=
  submit py channel { request := .transfer req, cache, fresh }

/-! ## 1. What a submission leaves -/

/-- The broadcast raises: a layer is there, and the re-read or the send fails. -/
def ChannelLayer.Raises : ChannelLayer → Prop
  | .absent => False
  | .present reread groupSend => reread ≠ .ok () ∨ groupSend ≠ .ok ()

instance (channel : ChannelLayer) : Decidable channel.Raises := by
  cases channel
  · exact instDecidableFalse
  · exact instDecidableOr

/-- The messages a broadcast that does not raise has sent. -/
def ChannelLayer.sends (channel : ChannelLayer) (portfolio : PortfolioInstance) (entry : Entry)
    (db : Ledger) : List Broadcast :=
  match channel with
  | .absent => []
  | .present _ _ => [portfolioUpdate portfolio (positionsOf db portfolio.id) entry]

/-- The broadcast writes nothing, and raises exactly when a service behind it does. -/
theorem broadcastPortfolioUpdate_cases (channel : ChannelLayer) (portfolio : PortfolioInstance)
    (entry : Entry) (db : Ledger) :
    (channel.Raises ∧ ∃ e, broadcastPortfolioUpdate channel portfolio entry db = (.error e, [])) ∨
      (¬ channel.Raises ∧ broadcastPortfolioUpdate channel portfolio entry db =
        (.ok (channel.sends portfolio entry db), [])) := by
  cases channel with
  | absent => exact .inr ⟨not_false, rfl⟩
  | present reread groupSend =>
      cases reread with
      | error e => exact .inl ⟨.inl nofun, e, rfl⟩
      | ok _ =>
          cases groupSend with
          | error e => exact .inl ⟨.inr nofun, e, rfl⟩
          | ok _ => exact .inr ⟨not_or.mpr ⟨not_not.mpr rfl, not_not.mpr rfl⟩, rfl⟩

/-- The broadcast changes no row; where the call has committed and the broadcast raises, its error
takes the place of the result. -/
theorem submit_cases (py : Python) (channel : ChannelLayer) (call : Call) (db : Ledger) :
    ((submit py channel call).run db).2 = ((call.service py).run db).2 ∧
      (((∃ entry portfolio, ((call.service py).run db).1 = .ok (.committed entry portfolio)) ∧
          channel.Raises ∧ ∃ e, ((submit py channel call).run db).1 = .error e) ∨
        (((∃ entry portfolio, ((call.service py).run db).1 = .ok (.committed entry portfolio)) →
          ¬ channel.Raises) ∧
          ((submit py channel call).run db).1.map Prod.fst = ((call.service py).run db).1)) := by
  unfold Tx.run
  rcases hservice : call.service py db with ⟨r, ws⟩
  cases r with
  | error e =>
      have hsubmit : submit py channel call db = (.error e, ws) := Tx.bind_apply_of_error hservice
      rw [hsubmit]
      exact ⟨rfl, .inr ⟨fun ⟨_, _, h⟩ => (by cases h), rfl⟩⟩
  | ok result =>
      cases result with
      | replay entry =>
          have hsubmit : submit py channel call db = (.ok (.replay entry, []), ws ++ []) :=
            Tx.bind_eq hservice (Tx.pure_apply _ _)
          rw [hsubmit, List.append_nil]
          exact ⟨rfl, .inr ⟨fun ⟨_, _, h⟩ => (by cases h), rfl⟩⟩
      | committed entry portfolio =>
          -- the broadcast reads what the commit left
          rcases broadcastPortfolioUpdate_cases channel portfolio entry (applyAll db ws) with
            ⟨hraises, e, htold⟩ | ⟨hquiet, htold⟩
          · have hsubmit : submit py channel call db = (.error e, ws ++ []) :=
              Tx.bind_eq hservice (Tx.bind_apply_of_error htold)
            rw [hsubmit, List.append_nil]
            exact ⟨rfl, .inl ⟨⟨entry, portfolio, rfl⟩, hraises, e, rfl⟩⟩
          · have hsubmit : submit py channel call db =
                (.ok (.committed entry portfolio,
                  channel.sends portfolio entry (applyAll db ws)), ws ++ []) := by
              refine Tx.bind_eq hservice ?_
              dsimp only
              exact Tx.bind_eq htold (Tx.pure_apply _ _)
            rw [hsubmit, List.append_nil]
            exact ⟨rfl, .inr ⟨fun _ => hquiet, rfl⟩⟩

end DjasktTrading.Ledger
