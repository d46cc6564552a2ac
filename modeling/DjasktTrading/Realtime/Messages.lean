import DjasktTrading.Ledger.Router

/-!
# Messages — what a portfolio socket receives

The snapshot of the newest trades, sent once, and the broadcasts after it.
-/

namespace DjasktTrading.Realtime

open Ledger

/-- `TRADE_HISTORY_LIMIT` -/
def tradeHistoryLimit : ℕ := 50

inductive SocketMessage where
  | tradeHistory (trades : List LatestTrade)
  /-- a broadcast; it has no `type` -/
  | portfolioUpdate (payload : Payload)
deriving DecidableEq

def SocketMessage.payload? : SocketMessage → Option Payload
  | .tradeHistory _ => none
  | .portfolioUpdate payload => some payload

/-- `_get_recent_trades` -/
def getRecentTrades (db : Ledger) (portfolioId : Uuid) : List LatestTrade :=
  ((newestFirst (tradesOf db portfolioId)).take tradeHistoryLimit).map fun t => t.load.latest

end DjasktTrading.Realtime
