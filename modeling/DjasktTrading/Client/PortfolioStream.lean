import DjasktTrading.Ledger.Views
import DjasktTrading.Realtime.Messages

/-!
# Portfolio stream — the client's cache of a portfolio

`usePortfolioStream` overwrites the cached portfolio with every broadcast and leaves it alone on the
trade history.
-/

namespace DjasktTrading.Client

open Ledger Realtime

/-- `socket.onmessage`: the cached portfolio after a message. -/
def onMessage (cache : Option View) : SocketMessage → Option View
  | .portfolioUpdate payload => some payload.view
  | .tradeHistory _ => cache

/-- After any messages the cache is the last broadcast, or what it was if there was none. -/
theorem foldl_onMessage (cache : Option View) (messages : List SocketMessage) :
    messages.foldl onMessage cache =
      (((messages.filterMap SocketMessage.payload?).getLast?).map Payload.view).or cache := by
  induction messages generalizing cache with
  | nil => rfl
  | cons message messages ih =>
      rw [List.foldl_cons, ih]
      cases message with
      | tradeHistory trades => rfl
      | portfolioUpdate payload =>
          have hpayloads : (SocketMessage.portfolioUpdate payload :: messages).filterMap
              SocketMessage.payload? = payload :: messages.filterMap SocketMessage.payload? := rfl
          rw [hpayloads, List.getLast?_cons]
          cases (messages.filterMap SocketMessage.payload?).getLast? <;> rfl

end DjasktTrading.Client
