import DjasktTrading.Ledger.MainService

/-!
# Router — the REST contract of the ledger

Payload validation, the caller's own portfolio, the orchestrator, and the mapping of results and
exceptions to responses, the global handlers included.  A payload that the schemas cannot even read
(no JSON, a missing field, a NaN) arrives here with the errors they report for it.
-/

open Reasoning

namespace DjasktTrading.Ledger

/-! ## 1. Schemas -/

structure FieldError where
  loc : String
  msg : String
deriving DecidableEq

/-- A request body after parsing. -/
inductive Body (α : Type) where
  | malformed (errors : List FieldError)
  | parsed (payload : α)
deriving DecidableEq

/-- `TradeRequestSchema` -/
structure TradePayload where
  ticker : String
  tradeType : String
  quantity : ℚ
  idempotencyKey : Uuid
deriving DecidableEq

/-- `CashTransferRequestSchema` -/
structure TransferPayload where
  direction : String
  amount : ℚ
  idempotencyKey : Uuid
deriving DecidableEq

/-- `normalize_ticker` -/
def normalizeTicker (py : Python) (value : String) : Except FieldError String :=
  let value := py.upper (py.strip value)
  if value.length = 0 ∨ value.length > 10 then
    .error ⟨"ticker", "Value error, ticker must be 1-10 characters"⟩
  else .ok value

/-- `quantity_must_be_positive` and `amount_must_be_positive` -/
def mustBePositive (field message : String) (value : ℚ) : Except FieldError ℚ :=
  if value ≤ 0 then .error ⟨field, message⟩ else .ok value

/-- A field restricted to two literals. -/
def literal (field first second value : String) : Except FieldError String :=
  if value = first ∨ value = second then .ok value
  else .error ⟨field, "Input should be '" ++ first ++ "' or '" ++ second ++ "'"⟩

def errorsOf {α : Type} : Except FieldError α → List FieldError
  | .error e => [e]
  | .ok _ => []

def TradePayload.validate (py : Python) (payload : TradePayload) :
    Except (List FieldError) TradePayload :=
  let ticker := normalizeTicker py payload.ticker
  let tradeType := literal "trade_type" "BUY" "SELL" payload.tradeType
  let quantity := mustBePositive "quantity" "Value error, quantity must be strictly positive"
    payload.quantity
  match ticker, tradeType, quantity with
  | .ok ticker, .ok tradeType, .ok quantity => .ok { payload with ticker, tradeType, quantity }
  | _, _, _ => .error (errorsOf ticker ++ errorsOf tradeType ++ errorsOf quantity)

def TransferPayload.validate (payload : TransferPayload) :
    Except (List FieldError) TransferPayload :=
  let direction := literal "direction" "CREDIT" "DEBIT" payload.direction
  let amount := mustBePositive "amount" "Value error, amount must be strictly positive"
    payload.amount
  match direction, amount with
  | .ok direction, .ok amount => .ok { payload with direction, amount }
  | _, _ => .error (errorsOf direction ++ errorsOf amount)

/-- `TradeResponseSchema` -/
structure TradeResponse where
  tradeId : Uuid
  portfolioId : Uuid
  ticker : String
  tradeType : String
  quantity : ℚ
  price : Decimal
  totalValue : Decimal
  idempotencyKey : Uuid
  isReplay : Bool
deriving DecidableEq

/-- `CashTransferResponseSchema` -/
structure CashTransferResponse where
  transactionId : Uuid
  portfolioId : Uuid
  direction : String
  amount : ℚ
  resultingBalance : Decimal
  idempotencyKey : Uuid
  isReplay : Bool
deriving DecidableEq

/-- `PortfolioResponseSchema` -/
structure PortfolioResponse where
  portfolioId : Uuid
  cashBalance : ℚ
  positions : List PositionItem
deriving DecidableEq

/-- `TradeHistoryItemSchema` -/
structure TradeHistoryItem where
  tradeId : Uuid
  ticker : String
  tradeType : String
  quantity : ℚ
  price : ℚ
  totalValue : ℚ
  timestamp : Timestamp
deriving DecidableEq

inductive ResponseBody where
  | error (detail : String)
  | invalid (detail : List FieldError)
  | trade (trade : TradeResponse)
  | cashTransfer (cashTransfer : CashTransferResponse)
  | portfolio (portfolio : PortfolioResponse)
  | trades (items : List TradeHistoryItem) (count : ℕ)
deriving DecidableEq

structure Response where
  status : ℕ
  body : ResponseBody
deriving DecidableEq

/-! ## 2. Results and exceptions as responses -/

def Entry.body (isReplay : Bool) : Entry → ResponseBody
  | .trade t => .trade {
      tradeId := t.id
      portfolioId := t.portfolio
      ticker := t.ticker
      tradeType := t.tradeType.value
      quantity := t.quantity
      price := t.price
      totalValue := t.totalValue
      idempotencyKey := t.idempotencyKey
      isReplay }
  | .cashTransaction c => .cashTransfer {
      transactionId := c.id
      portfolioId := c.portfolio
      direction := c.direction.value
      amount := c.amount
      resultingBalance := c.resultingBalance
      idempotencyKey := c.idempotencyKey
      isReplay }

/-- The `except` clauses of the two actions, and the handlers behind them: what they do not name
ends in `handle_unexpected_error`. -/
def errorResponse : Exn → Response
  | .ledgerService .portfolioNotFound detail => ⟨404, .error detail⟩
  | .ledgerService _ detail => ⟨409, .error detail⟩
  | _ => ⟨500, .error "An unexpected error occurred."⟩

/-- The end of the two actions. -/
def respond : Except Exn (Result Entry) → Response
  | .ok (.replay entry) => ⟨200, entry.body true⟩
  | .ok (.committed entry _) => ⟨201, entry.body false⟩
  | .error e => errorResponse e

def noPortfolio : Response := ⟨404, .error "No portfolio found for this account."⟩

/-- `handle_validation_error` -/
def invalid (errors : List FieldError) : Response := ⟨422, .invalid errors⟩

/-! ## 3. Actions -/

/-- What a request brings along besides its payload. -/
structure Context where
  user : UserId
  cache : PriceCache
  fresh : Fresh
  channel : ChannelLayer

/-- Resolve the caller's portfolio and submit the request it makes of it. -/
def submitFor (py : Python) (ctx : Context) (request : Uuid → Request) (db : Ledger) :
    Response × Ledger :=
  match portfolioOf? db ctx.user with
  | none => (noPortfolio, db)
  | some portfolio =>
      let (result, db') := (submit py ctx.channel
        { request := request portfolio.id, cache := ctx.cache, fresh := ctx.fresh }).run db
      (respond (result.map Prod.fst), db')

/-- `LedgerController.submit_trade` -/
def submitTradeAction (py : Python) (ctx : Context) (body : Body TradePayload) (db : Ledger) :
    Response × Ledger :=
  match body with
  | .malformed errors => (invalid errors, db)
  | .parsed payload =>
      match payload.validate py with
      | .error errors => (invalid errors, db)
      | .ok payload => submitFor py ctx (fun portfolioId => .trade {
          portfolioId
          ticker := payload.ticker
          tradeType := payload.tradeType
          quantity := payload.quantity
          idempotencyKey := payload.idempotencyKey }) db

/-- `LedgerController.transfer_cash` -/
def transferCashAction (py : Python) (ctx : Context) (body : Body TransferPayload) (db : Ledger) :
    Response × Ledger :=
  match body with
  | .malformed errors => (invalid errors, db)
  | .parsed payload =>
      match payload.validate with
      | .error errors => (invalid errors, db)
      | .ok payload => submitFor py ctx (fun portfolioId => .transfer {
          portfolioId
          direction := payload.direction
          amount := payload.amount
          idempotencyKey := payload.idempotencyKey }) db

/-- `LedgerController.get_portfolio` -/
def getPortfolioAction (user : UserId) (db : Ledger) : Response :=
  match portfolioOf? db user with
  | none => noPortfolio
  | some portfolio => ⟨200, .portfolio {
      portfolioId := portfolio.id
      cashBalance := portfolio.cashBalance.value
      positions := (positionsOf db portfolio.id).map fun p =>
        { ticker := p.ticker, quantity := p.quantity.value } }⟩

/-- The page parameters of `LimitOffsetPagination`. -/
structure Page where
  limit : ℕ
  offset : ℕ
deriving DecidableEq

def Trade.historyItem (trade : Trade) : TradeHistoryItem where
  tradeId := trade.id
  ticker := trade.ticker
  tradeType := trade.tradeType.value
  quantity := trade.quantity.value
  price := trade.price.value
  totalValue := trade.totalValue.value
  timestamp := trade.timestamp

/-- `order_by("-timestamp")` -/
def newestFirst (trades : List Trade) : List Trade :=
  trades.mergeSort fun t u => decide (u.timestamp ≤ t.timestamp)

/-- A query, which is made when it is evaluated. -/
abbrev QuerySet : Type := Ledger → List Trade

/-- `LedgerController.list_trades` -/
def listTrades (user : UserId) (db : Ledger) : QuerySet :=
  match portfolioOf? db user with
  | none => fun _ => []
  | some portfolio => fun db => newestFirst (tradesOf db portfolio.id)

/-- What a paginator takes from a query: the entries of a page, and a number to report.  Each is an
evaluation of its own. -/
structure Paginator where
  items : Page → List Trade → List Trade
  count : Page → List Trade → ℕ

/-- The entries from the offset on, as many as the limit says, and the number of all. -/
def Paginator.limitOffset : Paginator where
  items page trades := (trades.drop page.offset).take page.limit
  count _ trades := trades.length

/-- The answer of `@paginate`. -/
def Paginator.answer (paginator : Paginator) (page : Page) (query : QuerySet)
    (itemsDb countDb : Ledger) : Response :=
  ⟨200, .trades ((paginator.items page (query itemsDb)).map Trade.historyItem)
    (paginator.count page (query countDb))⟩

/-! ## 4. The mutating actions as one -/

/-- A request to `submit_trade` or `transfer_cash`. -/
inductive Mutation where
  | submitTrade (body : Body TradePayload)
  | transferCash (body : Body TransferPayload)
deriving DecidableEq

namespace Mutation

def handle (py : Python) (ctx : Context) : Mutation → Ledger → Response × Ledger
  | .submitTrade body => submitTradeAction py ctx body
  | .transferCash body => transferCashAction py ctx body

/-- What an accepted payload asks of the caller's portfolio. -/
def request (py : Python) : Mutation → Except (List FieldError) (Uuid → Request)
  | .submitTrade (.malformed errors) => .error errors
  | .submitTrade (.parsed payload) => (payload.validate py).map fun payload portfolioId => .trade {
      portfolioId
      ticker := payload.ticker
      tradeType := payload.tradeType
      quantity := payload.quantity
      idempotencyKey := payload.idempotencyKey }
  | .transferCash (.malformed errors) => .error errors
  | .transferCash (.parsed payload) => payload.validate.map fun payload portfolioId => .transfer {
      portfolioId
      direction := payload.direction
      amount := payload.amount
      idempotencyKey := payload.idempotencyKey }

/-- The submission that the request comes to, if its payload is accepted and its caller has a
portfolio. -/
def call? (py : Python) (ctx : Context) (db : Ledger) (m : Mutation) : Option Call :=
  match m.request py, portfolioOf? db ctx.user with
  | .ok request, some portfolio =>
      some { request := request portfolio.id, cache := ctx.cache, fresh := ctx.fresh }
  | _, _ => none

/-- The answer to a request that comes to no submission. -/
def refusal (py : Python) (m : Mutation) : Response :=
  match m.request py with
  | .error errors => invalid errors
  | .ok _ => noPortfolio

section

variable {py : Python} {ctx : Context} {db : Ledger}

/-- A request is a trade or a transfer of the portfolio it is given. -/
theorem request_eq_ok {m : Mutation} {request : Uuid → Request} (h : m.request py = .ok request) :
    (∃ (body : _) (req : TradeRequest), m = .submitTrade body ∧
        ∀ id, request id = .trade { req with portfolioId := id }) ∨
      (∃ (body : _) (req : TransferRequest), m = .transferCash body ∧
        ∀ id, request id = .transfer { req with portfolioId := id }) := by
  rcases m with (errors | payload) | (errors | payload)
  · cases h
  · unfold Mutation.request at h
    cases hpayload : payload.validate py with
    | error errors => simp [hpayload, Except.map] at h
    | ok accepted =>
        simp only [hpayload, Except.map, Except.ok.injEq] at h
        refine .inl ⟨_, ⟨0, accepted.ticker, accepted.tradeType, accepted.quantity,
          accepted.idempotencyKey⟩, rfl, fun id => ?_⟩
        rw [← h]
  · cases h
  · unfold Mutation.request at h
    cases hpayload : payload.validate with
    | error errors => simp [hpayload, Except.map] at h
    | ok accepted =>
        simp only [hpayload, Except.map, Except.ok.injEq] at h
        refine .inr ⟨_, ⟨0, accepted.direction, accepted.amount, accepted.idempotencyKey⟩, rfl,
          fun id => ?_⟩
        rw [← h]

/-- A call is made where the body is valid and the caller has a portfolio. -/
theorem call?_eq_some {m : Mutation} {call : Call} (h : m.call? py ctx db = some call) :
    ∃ request portfolio, m.request py = .ok request ∧ portfolioOf? db ctx.user = some portfolio ∧
      call = { request := request portfolio.id, cache := ctx.cache, fresh := ctx.fresh } := by
  unfold call? at h
  rcases hrequest : m.request py with errors | request
  · simp [hrequest] at h
  rcases hportfolio : portfolioOf? db ctx.user with _ | portfolio
  · simp [hrequest, hportfolio] at h
  rw [hrequest, hportfolio] at h
  exact ⟨request, portfolio, rfl, rfl, (Option.some.inj h).symm⟩

/-- The call is about the caller's own portfolio. -/
theorem portfolioOf?_of_call? {m : Mutation} {call : Call} (h : m.call? py ctx db = some call) :
    ∃ portfolio, portfolioOf? db ctx.user = some portfolio ∧
      call.request.portfolioId = portfolio.id := by
  obtain ⟨request, portfolio, hrequest, hportfolio, rfl⟩ := call?_eq_some h
  refine ⟨portfolio, hportfolio, ?_⟩
  rcases request_eq_ok hrequest with ⟨_, req, -, hreq⟩ | ⟨_, req, -, hreq⟩ <;>
    simp only [hreq, Request.portfolioId]

theorem handle_eq (m : Mutation) :
    m.handle py ctx db =
      match m.request py with
      | .error errors => (invalid errors, db)
      | .ok request => submitFor py ctx request db := by
  rcases m with body | body
  · cases body with
    | malformed errors => rfl
    | parsed payload =>
        simp only [handle, submitTradeAction, request]
        rcases payload.validate py with errors | payload <;> rfl
  · cases body with
    | malformed errors => rfl
    | parsed payload =>
        simp only [handle, transferCashAction, request]
        rcases payload.validate with errors | payload <;> rfl

/-- A request that comes to no submission is refused, and changes nothing. -/
theorem handle_of_call?_eq_none {m : Mutation} (h : m.call? py ctx db = none) :
    m.handle py ctx db = (m.refusal py, db) := by
  rw [handle_eq]
  unfold call? at h
  unfold refusal
  cases hrequest : m.request py with
  | error errors => rfl
  | ok request =>
      cases hportfolio : portfolioOf? db ctx.user with
      | none => simp only [submitFor, hportfolio]
      | some portfolio => simp [hrequest, hportfolio] at h

theorem handle_of_call?_eq_some {m : Mutation} {call : Call} (h : m.call? py ctx db = some call) :
    m.handle py ctx db =
      (respond (((submit py ctx.channel call).run db).1.map Prod.fst),
        ((submit py ctx.channel call).run db).2) := by
  obtain ⟨request, portfolio, hrequest, hportfolio, rfl⟩ := call?_eq_some h
  rw [handle_eq, hrequest]
  simp only [submitFor, hportfolio]

/-- Without a commit there is nothing to broadcast, and the result is answered as it is. -/
theorem handle_of_not_committed {m : Mutation} {call : Call} (hcall : m.call? py ctx db = some call)
    (h : ∀ entry portfolio, ((call.service py).run db).1 ≠ .ok (.committed entry portfolio)) :
    m.handle py ctx db = (respond ((call.service py).run db).1, ((call.service py).run db).2) := by
  rw [handle_of_call?_eq_some hcall]
  obtain ⟨hafter, ⟨⟨entry, portfolio, hcommitted⟩, -⟩ | ⟨-, hresult⟩⟩ :=
    submit_cases py ctx.channel call db
  · exact absurd hcommitted (h entry portfolio)
  · rw [hafter, hresult]

end

end Mutation

/-- A request to any of the four actions. -/
inductive ApiRequest where
  | mutation (m : Mutation)
  | getPortfolio
  | listTrades (page : Page)
deriving DecidableEq

def ApiRequest.handle (py : Python) (paginator : Paginator) (ctx : Context) (request : ApiRequest)
    (db : Ledger) : Response × Ledger :=
  match request with
  | .mutation m => m.handle py ctx db
  | .getPortfolio => (getPortfolioAction ctx.user db, db)
  | .listTrades page => (paginator.answer page (Ledger.listTrades ctx.user db) db db, db)

/-! ## 5. What the status says -/

theorem errorResponse_status_ge (e : Exn) : 400 ≤ (errorResponse e).status := by
  unfold errorResponse
  split
  · exact Nat.le_add_right 400 4
  · exact Nat.le_add_right 400 9
  · exact Nat.le_add_right 400 100

theorem respond_status_eq_200_iff {r : Except Exn (Result Entry)} :
    (respond r).status = 200 ↔ ∃ entry, r = .ok (.replay entry) := by
  rcases r with e | entry | entry
  · have hstatus := errorResponse_status_ge e
    simp only [respond, reduceCtorEq, exists_false, iff_false]
    omega
  · simp [respond]
  · simp [respond]

end DjasktTrading.Ledger
