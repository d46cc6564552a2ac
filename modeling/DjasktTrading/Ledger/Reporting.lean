import DjasktTrading.Ledger.Router

/-!
# Reporting — what an answer says about the commit

A request can commit and fail afterwards, in the broadcast.  This file says when the answer to a
mutating request tells what became of its transaction.
-/

open Reasoning

namespace DjasktTrading.Ledger

/-! ## 1. The row behind an answer -/

/-- The row is what the columns make of the instance. -/
structure Trade.Saves (row : Trade) (trade : TradeInstance) : Prop where
  id : row.id = trade.id
  idempotencyKey : row.idempotencyKey = trade.idempotencyKey
  portfolio : row.portfolio = trade.portfolio
  ticker : row.ticker = trade.ticker
  tradeType : row.tradeType = trade.tradeType
  quantity : Numeric.write trade.quantity = .ok row.quantity
  price : Numeric.writeDecimal trade.price = .ok row.price
  totalValue : Numeric.writeDecimal trade.totalValue = .ok row.totalValue
  timestamp : row.timestamp = trade.timestamp

/-- The row is what the columns make of the instance. -/
structure CashTransaction.Saves (row : CashTransaction)
    (cashTransaction : CashTransactionInstance) : Prop where
  id : row.id = cashTransaction.id
  idempotencyKey : row.idempotencyKey = cashTransaction.idempotencyKey
  portfolio : row.portfolio = cashTransaction.portfolio
  direction : row.direction = cashTransaction.direction
  amount : Numeric.write cashTransaction.amount = .ok row.amount
  resultingBalance : Numeric.writeDecimal cashTransaction.resultingBalance = .ok row.resultingBalance
  timestamp : row.timestamp = cashTransaction.timestamp

/-- `db'` has the entries of `db` and one more, the row of `entry`. -/
inductive Adds (db db' : Ledger) : Entry → Prop where
  | trade {trade : TradeInstance} (row : Trade) (saves : row.Saves trade)
      (trades : db'.trades = db.trades ++ [row])
      (cashTransactions : db'.cashTransactions = db.cashTransactions) : Adds db db' (.trade trade)
  | cashTransaction {cashTransaction : CashTransactionInstance} (row : CashTransaction)
      (saves : row.Saves cashTransaction) (trades : db'.trades = db.trades)
      (cashTransactions : db'.cashTransactions = db.cashTransactions ++ [row]) :
      Adds db db' (.cashTransaction cashTransaction)

theorem Job.Commit.adds {py : Python} {db : Ledger} {job : Job} (c : job.Commit py db) :
    Adds db c.after c.entry := by
  cases c with
  | trade fresh c =>
      refine .trade (c.stored fresh) ?_ (c.trades_after fresh) (c.cashTransactions_after fresh)
      exact {
        id := rfl
        idempotencyKey := rfl
        portfolio := rfl
        ticker := rfl
        tradeType := rfl
        quantity := c.quantity_written
        price := Numeric.writeDecimal_eq_ok_iff.mpr ⟨_, c.price_eq, c.price_written⟩
        totalValue := Numeric.writeDecimal_eq_ok_iff.mpr ⟨_, c.totalValue_eq, c.total_written⟩
        timestamp := rfl }
  | transfer fresh c =>
      refine .cashTransaction (c.stored fresh) ?_ (c.trades_after fresh)
        (c.cashTransactions_after fresh)
      exact {
        id := rfl
        idempotencyKey := rfl
        portfolio := rfl
        direction := rfl
        amount := c.amount_written
        resultingBalance := c.cash_written
        timestamp := rfl }

/-! ## 2. Requests that commit -/

namespace Mutation

variable {py : Python} {ctx : Context} {db : Ledger} {m : Mutation}

/-- The transaction of the request commits. -/
def Commits (py : Python) (ctx : Context) (db : Ledger) (m : Mutation) : Prop :=
  ∃ call entry portfolio, m.call? py ctx db = some call ∧
    ((call.service py).run db).1 = .ok (.committed entry portfolio)

/-- The request has a valid payload, its caller a portfolio, its key is new, the price is there, and
the portfolio and its columns can take the entry. -/
def Accepted (py : Python) (ctx : Context) (db : Ledger) (m : Mutation) : Prop :=
  ∃ call job, m.call? py ctx db = some call ∧ call.job py = .ok job ∧ Nonempty (job.Commit py db)

theorem commits_iff_accepted : m.Commits py ctx db ↔ m.Accepted py ctx db := by
  constructor
  · -- the only way to a committed result is through the body of the job
    rintro ⟨call, entry, portfolio, hcall, hservice⟩
    have hends := call.service_ends py db
    rw [hservice] at hends
    generalize ((call.service py).run db).2 = db' at hends
    cases hends with
    | committed job _ _ ws _ hjob hbody =>
        obtain ⟨c, -⟩ := Job.body_eq_ok hbody
        exact ⟨call, job, hcall, hjob, ⟨c⟩⟩
  · rintro ⟨call, job, hcall, hjob, ⟨c⟩⟩
    exact ⟨call, c.entry, c.portfolio, hcall, by rw [c.service_eq hjob]⟩

/-- The request with another idempotency key in its payload. -/
def withKey (key : Uuid) : Mutation → Mutation
  | .submitTrade (.parsed payload) =>
      .submitTrade (.parsed { payload with idempotencyKey := key })
  | .transferCash (.parsed payload) =>
      .transferCash (.parsed { payload with idempotencyKey := key })
  | m => m

/-- Where the server keeps an idempotency key of the request. -/
def key (key : Uuid) : Mutation → Key
  | .submitTrade _ => .trade key
  | .transferCash _ => .cashTransaction key

/-- Validation does not look at the key. -/
theorem request_withKey (py : Python) (key : Uuid) (m : Mutation) :
    (m.withKey key).request py =
      (m.request py).map fun request portfolioId => (request portfolioId).withKey key := by
  rcases m with (errors | payload) | (errors | payload)
  · rfl
  · simp only [withKey, request, TradePayload.validate]
    rcases normalizeTicker py payload.ticker with e | ticker
    · rfl
    rcases literal "trade_type" "BUY" "SELL" payload.tradeType with e | tradeType
    · rfl
    rcases mustBePositive "quantity" "Value error, quantity must be strictly positive"
      payload.quantity with e | quantity <;> rfl
  · rfl
  · simp only [withKey, request, TransferPayload.validate]
    rcases literal "direction" "CREDIT" "DEBIT" payload.direction with e | direction
    · rfl
    rcases mustBePositive "amount" "Value error, amount must be strictly positive"
      payload.amount with e | amount <;> rfl

theorem call?_withKey (key : Uuid) (m : Mutation) :
    (m.withKey key).call? py ctx db = (m.call? py ctx db).map (Call.withKey key) := by
  unfold call?
  rw [request_withKey]
  cases m.request py with
  | error errors => rfl
  | ok request =>
      rcases portfolioOf? db ctx.user with _ | portfolio <;> rfl

theorem key_of_call? {call : Call} (h : m.call? py ctx db = some call) (key : Uuid) :
    (call.withKey key).request.key = m.key key := by
  obtain ⟨request, portfolio, hrequest, -, rfl⟩ := call?_eq_some h
  rcases request_eq_ok hrequest with ⟨body, req, rfl, hreq⟩ | ⟨body, req, rfl, hreq⟩ <;>
    simp only [Call.withKey, hreq, Request.withKey, Request.key, Mutation.key]

/-- What is accepted under one key is accepted under every free one. -/
theorem Accepted.withKey (h : m.Accepted py ctx db) {key : Uuid} (hfree : m.key key ∉ keys db) :
    (m.withKey key).Accepted py ctx db := by
  obtain ⟨call, job, hcall, hjob, ⟨c⟩⟩ := h
  have hjob' : (call.withKey key).job py = .ok (job.withKey key) := by
    rw [Call.job_withKey, hjob]
    rfl
  refine ⟨call.withKey key, job.withKey key, ?_, hjob', c.withKey ?_⟩
  · rw [call?_withKey, hcall]
    rfl
  · rw [(Call.job_eq_ok hjob').2.2, key_of_call? hcall]
    exact hfree

end Mutation

/-! ## 3. When an answer reports the commit -/

/-- The answer tells what became of the transaction: 201 with the new row if it committed, and an
error only if nothing has changed. -/
structure ReportsCommit (py : Python) (ctx : Context) (db : Ledger) (m : Mutation) : Prop where
  committed : m.Commits py ctx db →
    ∃ entry, (m.handle py ctx db).1 = ⟨201, entry.body false⟩ ∧ Adds db (m.handle py ctx db).2 entry
  failed : 400 ≤ (m.handle py ctx db).1.status → (m.handle py ctx db).2 = db

section

variable {py : Python} {ctx : Context} {db : Ledger} {m : Mutation}

/-- A request that does not commit changes nothing. -/
theorem handle_of_not_accepted (h : ¬ m.Accepted py ctx db) : (m.handle py ctx db).2 = db := by
  cases hcall : m.call? py ctx db with
  | none => rw [Mutation.handle_of_call?_eq_none hcall]
  | some call =>
      rw [Mutation.handle_of_call?_eq_some hcall]
      dsimp only
      rw [(submit_cases py ctx.channel call db).1]
      exact Call.service_of_not_commit fun job hjob hcommit => h ⟨call, job, hcall, hjob, hcommit⟩

/-- Where the broadcast does not raise, a commit is answered with its row. -/
theorem handle_of_accepted (h : m.Accepted py ctx db) (hquiet : ¬ ctx.channel.Raises) :
    ∃ entry, (m.handle py ctx db).1 = ⟨201, entry.body false⟩ ∧
      Adds db (m.handle py ctx db).2 entry := by
  obtain ⟨call, job, hcall, hjob, ⟨c⟩⟩ := h
  rw [Mutation.handle_of_call?_eq_some hcall]
  dsimp only
  obtain ⟨hafter, ⟨-, hraises, -⟩ | ⟨-, hresult⟩⟩ := submit_cases py ctx.channel call db
  · exact absurd hraises hquiet
  · rw [hafter, hresult, c.service_eq hjob]
    exact ⟨c.entry, rfl, c.adds⟩

/-- Where it raises, the commit is answered with an error. -/
theorem handle_of_raises (h : m.Accepted py ctx db) (hraises : ctx.channel.Raises) :
    400 ≤ (m.handle py ctx db).1.status := by
  obtain ⟨call, job, hcall, hjob, ⟨c⟩⟩ := h
  rw [Mutation.handle_of_call?_eq_some hcall]
  dsimp only
  obtain ⟨-, ⟨-, -, e, hresult⟩ | ⟨hquiet, -⟩⟩ := submit_cases py ctx.channel call db
  · rw [hresult]
    exact errorResponse_status_ge e
  · exact absurd hraises (hquiet ⟨c.entry, c.portfolio, by rw [c.service_eq hjob]⟩)

end

/-- An answer reports the commit unless there is one and the broadcast after it raises. -/
theorem reportsCommit_iff (py : Python) (ctx : Context) (db : Ledger) (m : Mutation) :
    ReportsCommit py ctx db m ↔ ¬ (m.Accepted py ctx db ∧ ctx.channel.Raises) := by
  constructor
  · rintro h ⟨haccepted, hraises⟩
    -- 201 is no error
    obtain ⟨entry, hanswer, -⟩ := h.committed (Mutation.commits_iff_accepted.mpr haccepted)
    have hstatus := handle_of_raises haccepted hraises
    rw [hanswer] at hstatus
    exact absurd hstatus (show ¬ 400 ≤ 201 by decide)
  · intro h
    constructor
    · intro hcommits
      have haccepted := Mutation.commits_iff_accepted.mp hcommits
      exact handle_of_accepted haccepted fun hraises => h ⟨haccepted, hraises⟩
    · intro hstatus
      by_cases haccepted : m.Accepted py ctx db
      · obtain ⟨entry, hanswer, -⟩ :=
          handle_of_accepted haccepted fun hraises => h ⟨haccepted, hraises⟩
        rw [hanswer] at hstatus
        exact absurd hstatus (show ¬ 400 ≤ 201 by decide)
      · exact handle_of_not_accepted haccepted

/-- The first user's request to deposit 1, with the connection to the database lost after the
commit. -/
def depositContext : Context where
  user := 1
  cache := .always 1
  fresh := ⟨1, 1⟩
  channel := .present (.error .operationalError) (.ok ())

def depositOne : Mutation :=
  .transferCash (.parsed { direction := "CREDIT", amount := 1, idempotencyKey := 1 })

/-- The deposit is in the ledger, and the answer is the generic 500. -/
theorem not_reportsCommit_depositOne :
    ¬ ReportsCommit Python.default depositContext firstPortfolio depositOne := by
  intro h
  have hfailed := h.failed (by decide +kernel)
  exact absurd hfailed (by decide +kernel)

end DjasktTrading.Ledger
