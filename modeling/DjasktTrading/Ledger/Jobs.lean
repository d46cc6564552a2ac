import DjasktTrading.Ledger.Commits
import DjasktTrading.Reasoning.Runs

/-!
# Jobs — trades and transfers as one kind of transaction

A submission is a trade or a transfer.  Both services check it, look its key up, and open one
transaction; a *job* is what that transaction is opened with.  This file gives the common shape of
the two services, and what the commit of a job changes.
-/

open Reasoning

namespace DjasktTrading.Ledger

/-! ## 1. Submissions and jobs -/

inductive Request where
  | trade (req : TradeRequest)
  | transfer (req : TransferRequest)
deriving DecidableEq

/-- A ledger entry in memory. -/
inductive Entry where
  | trade (trade : TradeInstance)
  | cashTransaction (cashTransaction : CashTransactionInstance)
deriving DecidableEq

/-- One submission with all it will be given from outside: what the price cache holds when it looks,
and the fresh values its row takes. -/
structure Call where
  request : Request
  cache : PriceCache
  fresh : Fresh

/-- A transaction about to open. -/
inductive Job where
  | trade (order : TradeOrder) (fresh : Fresh)
  | transfer (order : TransferOrder) (fresh : Fresh)
deriving DecidableEq

namespace Job

def portfolioId : Job → Uuid
  | .trade order _ => order.portfolioId
  | .transfer order _ => order.portfolioId

/-- The `atomic()` block. -/
def body (py : Python) : Job → LedgerTx (Entry × PortfolioInstance)
  | .trade order fresh => do
      let (entry, portfolio) ← tradeBody py order fresh
      pure (.trade entry, portfolio)
  | .transfer order fresh => do
      let (entry, portfolio) ← transferBody py order fresh
      pure (.cashTransaction entry, portfolio)

end Job

/-- The table whose unique constraint on `idempotency_key` a request or a job falls under, with the
key. -/
inductive Key where
  | trade (key : Uuid)
  | cashTransaction (key : Uuid)
deriving DecidableEq

def Request.key : Request → Key
  | .trade req => .trade req.idempotencyKey
  | .transfer req => .cashTransaction req.idempotencyKey

def Request.portfolioId : Request → Uuid
  | .trade req => req.portfolioId
  | .transfer req => req.portfolioId

def Job.key : Job → Key
  | .trade order _ => .trade order.idempotencyKey
  | .transfer order _ => .cashTransaction order.idempotencyKey

/-- The key lookup. -/
def existing? (db : Ledger) : Key → Option Entry
  | .trade key => (tradeByKey? db key).map (.trade ·.load)
  | .cashTransaction key => (cashTransactionByKey? db key).map (.cashTransaction ·.load)

/-- The keys of the stored entries. -/
def keys (db : Ledger) : List Key :=
  db.trades.map (.trade ·.idempotencyKey) ++
    db.cashTransactions.map (.cashTransaction ·.idempotencyKey)

theorem existing?_eq_none_iff {db : Ledger} {key : Key} :
    existing? db key = none ↔ key ∉ keys db := by
  cases key with
  | trade key =>
      simp only [existing?, Option.map_eq_none_iff, tradeByKey?_eq_none_iff]
      simp [keys]
  | cashTransaction key =>
      simp only [existing?, Option.map_eq_none_iff, cashTransactionByKey?_eq_none_iff]
      simp [keys]

namespace Call

/-- The checks on the arguments. -/
def check (py : Python) (call : Call) : Except Exn Unit :=
  match call.request with
  | .trade req => (checkTrade py req).map fun _ => ()
  | .transfer req => (checkTransfer py req).map fun _ => ()

/-- What the call opens its transaction with: its arguments and, for a trade, the price it fetches. -/
def job (py : Python) (call : Call) : Except Exn Job :=
  match call.request with
  | .trade req =>
      match checkTrade py req with
      | .error e => .error e
      | .ok tradeType => (priceTrade py call.cache req tradeType).map (.trade · call.fresh)
  | .transfer req => (checkTransfer py req).map (.transfer · call.fresh)

/-- The service call. -/
def service (py : Python) (call : Call) : LedgerTx (Result Entry) :=
  match call.request with
  | .trade req => do
      match ← executeTrade py call.cache call.fresh req with
      | .committed trade portfolio => pure (.committed (.trade trade) portfolio)
      | .replay trade => pure (.replay (.trade trade))
  | .transfer req => do
      match ← applyTransfer py call.fresh req with
      | .committed cashTransaction portfolio =>
          pure (.committed (.cashTransaction cashTransaction) portfolio)
      | .replay cashTransaction => pure (.replay (.cashTransaction cashTransaction))

/-- The common shape of the two services. -/
def transaction (py : Python) (call : Call) : LedgerTx (Result Entry) := do
  Tx.ofExcept (call.check py)
  match ← Tx.read (existing? · call.request.key) with
  | some entry => pure (.replay entry)
  | none =>
      let job ← Tx.ofExcept (call.job py)
      let (entry, portfolio) ← Tx.atomic (job.body py)
      pure (.committed entry portfolio)

end Call

/-- Wrapping what a computation returns commutes with `atomic`. -/
theorem atomic_bind_pure {α β : Type} (m : LedgerTx α) (f : α → β) :
    Tx.atomic (m >>= fun a => pure (f a)) = (Tx.atomic m >>= fun a => pure (f a)) := by
  funext db
  rcases h : m db with ⟨e | a, ws⟩
  · rw [Tx.bind_apply_of_error (Tx.atomic_of_error h)]
    exact Tx.atomic_of_error (Tx.bind_apply_of_error h)
  · rw [Tx.bind_apply_of_ok (Tx.atomic_eq_ok_iff.mpr h)]
    exact Tx.atomic_eq_ok_iff.mpr (Tx.bind_apply_of_ok h)

/-- Both services are that shape. -/
theorem Call.service_eq (py : Python) (call : Call) : call.service py = call.transaction py := by
  funext db
  rcases call with ⟨req | req, cache, fresh⟩
  · simp only [service, transaction, executeTrade, check, job, existing?, Request.key]
    rcases checkTrade py req with e | tradeType
    · rfl
    · simp only [Except.map, Tx.ofExcept_bind_ok, bind_assoc, Tx.read_bind]
      rcases tradeByKey? db req.idempotencyKey with _ | trade
      · rcases priceTrade py cache req tradeType with e | order
        · rfl
        · simp only [Option.map_none, Tx.ofExcept_bind_ok, Job.body, bind_assoc, pure_bind,
            atomic_bind_pure _ fun p : TradeInstance × PortfolioInstance => (Entry.trade p.1, p.2)]
      · rfl
  · simp only [service, transaction, applyTransfer, check, job, existing?, Request.key]
    cases checkTransfer py req with
    | error e => rfl
    | ok order =>
        simp only [Except.map, Tx.ofExcept_bind_ok, bind_assoc, Tx.read_bind]
        cases cashTransactionByKey? db req.idempotencyKey with
        | none =>
            simp only [Option.map_none, Tx.ofExcept_bind_ok, Job.body, bind_assoc, pure_bind,
              atomic_bind_pure _ fun p : CashTransactionInstance × PortfolioInstance =>
                (Entry.cashTransaction p.1, p.2)]
        | some cashTransaction => rfl

/-- What a call can come to. -/
inductive Call.Ends (py : Python) (call : Call) (db : Ledger) :
    Except Exn (Result Entry) → Ledger → Prop where
  | refused (e : Exn) : Ends py call db (.error e) db
  | replayed (entry : Entry) (stored : existing? db call.request.key = some entry) :
      Ends py call db (.ok (.replay entry)) db
  | committed (job : Job) (entry : Entry) (portfolio : PortfolioInstance) (ws : List Write)
      (new : existing? db call.request.key = none) (opened : call.job py = .ok job)
      (body : job.body py db = (.ok (entry, portfolio), ws)) :
      Ends py call db (.ok (.committed entry portfolio)) (applyAll db ws)

theorem Call.service_ends (py : Python) (call : Call) (db : Ledger) :
    call.Ends py db ((call.service py).run db).1 ((call.service py).run db).2 := by
  rw [Call.service_eq]
  unfold Tx.run transaction
  rcases call.check py with e | _
  · rw [Tx.ofExcept_bind_error]
    exact .refused e
  rw [Tx.ofExcept_bind_ok, Tx.read_bind]
  cases hold : existing? db call.request.key with
  | none =>
      cases hjob : call.job py with
      | error e =>
          dsimp only
          rw [Tx.ofExcept_bind_error]
          exact .refused e
      | ok job =>
          dsimp only
          rw [Tx.ofExcept_bind_ok]
          rcases hbody : job.body py db with ⟨e | ⟨entry, portfolio⟩, ws⟩
          · rw [Tx.bind_apply_of_error (Tx.atomic_of_error hbody)]
            exact .refused e
          · rw [Tx.bind_apply_of_ok (Tx.atomic_eq_ok_iff.mpr hbody), Tx.pure_apply, List.append_nil]
            exact .committed job entry portfolio ws hold hjob hbody
  | some entry => exact .replayed entry hold

/-- What a call can open its transaction with. -/
inductive Call.Opens (py : Python) (call : Call) : Job → Prop where
  | trade {req : TradeRequest} {tradeType : TradeType} {price : Decimal}
      (request : call.request = .trade req) (checked : checkTrade py req = .ok tradeType)
      (priced : getLivePrice py call.cache req.ticker = .ok price) :
      Opens py call (.trade
        { portfolioId := req.portfolioId, ticker := py.upper req.ticker, tradeType,
          quantity := req.quantity, idempotencyKey := req.idempotencyKey, price,
          totalValue := mulDecimal py req.quantity price } call.fresh)
  | transfer {req : TransferRequest} {order : TransferOrder}
      (request : call.request = .transfer req) (checked : checkTransfer py req = .ok order) :
      Opens py call (.transfer order call.fresh)

theorem Call.opens_of_job {py : Python} {call : Call} {job : Job} (h : call.job py = .ok job) :
    call.Opens py job := by
  rcases call with ⟨req | req, cache, fresh⟩
  · simp only [Call.job] at h
    cases hcheck : checkTrade py req with
    | error e =>
        rw [hcheck] at h
        cases h
    | ok tradeType =>
        rw [hcheck] at h
        cases horder : priceTrade py cache req tradeType with
        | error e => simp [horder, Except.map] at h
        | ok order =>
            obtain ⟨price, hprice, rfl⟩ := priceTrade_eq_ok horder
            simp only [horder, Except.map, Except.ok.injEq] at h
            subst h
            exact .trade rfl hcheck hprice
  · simp only [Call.job] at h
    cases horder : checkTransfer py req with
    | error e => simp [horder, Except.map] at h
    | ok order =>
        simp only [horder, Except.map, Except.ok.injEq] at h
        subst h
        exact .transfer rfl horder

/-- A job belongs to the call's portfolio and key. -/
theorem Call.job_eq_ok {py : Python} {call : Call} {job : Job} (h : call.job py = .ok job) :
    call.check py = .ok () ∧ job.portfolioId = call.request.portfolioId ∧
      job.key = call.request.key := by
  cases Call.opens_of_job h with
  | trade request checked priced =>
      simp only [Call.check, request, checked]
      exact ⟨rfl, rfl, rfl⟩
  | transfer request checked =>
      obtain ⟨direction, -, -, rfl⟩ := checkTransfer_eq_ok checked
      simp only [Call.check, request, checked]
      exact ⟨rfl, rfl, rfl⟩

/-- A call whose key is new and whose job commits answers with the new entry. -/
theorem Call.service_of_body {py : Python} {call : Call} {db : Ledger} {job : Job} {entry : Entry}
    {portfolio : PortfolioInstance} {ws : List Write} (hjob : call.job py = .ok job)
    (hnew : existing? db call.request.key = none)
    (hbody : job.body py db = (.ok (entry, portfolio), ws)) :
    (call.service py).run db = (.ok (.committed entry portfolio), applyAll db ws) := by
  rw [Call.service_eq]
  unfold Tx.run transaction
  rw [(Call.job_eq_ok hjob).1, Tx.ofExcept_bind_ok, Tx.read_bind, hnew, hjob]
  dsimp only
  rw [Tx.ofExcept_bind_ok, Tx.bind_apply_of_ok (Tx.atomic_eq_ok_iff.mpr hbody), Tx.pure_apply,
    List.append_nil]

/-- A call that fails a check raises. -/
theorem Call.service_of_check {py : Python} {call : Call} {db : Ledger} {e : Exn}
    (hcheck : call.check py = .error e) : (call.service py).run db = (.error e, db) := by
  rw [Call.service_eq]
  unfold Tx.run transaction
  rw [hcheck, Tx.ofExcept_bind_error]
  rfl

/-- A call that finds its key taken answers with the entry that has it. -/
theorem Call.service_of_existing? {py : Python} {call : Call} {db : Ledger} {entry : Entry}
    (hcheck : call.check py = .ok ()) (hstored : existing? db call.request.key = some entry) :
    (call.service py).run db = (.ok (.replay entry), db) := by
  rw [Call.service_eq]
  unfold Tx.run transaction
  rw [hcheck, Tx.ofExcept_bind_ok, Tx.read_bind, hstored]
  rfl

/-! ## 2. Commits -/

/-- A job that can commit on `db`. -/
inductive Job.Commit (py : Python) (db : Ledger) : Job → Type where
  | trade {order : TradeOrder} (fresh : Fresh) (c : TradeCommit py order db) :
      Commit py db (.trade order fresh)
  | transfer {order : TransferOrder} (fresh : Fresh) (c : TransferCommit py order db) :
      Commit py db (.transfer order fresh)

namespace Job.Commit

variable {py : Python} {db : Ledger} {job : Job}

def writes : job.Commit py db → List Write
  | .trade fresh c => c.writes fresh
  | .transfer fresh c => c.writes fresh

def entry : job.Commit py db → Entry
  | @trade _ _ order fresh _ => .trade (order.entry fresh)
  | .transfer fresh c => .cashTransaction (c.entry fresh)

def portfolio : job.Commit py db → PortfolioInstance
  | .trade _ c => c.portfolio
  | .transfer _ c => c.portfolio

/-- The database after the commit. -/
def after (c : job.Commit py db) : Ledger := applyAll db c.writes

theorem writes_portfolio (c : job.Commit py db) : ∀ w ∈ c.writes, w.portfolio = job.portfolioId := by
  cases c with
  | trade fresh c => exact c.writes_portfolio fresh
  | transfer fresh c => exact c.writes_portfolio fresh

theorem portfolio_id (c : job.Commit py db) : c.portfolio.id = job.portfolioId := by
  cases c with
  | trade fresh c => exact c.row_id
  | transfer fresh c => exact c.row_id

/-- The portfolio row that a commit saves is one it has read. -/
theorem updatePortfolio_mem (c : job.Commit py db) {row : Portfolio}
    (h : .updatePortfolio row ∈ c.writes) :
    ∃ p, portfolio? db job.portfolioId = some p ∧ row.id = p.id ∧ row.user = p.user := by
  cases c with
  | trade fresh c =>
      refine ⟨c.row, c.row_eq, ?_⟩
      rcases List.mem_append.mp h with h | h
      · unfold openPosition at h
        split at h <;> simp at h
      · simp only [List.mem_cons, reduceCtorEq, Write.updatePortfolio.injEq, List.not_mem_nil,
          false_or, or_false] at h
        rw [h]
        exact ⟨rfl, rfl⟩
  | transfer fresh c =>
      refine ⟨c.row, c.row_eq, ?_⟩
      simp only [writes, TransferCommit.writes, List.mem_cons, reduceCtorEq,
        Write.updatePortfolio.injEq, List.not_mem_nil, or_false] at h
      rw [h]
      exact ⟨rfl, rfl⟩

/-- A commit concerns one portfolio. -/
theorem agreeOn_after (c : job.Commit py db) {id : Uuid} (hne : id ≠ job.portfolioId) :
    AgreeOn id c.after db :=
  AgreeOn.applyAll_of_ne (fun w hw => by rw [c.writes_portfolio w hw]; exact hne.symm) db

theorem key_free (c : job.Commit py db) : job.key ∉ keys db := by
  rw [← existing?_eq_none_iff]
  cases c with
  | trade fresh c => simpa [existing?, Job.key] using c.key_free
  | transfer fresh c => simpa [existing?, Job.key] using c.key_free

theorem keys_after (c : job.Commit py db) : List.Perm (keys c.after) (keys db ++ [job.key]) := by
  cases c with
  | trade fresh c =>
      change List.Perm (keys (c.after fresh)) _
      rw [keys, c.trades_after, c.cashTransactions_after, List.map_append, keys, List.append_assoc,
        List.append_assoc]
      exact List.Perm.append_left _ List.perm_append_comm
  | transfer fresh c =>
      change List.Perm (keys (c.after fresh)) _
      rw [keys, c.trades_after, c.cashTransactions_after, List.map_append, keys, List.append_assoc]
      exact List.Perm.refl _

end Job.Commit

/-- A job body that returns is a commit, and has written what the commit says. -/
theorem Job.body_eq_ok {py : Python} {job : Job} {db : Ledger} {entry : Entry}
    {portfolio : PortfolioInstance} {ws : List Write}
    (h : job.body py db = (.ok (entry, portfolio), ws)) :
    ∃ c : job.Commit py db, entry = c.entry ∧ portfolio = c.portfolio ∧ ws = c.writes := by
  cases job with
  | trade order fresh =>
      obtain ⟨⟨trade, pf⟩, vs, us, hbody, hpure, rfl⟩ := Tx.bind_eq_ok_iff.mp h
      obtain ⟨he, rfl⟩ := Tx.pure_eq_ok_iff.mp hpure
      obtain ⟨rfl, rfl⟩ := Prod.mk.inj he
      obtain ⟨c, rfl, rfl, rfl⟩ := tradeBody_eq_ok hbody
      exact ⟨.trade fresh c, rfl, rfl, List.append_nil _⟩
  | transfer order fresh =>
      obtain ⟨⟨cashTransaction, pf⟩, vs, us, hbody, hpure, rfl⟩ := Tx.bind_eq_ok_iff.mp h
      obtain ⟨he, rfl⟩ := Tx.pure_eq_ok_iff.mp hpure
      obtain ⟨rfl, rfl⟩ := Prod.mk.inj he
      obtain ⟨c, rfl, rfl, rfl⟩ := transferBody_eq_ok hbody
      exact ⟨.transfer fresh c, rfl, rfl, List.append_nil _⟩

/-- What a commit requires is enough for the job body to return. -/
theorem Job.Commit.body_eq {py : Python} {db : Ledger} {job : Job} (c : job.Commit py db) :
    job.body py db = (.ok (c.entry, c.portfolio), c.writes) := by
  rw [← List.append_nil c.writes]
  cases c with
  | trade fresh c =>
      unfold Job.body
      exact Tx.bind_eq (c.tradeBody_eq fresh) (Tx.pure_apply _ _)
  | transfer fresh c =>
      unfold Job.body
      exact Tx.bind_eq (c.transferBody_eq fresh) (Tx.pure_apply _ _)

/-- A call whose job can commit commits it. -/
theorem Job.Commit.service_eq {py : Python} {db : Ledger} {call : Call} {job : Job}
    (c : job.Commit py db) (hjob : call.job py = .ok job) :
    (call.service py).run db = (.ok (.committed c.entry c.portfolio), c.after) :=
  Call.service_of_body hjob
    (existing?_eq_none_iff.mpr ((Call.job_eq_ok hjob).2.2 ▸ c.key_free)) c.body_eq

/-- A call that cannot commit leaves the database as it was. -/
theorem Call.service_of_not_commit {py : Python} {db : Ledger} {call : Call}
    (h : ∀ job, call.job py = .ok job → ¬ Nonempty (job.Commit py db)) :
    ((call.service py).run db).2 = db := by
  have hends := call.service_ends py db
  generalize ((call.service py).run db).1 = r at hends
  generalize ((call.service py).run db).2 = db' at hends ⊢
  cases hends with
  | refused => rfl
  | replayed => rfl
  | committed job entry portfolio ws _ hjob hbody =>
      obtain ⟨c, -⟩ := Job.body_eq_ok hbody
      exact absurd ⟨c⟩ (h job hjob)

/-! ## 3. Serial runs -/

/-- Run a job to its commit; not enabled if its transaction would roll back. -/
def jobStep (py : Python) (db : Ledger) (job : Job) : Option Ledger :=
  match job.body py db with
  | (.ok _, ws) => some (applyAll db ws)
  | (.error _, _) => none

theorem jobStep_eq_some {py : Python} {db db' : Ledger} {job : Job}
    (h : jobStep py db job = some db') : ∃ c : job.Commit py db, db' = c.after := by
  unfold jobStep at h
  rcases hbody : job.body py db with ⟨e | ⟨entry, portfolio⟩, ws⟩
  · rw [hbody] at h
    cases h
  · rw [hbody] at h
    obtain ⟨c, -, -, rfl⟩ := Job.body_eq_ok hbody
    exact ⟨c, (Option.some.inj h).symm⟩

theorem jobStep_of_body {py : Python} {db : Ledger} {job : Job} {r : Entry × PortfolioInstance}
    {ws : List Write} (h : job.body py db = (.ok r, ws)) :
    jobStep py db job = some (applyAll db ws) := by
  simp only [jobStep, h]

/-- Make one call. -/
def callStep (py : Python) (db : Ledger) (call : Call) : Option Ledger :=
  some ((call.service py).run db).2

/-- Every sequence of calls runs: a call that fails is answered, too. -/
theorem exists_run_callStep (py : Python) (db : Ledger) (calls : List Call) :
    ∃ db', Run (callStep py) db calls db' := by
  induction calls generalizing db with
  | nil => exact ⟨db, run_nil_iff.mpr rfl⟩
  | cons call calls ih =>
      obtain ⟨db', h⟩ := ih ((call.service py).run db).2
      exact ⟨db', run_cons_iff.mpr ⟨_, rfl, h⟩⟩

/-- The job that a call commits on `db`, if it commits one. -/
def Call.committed? (py : Python) (db : Ledger) (call : Call) : Option Job :=
  match call.job py with
  | .error _ => none
  | .ok job => if (jobStep py db job).isSome then some job else none

theorem Call.committed?_eq_some_iff {py : Python} {db : Ledger} {call : Call} {job : Job} :
    call.committed? py db = some job ↔
      call.job py = .ok job ∧ ∃ db', jobStep py db job = some db' := by
  unfold Call.committed?
  cases call.job py with
  | error e => simp
  | ok j =>
      simp only [Option.ite_none_right_eq_some, Option.isSome_iff_exists, Option.some.injEq,
        Except.ok.injEq]
      constructor
      · rintro ⟨h, rfl⟩
        exact ⟨rfl, h⟩
      · rintro ⟨rfl, h⟩
        exact ⟨h, rfl⟩

/-- A call commits its job, or leaves the database as it was. -/
theorem callStep_cases {py : Python} {db db' : Ledger} {call : Call}
    (h : callStep py db call = some db') :
    (call.committed? py db = none ∧ db' = db) ∨
      ∃ job, call.committed? py db = some job ∧ jobStep py db job = some db' := by
  have hends := call.service_ends py db
  rw [Option.some.inj h] at hends
  cases hc : call.committed? py db with
  | none =>
      refine .inl ⟨rfl, ?_⟩
      generalize ((call.service py).run db).1 = r at hends
      cases hends with
      | refused => rfl
      | replayed => rfl
      | committed job entry portfolio ws hnew hjob hbody =>
          have hsome := Call.committed?_eq_some_iff.mpr ⟨hjob, _, jobStep_of_body hbody⟩
          rw [hc] at hsome
          cases hsome
  | some job =>
      obtain ⟨hjob, db'', hstep⟩ := Call.committed?_eq_some_iff.mp hc
      refine .inr ⟨job, rfl, ?_⟩
      -- the key is new, so the service reaches the transaction
      obtain ⟨c, -⟩ := jobStep_eq_some hstep
      have hnew : existing? db call.request.key = none :=
        existing?_eq_none_iff.mpr ((Call.job_eq_ok hjob).2.2 ▸ c.key_free)
      rcases hbody : job.body py db with ⟨e | ⟨entry, portfolio⟩, ws⟩
      · simp [jobStep, hbody] at hstep
      · rw [callStep, Call.service_of_body hjob hnew hbody] at h
        rw [jobStep_of_body hbody, ← h]

/-! ## 4. The same submission under another key -/

def Request.withKey (key : Uuid) : Request → Request
  | .trade req => .trade { req with idempotencyKey := key }
  | .transfer req => .transfer { req with idempotencyKey := key }

def Call.withKey (key : Uuid) (call : Call) : Call :=
  { call with request := call.request.withKey key }

def Job.withKey (key : Uuid) : Job → Job
  | .trade order fresh => .trade { order with idempotencyKey := key } fresh
  | .transfer order fresh => .transfer { order with idempotencyKey := key } fresh

/-- The checks and the price do not look at the key. -/
theorem Call.job_withKey (py : Python) (key : Uuid) (call : Call) :
    (call.withKey key).job py = (call.job py).map (Job.withKey key) := by
  -- the same checks and the same price, whatever the key
  rcases call with ⟨req | req, cache, fresh⟩
  · have hcheck : checkTrade py { req with idempotencyKey := key } = checkTrade py req := rfl
    simp only [Call.withKey, Request.withKey, Call.job, hcheck]
    cases checkTrade py req with
    | error e => rfl
    | ok tradeType =>
        simp only [priceTrade]
        rcases getLivePrice py cache req.ticker with e | price <;> rfl
  · simp only [Call.withKey, Request.withKey, Call.job, checkTransfer]
    cases Direction.ofValue? req.direction with
    | none => rfl
    | some direction =>
        dsimp only
        split <;> rfl

/-- What can commit can commit under any key that is free. -/
theorem Job.Commit.withKey {py : Python} {db : Ledger} {job : Job} (c : job.Commit py db)
    {key : Uuid} (hfree : (job.withKey key).key ∉ keys db) :
    Nonempty ((job.withKey key).Commit py db) := by
  rw [← existing?_eq_none_iff] at hfree
  cases c with
  | trade fresh c =>
      have hnone : tradeByKey? db key = none := Option.map_eq_none_iff.mp hfree
      exact ⟨.trade fresh { c with key_free := hnone }⟩
  | transfer fresh c =>
      have hnone : cashTransactionByKey? db key = none := Option.map_eq_none_iff.mp hfree
      exact ⟨.transfer fresh { c with key_free := hnone }⟩

/-! ## 5. A first portfolio -/

/-- The ledger after the first signup. -/
def firstPortfolio : Ledger where
  portfolios := [⟨1, 1, .zero⟩]
  positions := []
  trades := []
  cashTransactions := []

/-- A transfer of the first portfolio, under a key and at a time both numbered `n`. -/
def transferCall (n : ℕ) (direction : String) (amount : ℚ) : Call where
  request := .transfer { portfolioId := 1, direction, amount, idempotencyKey := .ofNat 128 n }
  cache := .always 1
  fresh := ⟨.ofNat 128 n, n⟩

end DjasktTrading.Ledger
