import DjasktTrading.Ledger.Reporting
import DjasktTrading.Ledger.Statements

/-!
# Isolation — what a caller can see of the other tenants

Two ledgers that differ in the rows of other users only, and one request answered on both.
Everything on the path of a request looks at the caller's own portfolio, except the lookup of the
idempotency key: it looks at the whole table.
-/

open Reasoning

namespace DjasktTrading.Ledger

/-! ## 1. The rows of a user -/

/-- Two ledgers hold the same rows of `user`. -/
structure AgreeFor (user : UserId) (db db' : Ledger) : Prop where
  portfolios : db.portfolios.filter (·.user = user) = db'.portfolios.filter (·.user = user)
  rows : ∀ portfolio ∈ db.portfolios, portfolio.user = user → AgreeOn portfolio.id db db'

/-- A write that gives no portfolio another owner. -/
def KeepsOwners (db : Ledger) (w : Write) : Prop :=
  ∀ row, w = .updatePortfolio row → ∀ p ∈ db.portfolios, p.id = row.id → p.user = row.user

instance (id : Uuid) (db db' : Ledger) : Decidable (AgreeOn id db db') :=
  decidable_of_iff
    (db.portfolios.filter (·.id = id) = db'.portfolios.filter (·.id = id) ∧
      positionsOf db id = positionsOf db' id ∧ tradesOf db id = tradesOf db' id ∧
      cashTransactionsOf db id = cashTransactionsOf db' id)
    ⟨fun h => ⟨h.1, h.2.1, h.2.2.1, h.2.2.2⟩,
      fun h => ⟨h.portfolios, h.positions, h.trades, h.cashTransactions⟩⟩

instance (user : UserId) (db db' : Ledger) : Decidable (AgreeFor user db db') :=
  decidable_of_iff
    (db.portfolios.filter (·.user = user) = db'.portfolios.filter (·.user = user) ∧
      ∀ portfolio ∈ db.portfolios, portfolio.user = user → AgreeOn portfolio.id db db')
    ⟨fun h => ⟨h.1, h.2⟩, fun h => ⟨h.portfolios, h.rows⟩⟩

theorem portfolios_of_not_updatePortfolio {w : Write} (h : ∀ row, w ≠ .updatePortfolio row)
    (db : Ledger) : (Writable.apply db w).portfolios = db.portfolios := by
  cases w with
  | updatePortfolio row => exact absurd rfl (h row)
  | insertPosition row => rfl
  | updatePosition row => rfl
  | insertTrade row => rfl
  | insertCashTransaction row => rfl

/-- The portfolios after a write stand where they stood, with their owners. -/
theorem KeepsOwners.exists_before {db : Ledger} {w : Write} (hw : KeepsOwners db w)
    {p : Portfolio} (hp : p ∈ (Writable.apply db w).portfolios) :
    ∃ q ∈ db.portfolios, q.id = p.id ∧ q.user = p.user := by
  by_cases hrow : ∃ row, w = .updatePortfolio row
  · obtain ⟨row, rfl⟩ := hrow
    obtain ⟨q, hq, rfl⟩ := List.mem_map.mp hp
    by_cases hid : q.id = row.id
    · rw [if_pos hid]
      exact ⟨q, hq, hid, hw row rfl q hq hid⟩
    · rw [if_neg hid]
      exact ⟨q, hq, rfl, rfl⟩
  · rw [portfolios_of_not_updatePortfolio (not_exists.mp hrow)] at hp
    exact ⟨p, hp, rfl, rfl⟩

theorem KeepsOwners.apply {db : Ledger} {w v : Write} (hw : KeepsOwners db w)
    (hv : KeepsOwners db v) : KeepsOwners (Writable.apply db w) v := by
  intro row hrow p hp hid
  obtain ⟨q, hq, hqid, hquser⟩ := hw.exists_before hp
  exact hquser.symm.trans (hv row hrow q hq (hqid.trans hid))

namespace AgreeFor

variable {user : UserId} {db db' : Ledger}

theorem portfolioOf? (h : AgreeFor user db db') :
    Ledger.portfolioOf? db user = Ledger.portfolioOf? db' user := by
  rw [Ledger.portfolioOf?, Ledger.portfolioOf?, ← List.head?_filter, ← List.head?_filter,
    h.portfolios]

theorem agreeOn (h : AgreeFor user db db') {portfolio : Portfolio}
    (hportfolio : Ledger.portfolioOf? db user = some portfolio) : AgreeOn portfolio.id db db' :=
  h.rows portfolio (List.mem_of_find?_eq_some hportfolio)
    (by simpa using List.find?_some hportfolio)

/-- The owners of the caller's portfolios are the same on both sides. -/
theorem keepsOwners (h : AgreeFor user db db') {w : Write}
    (hw : ∀ row, w = .updatePortfolio row → ∃ p ∈ db.portfolios, p.user = user ∧ p.id = row.id)
    (hkeeps : KeepsOwners db w) : KeepsOwners db' w := by
  intro row hrow p hp hid
  obtain ⟨q, hq, huser, hqid⟩ := hw row hrow
  have hmem : p ∈ db'.portfolios.filter (·.id = q.id) :=
    List.mem_filter.mpr ⟨hp, by simpa using hid.trans hqid.symm⟩
  rw [← (h.rows q hq huser).portfolios] at hmem
  exact hkeeps row hrow p (List.mem_filter.mp hmem).1 hid

theorem filter_user_updatePortfolio {row : Portfolio} (db : Ledger)
    (h : KeepsOwners db (.updatePortfolio row)) (user : UserId) :
    (Writable.apply db (Write.updatePortfolio row)).portfolios.filter (·.user = user) =
      (db.portfolios.filter (·.user = user)).map fun p => if p.id = row.id then row else p := by
  change (db.portfolios.map _).filter _ = _
  rw [List.filter_map]
  congr 1
  apply List.filter_congr
  intro p hp
  by_cases hid : p.id = row.id
  · simp only [Function.comp_apply, if_pos hid, h row rfl p hp hid]
  · simp only [Function.comp_apply, if_neg hid]

/-- The same write on both sides keeps the agreement. -/
theorem apply (h : AgreeFor user db db') {w : Write} (hw : KeepsOwners db w)
    (hw' : KeepsOwners db' w) : AgreeFor user (Writable.apply db w) (Writable.apply db' w) := by
  constructor
  · by_cases hrow : ∃ row, w = .updatePortfolio row
    · obtain ⟨row, rfl⟩ := hrow
      rw [filter_user_updatePortfolio db hw, filter_user_updatePortfolio db' hw', h.portfolios]
    · rw [portfolios_of_not_updatePortfolio (not_exists.mp hrow),
        portfolios_of_not_updatePortfolio (not_exists.mp hrow), h.portfolios]
  · intro p hp huser
    obtain ⟨q, hq, hqid, hquser⟩ := hw.exists_before hp
    exact hqid ▸ AgreeOn.stable q.id db db' w (h.rows q hq (hquser.trans huser))

theorem applyAll {ws : List Write} (h : AgreeFor user db db')
    (hws : ∀ w ∈ ws, KeepsOwners db w) (hws' : ∀ w ∈ ws, KeepsOwners db' w) :
    AgreeFor user (applyAll db ws) (applyAll db' ws) := by
  induction ws generalizing db db' with
  | nil => exact h
  | cons w ws ih =>
      have hw := hws w List.mem_cons_self
      have hw' := hws' w List.mem_cons_self
      exact ih (h.apply hw hw') (fun v hv => hw.apply (hws v (List.mem_cons_of_mem w hv)))
        fun v hv => hw'.apply (hws' v (List.mem_cons_of_mem w hv))

end AgreeFor

/-! ## 2. What a submission can see -/

/-- A commit gives its portfolio no other owner. -/
theorem Job.Commit.keepsOwners {py : Python} {db : Ledger} {job : Job} (c : job.Commit py db)
    (hids : (db.portfolios.map (·.id)).Nodup) : ∀ w ∈ c.writes, KeepsOwners db w := by
  rintro w hw row rfl p hp hid
  obtain ⟨locked, hlocked, hrowId, hrowUser⟩ := c.updatePortfolio_mem hw
  have hsame : p = locked :=
    List.inj_on_of_nodup_map hids hp (List.mem_of_find?_eq_some hlocked) (hid.trans hrowId)
  rw [hsame, hrowUser]

namespace Call

variable (py : Python) (call : Call)

/-- What a call can see of a database: its portfolio, and who has its key. -/
def SeesSame (db db' : Ledger) : Prop :=
  AgreeOn call.request.portfolioId db db' ∧ SameKey call.request.key db db'

theorem seesSame_stable : Tx.Stable call.SeesSame :=
  fun db db' w h => ⟨AgreeOn.stable _ db db' w h.1, sameKey_stable _ db db' w h.2⟩

theorem job_seesSame {py : Python} {call : Call} {job : Job} (hjob : call.job py = .ok job)
    {db db' : Ledger} (h : call.SeesSame db db') : job.SeesSame db db' := by
  obtain ⟨-, hportfolio, hkey⟩ := Call.job_eq_ok hjob
  exact ⟨hportfolio ▸ h.1, hkey ▸ h.2⟩

theorem service_dependsOn : Tx.DependsOn call.SeesSame (call.service py) := by
  have hstable := call.seesSame_stable
  rw [Call.service_eq]
  apply Tx.DependsOn.bind hstable (Tx.dependsOn_ofExcept _) fun _ => ?_
  apply Tx.DependsOn.bind hstable (Tx.dependsOn_read fun _ _ h => existing?_of_sameKey h.2)
  intro stored
  cases stored with
  | some entry => exact Tx.dependsOn_pure _
  | none =>
      -- the job belongs to the call's portfolio and key
      apply (Tx.dependsOn_ofExcept _).bind_of_returns hstable
      intro db job ws hjob
      have hbody : Tx.DependsOn call.SeesSame (job.body py) :=
        (body_dependsOn py job).mono fun _ _ h => job_seesSame (Prod.mk.inj hjob).1 h
      exact Tx.DependsOn.bind hstable hbody.atomic fun _ => Tx.dependsOn_pure _

theorem broadcastPortfolioUpdate_dependsOn (channel : ChannelLayer) (portfolio : PortfolioInstance)
    (entry : Entry) :
    Tx.DependsOn (AgreeOn portfolio.id) (broadcastPortfolioUpdate channel portfolio entry) := by
  have hstable := AgreeOn.stable portfolio.id
  cases channel with
  | absent => exact Tx.dependsOn_pure _
  | present reread groupSend =>
      apply Tx.DependsOn.bind hstable (Tx.dependsOn_ofExcept _) fun _ => ?_
      apply Tx.DependsOn.bind hstable (Tx.dependsOn_read fun _ _ h => h.positions) fun _ => ?_
      exact Tx.DependsOn.bind hstable (Tx.dependsOn_ofExcept _) fun _ => Tx.dependsOn_pure _

/-- The broadcast of a commit is about the call's portfolio. -/
theorem portfolio_of_committed {db : Ledger} {entry : Entry} {portfolio : PortfolioInstance}
    {ws : List Write} (h : call.service py db = (.ok (.committed entry portfolio), ws)) :
    portfolio.id = call.request.portfolioId := by
  have hends := call.service_ends py db
  unfold Tx.run at hends
  rw [h] at hends
  generalize applyAll db ws = db' at hends
  cases hends with
  | committed job _ _ vs _ hjob hbody =>
      obtain ⟨c, -, rfl, -⟩ := Job.body_eq_ok hbody
      exact c.portfolio_id.trans (Call.job_eq_ok hjob).2.1

theorem submit_dependsOn (channel : ChannelLayer) :
    Tx.DependsOn call.SeesSame (submit py channel call) := by
  apply (service_dependsOn py call).bind_of_returns call.seesSame_stable
  intro db result ws hservice
  cases result with
  | replay entry => exact Tx.dependsOn_pure _
  | committed entry portfolio =>
      have hportfolio := portfolio_of_committed py call hservice
      have hbroadcast : Tx.DependsOn call.SeesSame
          (broadcastPortfolioUpdate channel portfolio entry) :=
        (broadcastPortfolioUpdate_dependsOn channel portfolio entry).mono
          fun _ _ h => hportfolio ▸ h.1
      exact Tx.DependsOn.bind call.seesSame_stable hbroadcast fun _ => Tx.dependsOn_pure _

end Call

/-! ## 3. Two runs of one request -/

/-- `request` is answered alike on `db` and `db'`, and leaves its caller the same rows. -/
structure Noninterferent (py : Python) (paginator : Paginator) (ctx : Context) (request : ApiRequest)
    (db db' : Ledger) : Prop where
  response : (request.handle py paginator ctx db).1 = (request.handle py paginator ctx db').1
  rows : AgreeFor ctx.user (request.handle py paginator ctx db).2 (request.handle py paginator ctx db').2

/-- A request that gets as far as the key lookup finds the same there, as far as a replay shows. -/
def ApiRequest.FindsSame (py : Python) (ctx : Context) (db db' : Ledger) : ApiRequest → Prop
  | .mutation m => ∀ call, m.call? py ctx db = some call → call.check py = .ok () →
      (existing? db call.request.key).map (Entry.body true) =
        (existing? db' call.request.key).map (Entry.body true)
  | .getPortfolio => True
  | .listTrades _ => True

section

variable {py : Python} {paginator : Paginator} {ctx : Context} {db db' : Ledger}

theorem Mutation.call?_of_agreeFor (h : AgreeFor ctx.user db db') (m : Mutation) :
    m.call? py ctx db = m.call? py ctx db' := by
  unfold Mutation.call?
  rw [h.portfolioOf?]

theorem getPortfolioAction_of_agreeFor {user : UserId} (h : AgreeFor user db db') :
    getPortfolioAction user db = getPortfolioAction user db' := by
  unfold getPortfolioAction
  rw [← h.portfolioOf?]
  cases hportfolio : portfolioOf? db user with
  | none => rfl
  | some portfolio =>
      dsimp only
      rw [(h.agreeOn hportfolio).positions]

theorem listTrades_of_agreeFor {user : UserId} (h : AgreeFor user db db') :
    listTrades user db db = listTrades user db' db' := by
  unfold listTrades
  rw [← h.portfolioOf?]
  cases hportfolio : portfolioOf? db user with
  | none => rfl
  | some portfolio =>
      dsimp only
      rw [(h.agreeOn hportfolio).trades]

theorem noninterferent_of_unchanged (hagree : AgreeFor ctx.user db db') {m : Mutation}
    {response : Response} (h : m.handle py ctx db = (response, db))
    (h' : m.handle py ctx db' = (response, db')) :
    Noninterferent py paginator ctx (.mutation m) db db' := by
  constructor
  · change (m.handle py ctx db).1 = (m.handle py ctx db').1
    rw [h, h']
  · change AgreeFor ctx.user (m.handle py ctx db).2 (m.handle py ctx db').2
    rw [h, h']
    exact hagree

/-- Where both sides see the same, a submission runs the same. -/
theorem noninterferent_of_seesSame (hids : (db.portfolios.map (·.id)).Nodup)
    (hagree : AgreeFor ctx.user db db') {m : Mutation} {call : Call}
    (hcall : m.call? py ctx db = some call) (hsees : call.SeesSame db db') :
    Noninterferent py paginator ctx (.mutation m) db db' := by
  -- the caller's portfolio is the same row on both sides, so the call is the same
  have hcall' := hcall
  rw [m.call?_of_agreeFor hagree] at hcall'
  have hsubmit := call.submit_dependsOn py ctx.channel db db' hsees
  constructor
  · change (m.handle py ctx db).1 = (m.handle py ctx db').1
    rw [Mutation.handle_of_call?_eq_some hcall, Mutation.handle_of_call?_eq_some hcall']
    unfold Tx.run
    rw [hsubmit]
  · change AgreeFor ctx.user (m.handle py ctx db).2 (m.handle py ctx db').2
    rw [Mutation.handle_of_call?_eq_some hcall, Mutation.handle_of_call?_eq_some hcall']
    dsimp only
    rw [(submit_cases py ctx.channel call db).1, (submit_cases py ctx.channel call db').1]
    by_cases hcommit : ∃ job, call.job py = .ok job ∧ Nonempty (job.Commit py db)
    · -- a commit here is a commit there, with the same writes
      obtain ⟨job, hjob, ⟨c⟩⟩ := hcommit
      have hseen := Call.job_seesSame hjob hsees
      have hnew' : existing? db' call.request.key = none := by
        rw [← existing?_of_sameKey hsees.2, existing?_eq_none_iff, ← (Call.job_eq_ok hjob).2.2]
        exact c.key_free
      have hbody' := Job.body_transfer c.body_eq hseen.1 hseen.2
      rw [c.service_eq hjob, Call.service_of_body hjob hnew' hbody']
      refine hagree.applyAll (c.keepsOwners hids) fun w hw =>
        hagree.keepsOwners ?_ (c.keepsOwners hids w hw)
      -- the row that is updated is the caller's
      rintro row rfl
      obtain ⟨locked, hlocked, hrowId, -⟩ := c.updatePortfolio_mem hw
      obtain ⟨own, hown, hcallId⟩ := Mutation.portfolioOf?_of_call? hcall
      refine ⟨own, List.mem_of_find?_eq_some hown, by simpa using List.find?_some hown, ?_⟩
      rw [hrowId, portfolio?_id hlocked, (Call.job_eq_ok hjob).2.1, hcallId]
    · -- and without one nothing changes on either side
      have hcommit' : ∀ job, call.job py = .ok job → ¬ Nonempty (job.Commit py db') :=
        fun job hjob ⟨c⟩ =>
          hcommit ⟨job, hjob, c.of_seesSame (Call.job_seesSame hjob hsees).symm⟩
      rw [Call.service_of_not_commit fun job hjob hc => hcommit ⟨job, hjob, hc⟩,
        Call.service_of_not_commit hcommit']
      exact hagree

/-- A request that finds a stored entry under its key is answered with it. -/
theorem Mutation.handle_of_existing? {m : Mutation} {call : Call} {entry : Entry}
    (hcall : m.call? py ctx db = some call) (hcheck : call.check py = .ok ())
    (hstored : existing? db call.request.key = some entry) :
    m.handle py ctx db = (⟨200, entry.body true⟩, db) := by
  have hservice := Call.service_of_existing? hcheck hstored
  rw [Mutation.handle_of_not_committed hcall (by rw [hservice]; intro _ _ h; cases h), hservice]
  rfl

/-- A request that fails a check is refused. -/
theorem Mutation.handle_of_check {m : Mutation} {call : Call} {e : Exn}
    (hcall : m.call? py ctx db = some call) (hcheck : call.check py = .error e) :
    m.handle py ctx db = (errorResponse e, db) := by
  have hservice : (call.service py).run db = (.error e, db) := Call.service_of_check hcheck
  rw [Mutation.handle_of_not_committed hcall (by rw [hservice]; intro _ _ h; cases h), hservice]
  rfl

/-- A request that finds its key free is not answered with a replay. -/
theorem Mutation.handle_status_ne {m : Mutation} {call : Call}
    (hcall : m.call? py ctx db = some call) (hfree : existing? db call.request.key = none) :
    (m.handle py ctx db).1.status ≠ 200 := by
  intro hstatus
  rw [Mutation.handle_of_call?_eq_some hcall] at hstatus
  obtain ⟨entry, hreplay⟩ := respond_status_eq_200_iff.mp hstatus
  obtain ⟨-, ⟨-, -, e, herror⟩ | ⟨-, hresult⟩⟩ := submit_cases py ctx.channel call db
  · rw [herror] at hreplay
    cases hreplay
  · rw [hresult] at hreplay
    have hends := call.service_ends py db
    rw [hreplay] at hends
    generalize ((call.service py).run db).2 = db' at hends
    cases hends with
    | replayed _ hstored => exact absurd hfree (by rw [hstored]; exact Option.some_ne_none entry)

/-- A replay is answered exactly with the entry that the lookup finds. -/
theorem Mutation.handle_eq_replay_iff {m : Mutation} {call : Call} {body : ResponseBody}
    (hcall : m.call? py ctx db = some call) (hcheck : call.check py = .ok ()) :
    (m.handle py ctx db).1 = ⟨200, body⟩ ↔
      (existing? db call.request.key).map (Entry.body true) = some body := by
  cases hstored : existing? db call.request.key with
  | none =>
      have hne := Mutation.handle_status_ne hcall hstored
      rw [Option.map_none]
      exact iff_of_false (fun h => hne (congrArg Response.status h)) nofun
  | some entry =>
      rw [Mutation.handle_of_existing? hcall hcheck hstored]
      simp

theorem Mutation.findsSame_of_response_eq {m : Mutation} (hagree : AgreeFor ctx.user db db')
    (h : (m.handle py ctx db).1 = (m.handle py ctx db').1) :
    ApiRequest.FindsSame py ctx db db' (.mutation m) := by
  intro call hcall hcheck
  have hcall' := hcall
  rw [m.call?_of_agreeFor hagree] at hcall'
  apply Option.ext
  intro body
  rw [← Mutation.handle_eq_replay_iff hcall hcheck, ← Mutation.handle_eq_replay_iff hcall' hcheck, h]

/-- As far as the request gets: no submission, a failed check, a free key, a replay. -/
theorem Mutation.noninterferent_of_findsSame (hids : (db.portfolios.map (·.id)).Nodup)
    (hagree : AgreeFor ctx.user db db') {m : Mutation}
    (h : ApiRequest.FindsSame py ctx db db' (.mutation m)) :
    Noninterferent py paginator ctx (.mutation m) db db' := by
  have hsame : m.call? py ctx db = m.call? py ctx db' := m.call?_of_agreeFor hagree
  cases hcall : m.call? py ctx db with
  | none =>
      exact noninterferent_of_unchanged hagree (Mutation.handle_of_call?_eq_none hcall)
        (Mutation.handle_of_call?_eq_none (hsame ▸ hcall))
  | some call =>
      have hcall' := hsame ▸ hcall
      cases hcheck : call.check py with
      | error e =>
          exact noninterferent_of_unchanged hagree (Mutation.handle_of_check hcall hcheck)
            (Mutation.handle_of_check hcall' hcheck)
      | ok _ =>
          have hfound := h call hcall hcheck
          cases hstored : existing? db call.request.key with
          | none =>
              -- the key is free on both sides, so both see the caller's rows and no more
              rw [hstored] at hfound
              have hstored' : existing? db' call.request.key = none :=
                Option.map_eq_none_iff.mp hfound.symm
              obtain ⟨own, hown, hcallId⟩ := Mutation.portfolioOf?_of_call? hcall
              refine noninterferent_of_seesSame hids hagree hcall ⟨?_, ?_⟩
              · rw [hcallId]
                exact hagree.agreeOn hown
              · exact sameKey_of_notMem (existing?_eq_none_iff.mp hstored)
                  (existing?_eq_none_iff.mp hstored')
          | some entry =>
              -- both sides replay
              rw [hstored] at hfound
              obtain ⟨entry', hstored', hbody⟩ := Option.map_eq_some_iff.mp hfound.symm
              refine noninterferent_of_unchanged hagree
                (Mutation.handle_of_existing? hcall hcheck hstored) ?_
              rw [← hbody]
              exact Mutation.handle_of_existing? hcall' hcheck hstored'

end

/-- A request is answered the same whatever the other tenants have, exactly if the key lookup does
not find a difference. -/
theorem noninterferent_iff_findsSame (py : Python) (paginator : Paginator) (ctx : Context)
    (request : ApiRequest) {db db' : Ledger} (hids : (db.portfolios.map (·.id)).Nodup)
    (hagree : AgreeFor ctx.user db db') :
    Noninterferent py paginator ctx request db db' ↔ request.FindsSame py ctx db db' := by
  cases request with
  | getPortfolio =>
      exact iff_of_true ⟨getPortfolioAction_of_agreeFor hagree, hagree⟩ trivial
  | listTrades page =>
      have hanswer : paginator.answer page (listTrades ctx.user db) db db =
          paginator.answer page (listTrades ctx.user db') db' db' := by
        unfold Paginator.answer
        rw [listTrades_of_agreeFor hagree]
      exact iff_of_true ⟨hanswer, hagree⟩ trivial
  | mutation m =>
      constructor
      · intro h
        exact m.findsSame_of_response_eq hagree h.response
      · intro h
        exact m.noninterferent_of_findsSame hids hagree h

/-! ## 4. Two tenants -/

def tenantContext (user : UserId) : Context where
  user := user
  cache := .always 1
  fresh := ⟨2, 2⟩
  channel := .absent

def twoTenants : Ledger where
  portfolios := [⟨1, 1, .zero⟩, ⟨2, 2, .zero⟩]
  positions := []
  trades := []
  cashTransactions := []

/-- The second tenant has deposited 1. -/
def secondDeposited : Ledger :=
  (depositOne.handle Python.default (tenantContext 2) twoTenants).2

/-- A deposit under another key does not tell the two apart. -/
theorem noninterferent_iff_findsSame_otherKey :
    Noninterferent Python.default .limitOffset (tenantContext 1)
      (.mutation (.transferCash (.parsed { direction := "CREDIT", amount := 1, idempotencyKey := 9 })))
      twoTenants secondDeposited := by
  refine (noninterferent_iff_findsSame _ _ _ _ (by decide) (by decide +kernel)).mpr ?_
  intro call hcall _
  obtain rfl := Option.some.inj hcall
  decide +kernel

/-- A deposit under the second tenant's key is taken for a replay of the second tenant's. -/
theorem not_noninterferent_foreignKey :
    AgreeFor 1 twoTenants secondDeposited ∧
      ¬ Noninterferent Python.default .limitOffset (tenantContext 1) (.mutation depositOne) twoTenants
        secondDeposited := by
  refine ⟨by decide +kernel, fun h => ?_⟩
  have hstatus := congrArg Response.status h.response
  revert hstatus
  decide +kernel

end DjasktTrading.Ledger
