import DjasktTrading.Ledger.Tables

/-!
# Commits — what a transaction that returns has read and written

One lemma per statement, and from them one for each of the two transaction bodies: a body that
returns has found the portfolio and enough cash or shares, and leaves exactly the writes named here.
Everything later about committed trades and transfers starts from these two.
-/

open Reasoning

namespace DjasktTrading.Ledger

/-- The stored cash of a portfolio. -/
def cashOf (db : Ledger) (id : Uuid) : ℚ :=
  ((portfolio? db id).map (·.cashBalance.value)).getD 0

/-- The stored quantity of a position, 0 where there is no row. -/
def heldOf (db : Ledger) (id : Uuid) (ticker : String) : ℚ :=
  ((positionsAt db id ticker).head?.map (·.quantity.value)).getD 0

theorem cashOf_eq {db : Ledger} {id : Uuid} {row : Portfolio} (h : portfolio? db id = some row) :
    cashOf db id = row.cashBalance.value := by
  simp [cashOf, h]

theorem heldOf_eq {db : Ledger} {id : Uuid} {ticker : String} {p : Position}
    (h : (positionsAt db id ticker).head? = some p) : heldOf db id ticker = p.quantity.value := by
  simp [heldOf, h]

theorem AgreeOn.cashOf {id : Uuid} {db db' : Ledger} (h : AgreeOn id db db') :
    Ledger.cashOf db id = Ledger.cashOf db' id := by
  rw [Ledger.cashOf, Ledger.cashOf, h.portfolio]

theorem AgreeOn.heldOf {id : Uuid} {db db' : Ledger} (h : AgreeOn id db db') (ticker : String) :
    Ledger.heldOf db id ticker = Ledger.heldOf db' id ticker := by
  rw [Ledger.heldOf, Ledger.heldOf, h.positionsAt]

/-! ## 1. Statements -/

section Statements

variable {db : Ledger} {ws : List Write}

theorem lockPortfolio_eq_ok_iff {id : Uuid} {row : Portfolio} :
    lockPortfolio id db = (.ok row, ws) ↔ portfolio? db id = some row ∧ ws = [] := by
  unfold lockPortfolio
  rw [Tx.read_bind]
  cases portfolio? db id with
  | none => simp [Tx.raise_ne_ok]
  | some p => simp [Tx.pure_eq_ok_iff]

theorem checkTicker_eq_ok_iff {ticker : String} {u : Unit} :
    checkTicker ticker db = (.ok u, ws) ↔ ticker.length ≤ 10 ∧ ws = [] := by
  unfold checkTicker
  rw [Tx.ofExcept_apply]
  by_cases h : ticker.length ≤ 10 <;> simp [h, eq_comm]

/-- The row that `get_or_create` has to insert, if any. -/
def openPosition (db : Ledger) (id : Uuid) (ticker : String) : List Write :=
  if positionsAt db id ticker = [] then
    [.insertPosition { portfolio := id, ticker, quantity := Numeric.zero }]
  else []

theorem getOrCreatePosition_eq_ok {id : Uuid} {ticker : String} {position : Position}
    (h : getOrCreatePosition id ticker db = (.ok position, ws)) :
    (positionsAt db id ticker).length ≤ 1 ∧ position.portfolio = id ∧ position.ticker = ticker ∧
      position.quantity.value = heldOf db id ticker ∧
      ws = openPosition db id ticker := by
  unfold getOrCreatePosition at h
  rw [Tx.read_bind] at h
  -- no row, one row, or more than `get` accepts
  rcases hat : positionsAt db id ticker with _ | ⟨p, _ | ⟨q, ps⟩⟩
  · rw [hat] at h
    obtain ⟨_, _, vs, hc, hw, rfl⟩ := Tx.bind_eq_ok_iff.mp h
    obtain ⟨us, hp, rfl⟩ := Tx.write_bind_eq_ok_iff.mp hw
    obtain ⟨rfl, rfl⟩ := Tx.pure_eq_ok_iff.mp hp
    obtain ⟨-, rfl⟩ := checkTicker_eq_ok_iff.mp hc
    simp [heldOf, openPosition, hat]
  · rw [hat] at h
    obtain ⟨rfl, rfl⟩ := Tx.pure_eq_ok_iff.mp h
    have hmem := mem_positionsAt (hat ▸ List.mem_singleton_self p : p ∈ positionsAt db id ticker)
    simp [heldOf, openPosition, hat, hmem]
  · rw [hat] at h
    exact absurd h Tx.raise_ne_ok

theorem getOrCreatePosition_eq {id : Uuid} {ticker : String}
    (hsingle : (positionsAt db id ticker).length ≤ 1) (hfits : ticker.length ≤ 10) :
    ∃ position, getOrCreatePosition id ticker db = (.ok position, openPosition db id ticker) := by
  unfold getOrCreatePosition
  rw [Tx.read_bind]
  rcases hat : positionsAt db id ticker with _ | ⟨p, _ | ⟨q, ps⟩⟩
  · rw [openPosition, if_pos hat]
    exact ⟨{ portfolio := id, ticker, quantity := Numeric.zero },
      Tx.bind_eq (a := ()) (checkTicker_eq_ok_iff.mpr ⟨hfits, rfl⟩) rfl⟩
  · rw [openPosition, if_neg (by rw [hat]; exact List.cons_ne_nil p [])]
    exact ⟨p, rfl⟩
  · rw [hat] at hsingle
    simp at hsingle

theorem savePosition_eq_ok_iff {position : PositionInstance} {u : Unit} :
    savePosition position db = (.ok u, ws) ↔
      ∃ quantity, Numeric.write position.quantity = .ok quantity ∧
        ws = [.updatePosition
          { portfolio := position.portfolio, ticker := position.ticker, quantity }] := by
  unfold savePosition
  rw [Tx.ofExcept_bind_eq_ok_iff]
  simp only [Tx.write_apply, Prod.mk.injEq, true_and, eq_comm]

theorem savePortfolio_eq_ok_iff {portfolio : PortfolioInstance} {u : Unit} :
    savePortfolio portfolio db = (.ok u, ws) ↔
      ∃ cashBalance, Numeric.writeDecimal portfolio.cashBalance = .ok cashBalance ∧
        ws = [.updatePortfolio { id := portfolio.id, user := portfolio.user, cashBalance }] := by
  unfold savePortfolio
  rw [Tx.ofExcept_bind_eq_ok_iff]
  simp only [Tx.write_apply, Prod.mk.injEq, true_and, eq_comm]

theorem createTrade_eq_ok {order : TradeOrder} {fresh : Fresh} {portfolio : PortfolioInstance}
    {trade : TradeInstance} (h : createTrade order fresh portfolio db = (.ok trade, ws)) :
    ∃ quantity price totalValue, Numeric.write order.quantity = .ok quantity ∧
      Numeric.writeDecimal order.price = .ok price ∧
      Numeric.writeDecimal order.totalValue = .ok totalValue ∧
      order.ticker.length ≤ 10 ∧ tradeByKey? db order.idempotencyKey = none ∧
      trade = { id := fresh.id, idempotencyKey := order.idempotencyKey, portfolio := portfolio.id,
                ticker := order.ticker, tradeType := order.tradeType, quantity := order.quantity,
                price := order.price, totalValue := order.totalValue, timestamp := fresh.now } ∧
      ws = [.insertTrade
        { id := fresh.id, idempotencyKey := order.idempotencyKey, portfolio := portfolio.id,
          ticker := order.ticker, tradeType := order.tradeType, quantity, price, totalValue,
          timestamp := fresh.now }] := by
  unfold createTrade at h
  -- the columns are written before the unique constraint is checked
  obtain ⟨quantity, hq, h1⟩ := Tx.ofExcept_bind_eq_ok_iff.mp h
  obtain ⟨price, hp, h2⟩ := Tx.ofExcept_bind_eq_ok_iff.mp h1
  obtain ⟨totalValue, ht, h3⟩ := Tx.ofExcept_bind_eq_ok_iff.mp h2
  obtain ⟨_, _, vs, hc, h4, rfl⟩ := Tx.bind_eq_ok_iff.mp h3
  obtain ⟨hlen, rfl⟩ := checkTicker_eq_ok_iff.mp hc
  rw [applyAll_nil, Tx.read_bind] at h4
  cases hk : tradeByKey? db order.idempotencyKey with
  | none =>
      rw [hk] at h4
      obtain ⟨us, hpure, rfl⟩ := Tx.write_bind_eq_ok_iff.mp h4
      obtain ⟨rfl, rfl⟩ := Tx.pure_eq_ok_iff.mp hpure
      exact ⟨quantity, price, totalValue, hq, hp, ht, hlen, rfl, rfl, rfl⟩
  | some t =>
      rw [hk] at h4
      exact absurd h4 Tx.raise_ne_ok

theorem createCashTransaction_eq_ok {order : TransferOrder} {fresh : Fresh}
    {portfolio : PortfolioInstance} {cashTransaction : CashTransactionInstance}
    (h : createCashTransaction order fresh portfolio db = (.ok cashTransaction, ws)) :
    ∃ amount resultingBalance, Numeric.write order.amount = .ok amount ∧
      Numeric.writeDecimal portfolio.cashBalance = .ok resultingBalance ∧
      cashTransactionByKey? db order.idempotencyKey = none ∧
      cashTransaction =
        { id := fresh.id, idempotencyKey := order.idempotencyKey, portfolio := portfolio.id,
          direction := order.direction, amount := order.amount,
          resultingBalance := portfolio.cashBalance, timestamp := fresh.now } ∧
      ws = [.insertCashTransaction
        { id := fresh.id, idempotencyKey := order.idempotencyKey, portfolio := portfolio.id,
          direction := order.direction, amount, resultingBalance, timestamp := fresh.now }] := by
  unfold createCashTransaction at h
  obtain ⟨amount, ha, h1⟩ := Tx.ofExcept_bind_eq_ok_iff.mp h
  obtain ⟨resultingBalance, hb, h2⟩ := Tx.ofExcept_bind_eq_ok_iff.mp h1
  rw [Tx.read_bind] at h2
  cases hk : cashTransactionByKey? db order.idempotencyKey with
  | none =>
      rw [hk] at h2
      obtain ⟨us, hpure, rfl⟩ := Tx.write_bind_eq_ok_iff.mp h2
      obtain ⟨rfl, rfl⟩ := Tx.pure_eq_ok_iff.mp hpure
      exact ⟨amount, resultingBalance, ha, hb, rfl, rfl, rfl⟩
  | some c =>
      rw [hk] at h2
      exact absurd h2 Tx.raise_ne_ok

end Statements

/-! ## 2. Trades -/

namespace TradeOrder

/-- The cash balance that the branch computes, before the column. -/
def newCash (py : Python) (order : TradeOrder) (cash totalValue : ℚ) : ℚ :=
  match order.tradeType with
  | .buy => py.context.round (cash - totalValue)
  | .sell => py.context.round (cash + totalValue)

/-- The position quantity that the branch computes, before the column. -/
def newHeld (py : Python) (order : TradeOrder) (held : ℚ) : ℚ :=
  match order.tradeType with
  | .buy => py.context.round (held + order.quantity)
  | .sell => py.context.round (held - order.quantity)

/-- What the branch requires of the rows it has read. -/
def Covered (order : TradeOrder) (cash held totalValue : ℚ) : Prop :=
  match order.tradeType with
  | .buy => totalValue ≤ cash
  | .sell => order.quantity ≤ held

/-- The stored position quantity that the transaction reads. -/
abbrev heldIn (order : TradeOrder) (db : Ledger) : ℚ := heldOf db order.portfolioId order.ticker

/-- The object `Trade.objects.create` returns. -/
def entry (order : TradeOrder) (fresh : Fresh) : TradeInstance where
  id := fresh.id
  idempotencyKey := order.idempotencyKey
  portfolio := order.portfolioId
  ticker := order.ticker
  tradeType := order.tradeType
  quantity := order.quantity
  price := order.price
  totalValue := order.totalValue
  timestamp := fresh.now

end TradeOrder

/-- The branch of the trade type, once the total is known to be finite. -/
theorem takePosition_eq_ok {py : Python} {order : TradeOrder} {row : Portfolio} {db : Ledger}
    {portfolio : PortfolioInstance} {position : PositionInstance} {ws : List Write}
    {totalValue : ℚ} (htotal : order.totalValue = .finite totalValue)
    (h : takePosition py order row db = (.ok (portfolio, position), ws)) :
    order.Covered row.cashBalance.value (heldOf db row.id order.ticker) totalValue ∧
      (order.tradeType = .sell → positionsAt db row.id order.ticker ≠ []) ∧
      (order.tradeType = .buy → (positionsAt db row.id order.ticker).length ≤ 1) ∧
      portfolio = { row.load with
        cashBalance := .finite (order.newCash py row.cashBalance.value totalValue) } ∧
      position = { portfolio := row.id, ticker := order.ticker,
                   quantity := order.newHeld py (heldOf db row.id order.ticker) } ∧
      ws = openPosition db row.id order.ticker := by
  unfold takePosition at h
  unfold TradeOrder.Covered TradeOrder.newCash TradeOrder.newHeld
  cases htype : order.tradeType with
  | buy =>
      -- BUY: the funds are checked before the position is looked up
      rw [htype] at h
      simp only [buy, htotal] at h
      split at h
      · exact absurd h Tx.raise_ne_ok
      · rename_i hle
        obtain ⟨p, us, vs, hp, hpure, rfl⟩ := Tx.bind_eq_ok_iff.mp h
        obtain ⟨hlen, hid, htk, hq, rfl⟩ := getOrCreatePosition_eq_ok hp
        obtain ⟨he, rfl⟩ := Tx.pure_eq_ok_iff.mp hpure
        obtain ⟨rfl, rfl⟩ := Prod.mk.inj he
        exact ⟨not_lt.mp hle, nofun, fun _ => hlen, rfl, by rw [Position.load, hid, htk, hq],
          List.append_nil _⟩
  | sell =>
      -- SELL: an existing position with enough shares
      rw [htype] at h
      simp only [sell, Tx.read_bind] at h
      cases hhead : (positionsAt db row.id order.ticker).head? with
      | none =>
          rw [hhead] at h
          exact absurd h Tx.raise_ne_ok
      | some p =>
          rw [hhead] at h
          dsimp only at h
          split at h
          · exact absurd h Tx.raise_ne_ok
          · rename_i hle
            obtain ⟨he, rfl⟩ := Tx.pure_eq_ok_iff.mp h
            obtain ⟨rfl, rfl⟩ := Prod.mk.inj he
            obtain ⟨-, hid, htk⟩ := positionsAt_head? hhead
            have howned : positionsAt db row.id order.ticker ≠ [] := by
              intro hnil
              rw [hnil] at hhead
              cases hhead
            have hheld := heldOf_eq hhead
            refine ⟨by rw [hheld]; exact not_lt.mp hle, fun _ => howned, nofun, ?_, ?_, ?_⟩
            · simp only [addDecimal, htotal]
            · rw [Position.load, hid, htk, hheld]
            · rw [openPosition, if_neg howned]

/-- A trade that can commit on `db`: the row it locks, and every value its columns take. -/
structure TradeCommit (py : Python) (order : TradeOrder) (db : Ledger) where
  row : Portfolio
  price : ℚ
  totalValue : ℚ
  cashBalance : Numeric
  held : Numeric
  storedQuantity : Numeric
  storedPrice : Numeric
  storedTotal : Numeric
  row_eq : portfolio? db order.portfolioId = some row
  price_eq : order.price = .finite price
  totalValue_eq : order.totalValue = .finite totalValue
  covered : order.Covered row.cashBalance.value (order.heldIn db) totalValue
  owned : order.tradeType = .sell → positionsAt db order.portfolioId order.ticker ≠ []
  single : order.tradeType = .buy → (positionsAt db order.portfolioId order.ticker).length ≤ 1
  ticker_fits : order.ticker.length ≤ 10
  cash_written : Numeric.write (order.newCash py row.cashBalance.value totalValue) = .ok cashBalance
  held_written : Numeric.write (order.newHeld py (order.heldIn db)) = .ok held
  quantity_written : Numeric.write order.quantity = .ok storedQuantity
  price_written : Numeric.write price = .ok storedPrice
  total_written : Numeric.write totalValue = .ok storedTotal
  key_free : tradeByKey? db order.idempotencyKey = none

namespace TradeCommit

variable {py : Python} {order : TradeOrder} {db : Ledger}

/-- The row that `Trade.objects.create` inserts. -/
def stored (c : TradeCommit py order db) (fresh : Fresh) : Trade where
  id := fresh.id
  idempotencyKey := order.idempotencyKey
  portfolio := order.portfolioId
  ticker := order.ticker
  tradeType := order.tradeType
  quantity := c.storedQuantity
  price := c.storedPrice
  totalValue := c.storedTotal
  timestamp := fresh.now

/-- The instance that the broadcast later reads. -/
def portfolio (c : TradeCommit py order db) : PortfolioInstance :=
  { c.row.load with
    cashBalance := .finite (order.newCash py c.row.cashBalance.value c.totalValue) }

def newRow (c : TradeCommit py order db) : Portfolio :=
  { id := c.row.id, user := c.row.user, cashBalance := c.cashBalance }

def newPosition (c : TradeCommit py order db) : Position :=
  { portfolio := order.portfolioId, ticker := order.ticker, quantity := c.held }

/-- The writes of the transaction, in order. -/
def writes (c : TradeCommit py order db) (fresh : Fresh) : List Write :=
  openPosition db order.portfolioId order.ticker ++
  [.updatePosition c.newPosition, .updatePortfolio c.newRow, .insertTrade (c.stored fresh)]

theorem row_id (c : TradeCommit py order db) : c.row.id = order.portfolioId := portfolio?_id c.row_eq

theorem newRow_id (c : TradeCommit py order db) : c.newRow.id = order.portfolioId := c.row_id

end TradeCommit

theorem tradeByKey?_openPosition (db : Ledger) (id : Uuid) (ticker : String) (key : Uuid) :
    tradeByKey? (applyAll db (openPosition db id ticker)) key = tradeByKey? db key := by
  unfold openPosition
  split <;> rfl

/-- A trade body that returns is a commit, and has written what the commit says. -/
theorem tradeBody_eq_ok {py : Python} {order : TradeOrder} {fresh : Fresh} {db : Ledger}
    {trade : TradeInstance} {portfolio : PortfolioInstance} {ws : List Write}
    (h : tradeBody py order fresh db = (.ok (trade, portfolio), ws)) :
    ∃ c : TradeCommit py order db,
      trade = order.entry fresh ∧ portfolio = c.portfolio ∧ ws = c.writes fresh := by
  unfold tradeBody at h
  -- peel the statements off, in the order they run
  obtain ⟨row, _, _, hlock, h1, rfl⟩ := Tx.bind_eq_ok_iff.mp h
  obtain ⟨hrow, rfl⟩ := lockPortfolio_eq_ok_iff.mp hlock
  obtain ⟨⟨pf, pos⟩, ws1, _, htake, h2, rfl⟩ := Tx.bind_eq_ok_iff.mp h1
  obtain ⟨_, ws2, _, hpos, h3, rfl⟩ := Tx.bind_eq_ok_iff.mp h2
  obtain ⟨_, ws3, _, hpf, h4, rfl⟩ := Tx.bind_eq_ok_iff.mp h3
  obtain ⟨tr, ws4, _, hcreate, hpure, rfl⟩ := Tx.bind_eq_ok_iff.mp h4
  obtain ⟨he, rfl⟩ := Tx.pure_eq_ok_iff.mp hpure
  obtain ⟨rfl, rfl⟩ := Prod.mk.inj he
  obtain ⟨held, hheld, rfl⟩ := savePosition_eq_ok_iff.mp hpos
  obtain ⟨cashBalance, hcash, rfl⟩ := savePortfolio_eq_ok_iff.mp hpf
  obtain ⟨storedQuantity, storedPrice, storedTotal, hq, hprice, htotal, hfits, hkey, rfl, rfl⟩ :=
    createTrade_eq_ok hcreate
  obtain ⟨price, hpriceEq, hprice⟩ := Numeric.writeDecimal_eq_ok_iff.mp hprice
  obtain ⟨totalValue, htotalEq, htotal⟩ := Numeric.writeDecimal_eq_ok_iff.mp htotal
  have hid := portfolio?_id hrow
  -- an infinite total does not fit its column, so the branch had a finite one
  obtain ⟨hcovered, howned, hsingle, rfl, rfl, rfl⟩ := takePosition_eq_ok htotalEq htake
  change tradeByKey? (applyAll db (openPosition db row.id order.ticker)) _ = none at hkey
  rw [tradeByKey?_openPosition] at hkey
  rw [applyAll_nil, hid] at hcovered hheld howned hsingle
  exact ⟨{ row, price, totalValue, cashBalance, held, storedQuantity, storedPrice, storedTotal,
           row_eq := hrow, price_eq := hpriceEq, totalValue_eq := htotalEq, covered := hcovered,
           owned := howned, single := hsingle, ticker_fits := hfits, cash_written := hcash,
           held_written := hheld, quantity_written := hq, price_written := hprice,
           total_written := htotal, key_free := hkey },
    by simp only [TradeOrder.entry, Portfolio.load, hid], rfl,
    by simp only [TradeCommit.writes, TradeCommit.newPosition, TradeCommit.newRow,
      TradeCommit.stored, Portfolio.load, applyAll_nil, hid, List.nil_append, List.append_nil,
      List.cons_append]⟩

namespace TradeCommit

variable {py : Python} {order : TradeOrder} {db : Ledger}

/-- The branch of the trade type goes through on what a commit requires. -/
theorem takePosition_eq (c : TradeCommit py order db) :
    ∃ r, takePosition py order c.row db = (.ok r, openPosition db c.row.id order.ticker) := by
  have hcovered := c.covered
  unfold takePosition
  unfold TradeOrder.Covered at hcovered
  cases htype : order.tradeType with
  | buy =>
      rw [htype] at hcovered
      obtain ⟨position, hposition⟩ := getOrCreatePosition_eq (c.single htype) c.ticker_fits
      rw [← c.row_id] at hposition
      simp only [buy, c.totalValue_eq, if_neg (not_lt.mpr hcovered)]
      rw [Tx.bind_apply_of_ok hposition]
      exact ⟨_, Prod.ext rfl (List.append_nil _)⟩
  | sell =>
      rw [htype] at hcovered
      have howned := c.owned htype
      rw [← c.row_id] at howned
      obtain ⟨p, ps, hat⟩ := List.exists_cons_of_ne_nil howned
      have hhead : (positionsAt db c.row.id order.ticker).head? = some p := by rw [hat]; rfl
      have hle : order.quantity ≤ p.quantity.value := by
        rwa [TradeOrder.heldIn, ← c.row_id, heldOf_eq hhead] at hcovered
      simp only [sell, Tx.read_bind, hhead, if_neg (not_lt.mpr hle), openPosition, if_neg howned]
      exact ⟨_, rfl⟩

theorem createTrade_eq (c : TradeCommit py order db) (fresh : Fresh)
    {portfolio : PortfolioInstance} (hid : portfolio.id = order.portfolioId) {db' : Ledger}
    (hfree : tradeByKey? db' order.idempotencyKey = none) :
    createTrade order fresh portfolio db' =
      (.ok (order.entry fresh), [.insertTrade (c.stored fresh)]) := by
  unfold createTrade
  rw [c.quantity_written, Tx.ofExcept_bind_ok,
    Numeric.writeDecimal_eq_ok_iff.mpr ⟨_, c.price_eq, c.price_written⟩, Tx.ofExcept_bind_ok,
    Numeric.writeDecimal_eq_ok_iff.mpr ⟨_, c.totalValue_eq, c.total_written⟩, Tx.ofExcept_bind_ok]
  apply Tx.bind_eq (a := ()) (checkTicker_eq_ok_iff.mpr ⟨c.ticker_fits, rfl⟩)
  rw [applyAll_nil, Tx.read_bind, hfree, hid]
  rfl

/-- What a commit requires is enough for the trade body to return. -/
theorem tradeBody_eq (c : TradeCommit py order db) (fresh : Fresh) :
    tradeBody py order fresh db = (.ok (order.entry fresh, c.portfolio), c.writes fresh) := by
  obtain ⟨⟨portfolio, position⟩, htake⟩ := c.takePosition_eq
  obtain ⟨-, -, -, hportfolio, hposition, -⟩ := takePosition_eq_ok c.totalValue_eq htake
  rw [c.row_id] at htake hposition
  -- what a save writes depends on the instance alone
  have hheld : ∀ db', savePosition position db' = (.ok (), [.updatePosition c.newPosition]) :=
    fun db' => savePosition_eq_ok_iff.mpr ⟨c.held, by rw [hposition]; exact c.held_written,
      by rw [hposition]; rfl⟩
  have hcash : ∀ db', savePortfolio portfolio db' = (.ok (), [.updatePortfolio c.newRow]) :=
    fun db' => savePortfolio_eq_ok_iff.mpr ⟨c.cashBalance, by rw [hportfolio]; exact c.cash_written,
      by rw [hportfolio]; rfl⟩
  have hcreate : ∀ db', tradeByKey? db' order.idempotencyKey = none →
      createTrade order fresh portfolio db' =
        (.ok (order.entry fresh), [.insertTrade (c.stored fresh)]) :=
    fun _ => c.createTrade_eq fresh (by rw [hportfolio]; exact c.row_id)
  have hfree := (tradeByKey?_openPosition db order.portfolioId order.ticker _).trans c.key_free
  rw [hportfolio] at hcash hcreate htake
  -- one statement after the other, each with its writes
  unfold tradeBody
  change _ = (_, [] ++ (openPosition db order.portfolioId order.ticker ++
    ([.updatePosition c.newPosition] ++ ([.updatePortfolio c.newRow] ++
      ([.insertTrade (c.stored fresh)] ++ [])))))
  refine Tx.bind_eq (lockPortfolio_eq_ok_iff.mpr ⟨c.row_eq, rfl⟩) ?_
  refine Tx.bind_eq htake ?_
  refine Tx.bind_eq (hheld _) ?_
  refine Tx.bind_eq (hcash _) ?_
  exact Tx.bind_eq (hcreate _ hfree) (Tx.pure_apply _ _)

end TradeCommit

/-! ## 3. What a committed trade changes -/

theorem positionsAt_openPosition_ne_nil (db : Ledger) (id : Uuid) (ticker : String) :
    positionsAt (applyAll db (openPosition db id ticker)) id ticker ≠ [] := by
  unfold openPosition
  split
  · rw [applyAll_cons, applyAll_nil, positionsAt_insertPosition, if_pos ⟨rfl, rfl⟩]
    exact List.append_ne_nil_of_right_ne_nil _ (List.cons_ne_nil _ _)
  · assumption

theorem positionsAt_openPosition_of_ne {ticker ticker' : String} (hne : ticker ≠ ticker')
    (db : Ledger) (id : Uuid) :
    positionsAt (applyAll db (openPosition db id ticker)) id ticker' = positionsAt db id ticker' := by
  unfold openPosition
  split
  · rw [applyAll_cons, applyAll_nil, positionsAt_insertPosition, if_neg (fun h => hne h.2),
      List.append_nil]
  · rfl

theorem heldOf_updatePosition {db : Ledger} (row : Position)
    (h : positionsAt db row.portfolio row.ticker ≠ []) :
    heldOf (Writable.apply db (Write.updatePosition row)) row.portfolio row.ticker =
      row.quantity.value := by
  apply heldOf_eq
  rw [positionsAt_updatePosition]
  rcases hat : positionsAt db row.portfolio row.ticker with _ | ⟨p, ps⟩
  · exact absurd hat h
  · have hp := mem_positionsAt (hat ▸ List.mem_cons_self : p ∈ positionsAt db row.portfolio row.ticker)
    rw [List.map_cons, List.head?_cons, if_pos hp.2]

theorem heldOf_updatePosition_of_ne (row : Position) {ticker : String} (hne : row.ticker ≠ ticker)
    (db : Ledger) (id : Uuid) :
    heldOf (Writable.apply db (Write.updatePosition row)) id ticker = heldOf db id ticker := by
  have hmap : positionsAt (Writable.apply db (Write.updatePosition row)) id ticker =
      positionsAt db id ticker := by
    rw [positionsAt_updatePosition]
    conv_rhs => rw [← List.map_id (positionsAt db id ticker)]
    apply List.map_congr_left
    intro p hp
    have htk := (mem_positionsAt hp).2.2
    rw [if_neg (fun h => hne (h.2.symm.trans htk)), id_eq]
  rw [heldOf, heldOf, hmap]

namespace TradeCommit

variable {py : Python} {order : TradeOrder} {db : Ledger}

/-- The database after the commit. -/
def after (c : TradeCommit py order db) (fresh : Fresh) : Ledger := applyAll db (c.writes fresh)

theorem after_eq (c : TradeCommit py order db) (fresh : Fresh) :
    c.after fresh = Writable.apply (Writable.apply (Writable.apply
      (applyAll db (openPosition db order.portfolioId order.ticker))
      (Write.updatePosition c.newPosition)) (Write.updatePortfolio c.newRow))
      (Write.insertTrade (c.stored fresh)) := by
  rw [after, writes, applyAll_append]
  rfl

theorem writes_portfolio (c : TradeCommit py order db) (fresh : Fresh) :
    ∀ w ∈ c.writes fresh, w.portfolio = order.portfolioId := by
  intro w hw
  rcases List.mem_append.mp hw with hw | hw
  · unfold openPosition at hw
    split at hw
    · rw [List.mem_singleton.mp hw]
      rfl
    · cases hw
  · simp only [List.mem_cons, List.not_mem_nil, or_false] at hw
    rcases hw with rfl | rfl | rfl
    · rfl
    · exact c.row_id
    · rfl

theorem portfolio?_openPosition (db : Ledger) (id : Uuid) (ticker : String) (id' : Uuid) :
    portfolio? (applyAll db (openPosition db id ticker)) id' = portfolio? db id' := by
  unfold openPosition
  split <;> rfl

theorem portfolio?_after (c : TradeCommit py order db) (fresh : Fresh) :
    portfolio? (c.after fresh) order.portfolioId = some c.newRow := by
  rw [c.after_eq fresh, portfolio?_insertTrade, portfolio?_updatePortfolio, if_pos c.newRow_id,
    portfolio?_updatePosition, portfolio?_openPosition, c.row_eq, Option.map_some]

theorem cashOf_after (c : TradeCommit py order db) (fresh : Fresh) :
    cashOf (c.after fresh) order.portfolioId = c.cashBalance.value :=
  cashOf_eq (c.portfolio?_after fresh)

theorem heldOf_after (c : TradeCommit py order db) (fresh : Fresh) :
    heldOf (c.after fresh) order.portfolioId order.ticker = c.held.value := by
  rw [c.after_eq fresh]
  exact heldOf_updatePosition c.newPosition
    (positionsAt_openPosition_ne_nil db order.portfolioId order.ticker)

theorem heldOf_after_of_ne (c : TradeCommit py order db) (fresh : Fresh) {ticker : String}
    (hne : order.ticker ≠ ticker) :
    heldOf (c.after fresh) order.portfolioId ticker = heldOf db order.portfolioId ticker := by
  rw [c.after_eq fresh]
  change heldOf (Writable.apply (applyAll db (openPosition db order.portfolioId order.ticker))
    (Write.updatePosition c.newPosition)) order.portfolioId ticker = _
  rw [heldOf_updatePosition_of_ne c.newPosition hne, heldOf, heldOf,
    positionsAt_openPosition_of_ne hne]

theorem trades_after (c : TradeCommit py order db) (fresh : Fresh) :
    (c.after fresh).trades = db.trades ++ [c.stored fresh] := by
  rw [c.after_eq fresh, openPosition]
  split <;> rfl

theorem cashTransactions_after (c : TradeCommit py order db) (fresh : Fresh) :
    (c.after fresh).cashTransactions = db.cashTransactions := by
  rw [c.after_eq fresh, openPosition]
  split <;> rfl

end TradeCommit

/-! ## 4. Transfers -/

/-- The cash balance that the branch computes, before the column. -/
def TransferOrder.newCash (py : Python) (order : TransferOrder) (cash : ℚ) : ℚ :=
  match order.direction with
  | .credit => py.context.round (cash + order.amount)
  | .debit => py.context.round (cash - order.amount)

def TransferOrder.entry (order : TransferOrder) (fresh : Fresh) (resultingBalance : ℚ) :
    CashTransactionInstance where
  id := fresh.id
  idempotencyKey := order.idempotencyKey
  portfolio := order.portfolioId
  direction := order.direction
  amount := order.amount
  resultingBalance := .finite resultingBalance
  timestamp := fresh.now

/-- A transfer that can commit on `db`: the row it locks, and every value its columns take. -/
structure TransferCommit (py : Python) (order : TransferOrder) (db : Ledger) where
  row : Portfolio
  cashBalance : Numeric
  storedAmount : Numeric
  row_eq : portfolio? db order.portfolioId = some row
  covered : order.direction = .debit → order.amount ≤ row.cashBalance.value
  cash_written : Numeric.write (order.newCash py row.cashBalance.value) = .ok cashBalance
  amount_written : Numeric.write order.amount = .ok storedAmount
  key_free : cashTransactionByKey? db order.idempotencyKey = none

namespace TransferCommit

variable {py : Python} {order : TransferOrder} {db : Ledger}

def stored (c : TransferCommit py order db) (fresh : Fresh) : CashTransaction where
  id := fresh.id
  idempotencyKey := order.idempotencyKey
  portfolio := order.portfolioId
  direction := order.direction
  amount := c.storedAmount
  resultingBalance := c.cashBalance
  timestamp := fresh.now

def portfolio (c : TransferCommit py order db) : PortfolioInstance :=
  { c.row.load with cashBalance := .finite (order.newCash py c.row.cashBalance.value) }

def entry (c : TransferCommit py order db) (fresh : Fresh) : CashTransactionInstance :=
  order.entry fresh (order.newCash py c.row.cashBalance.value)

def newRow (c : TransferCommit py order db) : Portfolio :=
  { id := c.row.id, user := c.row.user, cashBalance := c.cashBalance }

def writes (c : TransferCommit py order db) (fresh : Fresh) : List Write :=
  [.updatePortfolio c.newRow, .insertCashTransaction (c.stored fresh)]

def after (c : TransferCommit py order db) (fresh : Fresh) : Ledger := applyAll db (c.writes fresh)

theorem row_id (c : TransferCommit py order db) : c.row.id = order.portfolioId :=
  portfolio?_id c.row_eq

theorem newRow_id (c : TransferCommit py order db) : c.newRow.id = order.portfolioId := c.row_id

theorem writes_portfolio (c : TransferCommit py order db) (fresh : Fresh) :
    ∀ w ∈ c.writes fresh, w.portfolio = order.portfolioId := by
  intro w hw
  simp only [writes, List.mem_cons, List.not_mem_nil, or_false] at hw
  rcases hw with rfl | rfl
  · exact c.row_id
  · rfl

theorem portfolio?_after (c : TransferCommit py order db) (fresh : Fresh) :
    portfolio? (c.after fresh) order.portfolioId = some c.newRow := by
  change portfolio? (Writable.apply db (Write.updatePortfolio c.newRow)) order.portfolioId = _
  rw [portfolio?_updatePortfolio, if_pos c.newRow_id, c.row_eq, Option.map_some]

theorem cashOf_after (c : TransferCommit py order db) (fresh : Fresh) :
    cashOf (c.after fresh) order.portfolioId = c.cashBalance.value :=
  cashOf_eq (c.portfolio?_after fresh)

theorem trades_after (c : TransferCommit py order db) (fresh : Fresh) :
    (c.after fresh).trades = db.trades := rfl

theorem cashTransactions_after (c : TransferCommit py order db) (fresh : Fresh) :
    (c.after fresh).cashTransactions = db.cashTransactions ++ [c.stored fresh] := rfl

end TransferCommit

/-- The branch of the direction. -/
theorem moveCash_eq_ok {py : Python} {order : TransferOrder} {row : Portfolio} {db : Ledger}
    {portfolio : PortfolioInstance} {ws : List Write}
    (h : moveCash py order row db = (.ok portfolio, ws)) :
    (order.direction = .debit → order.amount ≤ row.cashBalance.value) ∧
      portfolio = { row.load with
        cashBalance := .finite (order.newCash py row.cashBalance.value) } ∧
      ws = [] := by
  unfold moveCash at h
  unfold TransferOrder.newCash
  cases hdir : order.direction with
  | credit =>
      rw [hdir] at h
      obtain ⟨rfl, rfl⟩ := Tx.pure_eq_ok_iff.mp h
      exact ⟨nofun, rfl, rfl⟩
  | debit =>
      -- only a withdrawal can be refused
      rw [hdir] at h
      dsimp only at h
      split at h
      · exact absurd h Tx.raise_ne_ok
      · rename_i hle
        obtain ⟨rfl, rfl⟩ := Tx.pure_eq_ok_iff.mp h
        exact ⟨fun _ => not_lt.mp hle, rfl, rfl⟩

/-- A transfer body that returns is a commit, and has written what the commit says. -/
theorem transferBody_eq_ok {py : Python} {order : TransferOrder} {fresh : Fresh} {db : Ledger}
    {cashTransaction : CashTransactionInstance} {portfolio : PortfolioInstance} {ws : List Write}
    (h : transferBody py order fresh db = (.ok (cashTransaction, portfolio), ws)) :
    ∃ c : TransferCommit py order db,
      cashTransaction = c.entry fresh ∧ portfolio = c.portfolio ∧ ws = c.writes fresh := by
  unfold transferBody at h
  obtain ⟨row, _, _, hlock, h1, rfl⟩ := Tx.bind_eq_ok_iff.mp h
  obtain ⟨hrow, rfl⟩ := lockPortfolio_eq_ok_iff.mp hlock
  obtain ⟨pf, ws1, _, hmove, h2, rfl⟩ := Tx.bind_eq_ok_iff.mp h1
  obtain ⟨_, ws2, _, hpf, h3, rfl⟩ := Tx.bind_eq_ok_iff.mp h2
  obtain ⟨ct, ws3, _, hcreate, hpure, rfl⟩ := Tx.bind_eq_ok_iff.mp h3
  obtain ⟨he, rfl⟩ := Tx.pure_eq_ok_iff.mp hpure
  obtain ⟨rfl, rfl⟩ := Prod.mk.inj he
  obtain ⟨cashBalance, hcash, rfl⟩ := savePortfolio_eq_ok_iff.mp hpf
  obtain ⟨storedAmount, balance, hamount, hbalance, hkey, rfl, rfl⟩ :=
    createCashTransaction_eq_ok hcreate
  have hid := portfolio?_id hrow
  -- the balance that is recorded is the one that was saved
  obtain rfl : balance = cashBalance := Except.ok.inj (hbalance.symm.trans hcash)
  obtain ⟨hcovered, rfl, rfl⟩ := moveCash_eq_ok hmove
  exact ⟨{ row, cashBalance := balance, storedAmount, row_eq := hrow, covered := hcovered,
           cash_written := hcash, amount_written := hamount, key_free := hkey },
    by simp only [TransferCommit.entry, TransferOrder.entry, Portfolio.load, hid], rfl,
    by simp only [TransferCommit.writes, TransferCommit.newRow, TransferCommit.stored,
      Portfolio.load, hid, List.nil_append, List.append_nil, List.cons_append]⟩

/-- What a commit requires is enough for the transfer body to return. -/
theorem TransferCommit.transferBody_eq {py : Python} {order : TransferOrder} {db : Ledger}
    (c : TransferCommit py order db) (fresh : Fresh) :
    transferBody py order fresh db = (.ok (c.entry fresh, c.portfolio), c.writes fresh) := by
  have hmove : ∀ db', moveCash py order c.row db' = (.ok c.portfolio, []) := by
    intro db'
    unfold moveCash portfolio TransferOrder.newCash
    cases hdir : order.direction with
    | credit => rfl
    | debit =>
        dsimp only
        rw [if_neg (not_lt.mpr (c.covered hdir))]
        rfl
  have hcash : ∀ db', savePortfolio c.portfolio db' = (.ok (), [.updatePortfolio c.newRow]) :=
    fun db' => savePortfolio_eq_ok_iff.mpr ⟨c.cashBalance, c.cash_written, rfl⟩
  have hcreate : createCashTransaction order fresh c.portfolio
      (applyAll db [.updatePortfolio c.newRow]) =
        (.ok (c.entry fresh), [.insertCashTransaction (c.stored fresh)]) := by
    unfold createCashTransaction
    have hbalance : Numeric.writeDecimal c.portfolio.cashBalance = .ok c.cashBalance := c.cash_written
    have hfree : cashTransactionByKey? (applyAll db [.updatePortfolio c.newRow])
        order.idempotencyKey = none := c.key_free
    have hid : c.portfolio.id = order.portfolioId := c.row_id
    rw [c.amount_written, Tx.ofExcept_bind_ok, hbalance, Tx.ofExcept_bind_ok, Tx.read_bind, hfree,
      hid]
    rfl
  unfold transferBody
  change _ = (_, [] ++ ([] ++ ([Write.updatePortfolio c.newRow] ++
    ([.insertCashTransaction (c.stored fresh)] ++ []))))
  refine Tx.bind_eq (lockPortfolio_eq_ok_iff.mpr ⟨c.row_eq, rfl⟩) ?_
  refine Tx.bind_eq (hmove _) ?_
  refine Tx.bind_eq (hcash _) ?_
  exact Tx.bind_eq hcreate (Tx.pure_apply _ _)

/-! ## 5. The service calls -/

theorem checkTrade_eq_ok {py : Python} {req : TradeRequest} {tradeType : TradeType}
    (h : checkTrade py req = .ok tradeType) :
    TradeType.ofValue? req.tradeType = some tradeType ∧ 0 < req.quantity := by
  unfold checkTrade at h
  split at h
  · cases h
  · rename_i htype
    split at h
    · cases h
    · rename_i hq
      exact ⟨Except.ok.inj h ▸ htype, not_le.mp hq⟩

theorem checkTransfer_eq_ok {py : Python} {req : TransferRequest} {order : TransferOrder}
    (h : checkTransfer py req = .ok order) :
    ∃ direction, Direction.ofValue? req.direction = some direction ∧ 0 < req.amount ∧
      order = { portfolioId := req.portfolioId, direction, amount := req.amount,
                idempotencyKey := req.idempotencyKey } := by
  unfold checkTransfer at h
  split at h
  · cases h
  · rename_i direction hdir
    split at h
    · cases h
    · rename_i ha
      exact ⟨direction, hdir, not_le.mp ha, (Except.ok.inj h).symm⟩

/-- What a call left behind: nothing at all, or a whole commit. -/
inductive Outcome {α : Type} (r : Except Exn (Result α)) (db db' : Ledger)
    (Committed : α → PortfolioInstance → Ledger → Prop) : Prop where
  | unchanged (nothing : ∀ entry portfolio, r ≠ .ok (.committed entry portfolio)) (same : db' = db)
  | committed (entry : α) (portfolio : PortfolioInstance) (result : r = .ok (.committed entry portfolio))
      (spec : Committed entry portfolio db')

theorem Outcome.of_error {α : Type} {db : Ledger} {Committed : α → PortfolioInstance → Ledger → Prop}
    (e : Exn) : Outcome (.error e) db db Committed := by
  refine .unchanged (fun entry portfolio heq => ?_) rfl
  cases heq

theorem Outcome.of_replay {α : Type} {db : Ledger} {Committed : α → PortfolioInstance → Ledger → Prop}
    (entry : α) : Outcome (.ok (.replay entry)) db db Committed := by
  refine .unchanged (fun entry portfolio heq => ?_) rfl
  cases heq

/-- `execute_trade` either changes nothing or commits one trade of the order it priced. -/
theorem executeTrade_outcome (py : Python) (cache : PriceCache) (fresh : Fresh) (req : TradeRequest)
    (db : Ledger) :
    Outcome ((executeTrade py cache fresh req).run db).1 db ((executeTrade py cache fresh req).run db).2
      fun trade portfolio db' => ∃ tradeType order, checkTrade py req = .ok tradeType ∧
        priceTrade py cache req tradeType = .ok order ∧
        ∃ c : TradeCommit py order db,
          trade = order.entry fresh ∧ portfolio = c.portfolio ∧ db' = c.after fresh := by
  unfold Tx.run executeTrade
  rcases hcheck : checkTrade py req with e | tradeType
  · rw [Tx.ofExcept_bind_error]
    exact .of_error e
  rw [Tx.ofExcept_bind_ok, Tx.read_bind]
  cases hkey : tradeByKey? db req.idempotencyKey with
  | none =>
      dsimp only
      rcases horder : priceTrade py cache req tradeType with e | order
      · rw [Tx.ofExcept_bind_error]
        exact .of_error e
      rw [Tx.ofExcept_bind_ok]
      rcases hbody : tradeBody py order fresh db with ⟨e | ⟨trade, portfolio⟩, ws⟩
      · rw [Tx.bind_apply_of_error (Tx.atomic_of_error hbody)]
        exact .of_error e
      · obtain ⟨c, rfl, rfl, rfl⟩ := tradeBody_eq_ok hbody
        rw [Tx.bind_apply_of_ok (Tx.atomic_eq_ok_iff.mpr hbody)]
        exact .committed _ _ rfl ⟨tradeType, order, rfl, horder, c, rfl, rfl,
          congrArg (applyAll db) (List.append_nil _)⟩
  | some existing => exact .of_replay existing.load

end DjasktTrading.Ledger
