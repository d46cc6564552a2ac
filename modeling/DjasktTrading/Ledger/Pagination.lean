import DjasktTrading.Reasoning.Pages
import DjasktTrading.Ledger.History
import DjasktTrading.Ledger.Timeline
import DjasktTrading.Realtime.Snapshots

/-!
# Pagination — a trade history read page by page

`GET /trades/` counts its pages from the newest trade.  Trades commit while a client turns pages, and
every page is counted anew.  A page comes of three queries, for the portfolio, for the entries and for
their number, and trades commit between these, too.
-/

open Reasoning

namespace DjasktTrading.Ledger

/-! ## 1. The history as a list -/

/-- All that `list_trades` pages through. -/
def tradeHistory (db : Ledger) (user : UserId) : List Trade := listTrades user db db

theorem length_tradeHistory {db : Ledger} {user : UserId} {portfolio : Portfolio}
    (h : portfolioOf? db user = some portfolio) :
    (tradeHistory db user).length = (tradesOf db portfolio.id).length := by
  simp only [tradeHistory, listTrades, h]
  exact List.length_mergeSort _

/-- A query for the portfolio that was there before is a query for the one that is there now. -/
theorem listTrades_of_extends {db db' : Ledger} (h : Extends db db') (user : UserId) :
    listTrades user db db' = tradeHistory db' user := by
  have howner := h.portfolioOf? user
  unfold tradeHistory listTrades
  cases hrow : portfolioOf? db user with
  | none =>
      rw [hrow] at howner
      rw [Option.map_eq_none_iff.mp howner]
  | some row =>
      rw [hrow] at howner
      obtain ⟨row', hrow', hid⟩ := Option.map_eq_some_iff.mp howner
      rw [hrow']
      exact congrArg (fun id => newestFirst (tradesOf db' id)) hid.symm

/-- Where entries are stored in the order of their timestamps, newest first is the other way round. -/
theorem newestFirst_eq_reverse {db : Ledger} {id : Uuid} (h : InOrder db id) :
    newestFirst (tradesOf db id) = (tradesOf db id).reverse := by
  have hperm : (newestFirst (tradesOf db id)).Perm (tradesOf db id).reverse :=
    (List.mergeSort_perm _ _).trans (List.reverse_perm _).symm
  have hreverse : (tradesOf db id).reverse.Pairwise fun t u => u.timestamp ≤ t.timestamp :=
    List.pairwise_reverse.mpr (h.trades.imp le_of_lt)
  -- no two of the trades have one timestamp
  have hapart : ((tradesOf db id).map (·.timestamp)).Nodup :=
    List.pairwise_map.mpr (h.trades.imp ne_of_lt)
  refine hperm.eq_of_pairwise ?_ (Realtime.newestFirst_pairwise _) hreverse
  intro t u ht hu htu hut
  exact List.inj_on_of_nodup_map hapart (List.mem_mergeSort.mp ht) (List.mem_reverse.mp hu)
    (le_antisymm hut htu)

/-- From one state to a later one a history grows at its front. -/
theorem tradeHistory_suffix {db db' : Ledger} (h : Extends db db') (hdb : ∀ id, InOrder db id)
    (hdb' : ∀ id, InOrder db' id) (user : UserId) : tradeHistory db user <:+ tradeHistory db' user := by
  have howner := h.portfolioOf? user
  cases hrow : portfolioOf? db user with
  | none => simp [tradeHistory, listTrades, hrow]
  | some row =>
      rw [hrow] at howner
      obtain ⟨row', hrow', hid⟩ := Option.map_eq_some_iff.mp howner
      have htrades : tradesOf db row.id <+: tradesOf db' row.id := h.trades.filter _
      simp only [tradeHistory, listTrades, hrow, hrow', hid]
      rw [newestFirst_eq_reverse (hdb _), newestFirst_eq_reverse (hdb' _)]
      exact List.reverse_suffix.mpr htrades

/-! ## 2. Walks -/

/-- What `LimitOffsetPagination` does: the entries from the offset on, as many as the limit says, and
the number of all. -/
structure Paginator.LimitOffset (paginator : Paginator) : Prop where
  items : ∀ page trades, paginator.items page trades = (trades.drop page.offset).take page.limit
  count : ∀ page trades, paginator.count page trades = trades.length

/-- A client turns pages of `limit` trades until the answer says that there are no more.  Each query is
made after some number of the events of a run; the two for the entries and their number come in either
order. -/
structure PageWalk (py : Python) (paginator : Paginator) (start : Clocked) (es : List ClockedEvent)
    (user : UserId) (limit last : ℕ) where
  askedAt : ℕ → ℕ
  itemsAt : ℕ → ℕ
  countAt : ℕ → ℕ
  items : ℕ → List TradeHistoryItem
  count : ℕ → ℕ
  asks : ∀ k ≤ last, askedAt k ≤ itemsAt k ∧ askedAt k ≤ countAt k
  turns : ∀ k < last, itemsAt k ≤ askedAt (k + 1) ∧ countAt k ≤ askedAt (k + 1)
  answers : ∀ k ≤ last,
    paginator.answer ⟨limit, k * limit⟩
        (listTrades user (stateAt (clockedStep py) start es (askedAt k)).world.db)
        (stateAt (clockedStep py) start es (itemsAt k)).world.db
        (stateAt (clockedStep py) start es (countAt k)).world.db =
      ⟨200, .trades (items k) (count k)⟩
  ends : count last ≤ (last + 1) * limit

/-- The moments of a clocked run, from its start on. -/
theorem Clocked.extends_of_run {py : Python} {start : Ledger} {lastReading : Timestamp}
    (hids : (start.portfolios.map (·.id)).Nodup) {c c' : Clocked} {es fs : List ClockedEvent}
    (hbefore : Run (clockedStep py) (.initial lastReading start) es c)
    (hrun : Run (clockedStep py) c fs c') : Extends c.world.db c'.world.db := by
  obtain ⟨gs, hgs⟩ := Clocked.run_world hbefore
  obtain ⟨hs, hhs⟩ := Clocked.run_world hrun
  obtain ⟨later, -, hjobs⟩ := exists_run_between hgs hhs
  refine (grows_of_run ?_ hjobs).rows
  exact (grows_of_run hids (Inv.of_run hgs).serial).rows.ids ▸ hids

namespace PageWalk

variable {py : Python} {paginator : Paginator} {start : Clocked} {es : List ClockedEvent} {user : UserId}
  {limit last : ℕ} (walk : PageWalk py paginator start es user limit last)

/-- The history after the first `n` events. -/
def history (_ : PageWalk py paginator start es user limit last) (n : ℕ) : List Trade :=
  tradeHistory (stateAt (clockedStep py) start es n).world.db user

/-- When the last query is made. -/
def endedAt : ℕ := max (walk.itemsAt last) (walk.countAt last)

theorem itemsAt_mono {j k : ℕ} (hjk : j ≤ k) (hk : k ≤ last) : walk.itemsAt j ≤ walk.itemsAt k := by
  induction k, hjk using Nat.le_induction with
  | base => exact le_rfl
  | succ k hjk ih =>
      exact (ih (by omega)).trans ((walk.turns k (by omega)).1.trans (walk.asks (k + 1) hk).1)

theorem askedAt_zero_le {k : ℕ} (hk : k ≤ last) :
    walk.askedAt 0 ≤ walk.itemsAt k ∧ walk.askedAt 0 ≤ walk.countAt k := by
  have hfirst := (walk.asks 0 (Nat.zero_le _)).1
  cases k with
  | zero => exact walk.asks 0 hk
  | succ k =>
      have hitems : walk.askedAt 0 ≤ walk.askedAt (k + 1) :=
        (hfirst.trans (walk.itemsAt_mono (Nat.zero_le k) (by omega))).trans (walk.turns k (by omega)).1
      exact ⟨hitems.trans (walk.asks (k + 1) hk).1, hitems.trans (walk.asks (k + 1) hk).2⟩

/-- What the pages of a walk have shown: everything the history had when the first page was read, but
for as many trades at most as were committed from the last count to the last entries; nothing but
trades of the history; and, if nothing has been added, the history once. -/
structure Complete : Prop where
  shown : ∃ late : List Trade,
    late.length ≤ (walk.history (walk.itemsAt last)).length - (walk.history (walk.countAt last)).length ∧
      ∀ t ∈ walk.history (walk.itemsAt 0), (∃ k ≤ last, t.historyItem ∈ walk.items k) ∨ t ∈ late
  stored : ∀ k ≤ last, ∀ item ∈ walk.items k, ∃ t ∈ walk.history (walk.itemsAt last),
    t.historyItem = item
  once : walk.history walk.endedAt = walk.history (walk.askedAt 0) →
    (List.range (last + 1)).flatMap walk.items =
      (walk.history (walk.askedAt 0)).map Trade.historyItem

end PageWalk

section

variable {py : Python} {paginator : Paginator} {start : Ledger} {lastReading : Timestamp}
  {es : List ClockedEvent} {c : Clocked} {user : UserId} {limit last : ℕ}
  (hids : (start.portfolios.map (·.id)).Nodup)
  (hrun : Run (clockedStep py) (.initial lastReading start) es c)
  (walk : PageWalk py paginator (.initial lastReading start) es user limit last)

include hids hrun in
theorem extends_of_le {m n : ℕ} (hmn : m ≤ n) :
    Extends (stateAt (clockedStep py) (.initial lastReading start) es m).world.db
      (stateAt (clockedStep py) (.initial lastReading start) es n).world.db :=
  Clocked.extends_of_run hids (hrun.stateAt m) (hrun.stateAt_stateAt hmn)

include hids hrun in
theorem PageWalk.items_eq (hpaginator : paginator.LimitOffset) {k : ℕ} (hk : k ≤ last) :
    walk.items k = (page limit k (walk.history (walk.itemsAt k))).map Trade.historyItem ∧
      walk.count k = (walk.history (walk.countAt k)).length := by
  obtain ⟨hitems, hcount⟩ := walk.asks k hk
  have hanswer := walk.answers k hk
  unfold Paginator.answer at hanswer
  rw [listTrades_of_extends (extends_of_le hids hrun hitems),
    listTrades_of_extends (extends_of_le hids hrun hcount), hpaginator.items, hpaginator.count]
    at hanswer
  simp only [Response.mk.injEq, ResponseBody.trades.injEq, true_and] at hanswer
  exact ⟨hanswer.1.symm, hanswer.2.symm⟩

variable (hpast : ∀ id, Stamped start id (· ≤ lastReading)) (hordered : ∀ id, InOrder start id)

include hids hrun hpast hordered in
theorem PageWalk.history_suffix {m n : ℕ} (hmn : m ≤ n) : walk.history m <:+ walk.history n :=
  tradeHistory_suffix (extends_of_le hids hrun hmn)
    (ClockInv.of_run hpast hordered (hrun.stateAt m)).ordered
    (ClockInv.of_run hpast hordered (hrun.stateAt n)).ordered user

include hids hrun hpast hordered in
/-- **Turning pages.**  Whatever commits meanwhile, a client that follows the pages to the end has been
shown every trade that was there when it read the first page, but for as many at most as were committed
between the last two queries; if the history has not changed, it has been shown each once, newest
first. -/
theorem pages_complete (hpaginator : paginator.LimitOffset) : walk.Complete := by
  have hgrow {m n : ℕ} (hmn : m ≤ n) : walk.history m <:+ walk.history n :=
    walk.history_suffix hids hrun hpast hordered hmn
  have hitems {k : ℕ} (hk : k ≤ last) := (walk.items_eq hids hrun hpaginator hk).1
  have hend : (walk.history (walk.countAt last)).length ≤ (last + 1) * limit := by
    rw [← (walk.items_eq hids hrun hpaginator le_rfl).2]
    exact walk.ends
  constructor
  · -- what is not shown lies behind the last window
    refine ⟨(walk.history (walk.itemsAt last)).drop ((last + 1) * limit), ?_, fun t ht => ?_⟩
    · rw [List.length_drop]
      exact Nat.sub_le_sub_left hend _
    rcases exists_page_or_behind (fun k => walk.history (walk.itemsAt k))
        (fun k hk => hgrow (walk.itemsAt_mono (Nat.le_succ k) hk)) ht with ⟨k, hk, hmem⟩ | hbehind
    · exact .inl ⟨k, hk, hitems hk ▸ List.mem_map_of_mem hmem⟩
    · exact .inr hbehind
  · intro k hk item hitem
    rw [hitems hk] at hitem
    obtain ⟨t, ht, rfl⟩ := List.mem_map.mp hitem
    exact ⟨t, (hgrow (walk.itemsAt_mono hk le_rfl)).subset ((page_sublist _ _ _).subset ht), rfl⟩
  · intro hsame
    -- every moment's history lies between the first and the last
    have hhistory {n : ℕ} (hlo : walk.askedAt 0 ≤ n) (hhi : n ≤ walk.endedAt) :
        walk.history n = walk.history (walk.askedAt 0) := by
      refine ((hgrow hhi).eq_of_length_le ?_).trans hsame
      exact hsame ▸ (hgrow hlo).length_le
    have hread : ∀ k ≤ last, walk.history (walk.itemsAt k) = walk.history (walk.askedAt 0) :=
      fun k hk => hhistory (walk.askedAt_zero_le hk).1
        ((walk.itemsAt_mono hk le_rfl).trans (le_max_left _ _))
    have hcounted := hhistory (walk.askedAt_zero_le le_rfl).2 (le_max_right _ _)
    have hpages : (List.range (last + 1)).flatMap walk.items =
        ((List.range (last + 1)).flatMap fun k => page limit k (walk.history (walk.askedAt 0))).map
          Trade.historyItem := by
      rw [List.map_flatMap]
      refine List.flatMap_congr fun k hk => ?_
      have hk : k ≤ last := Nat.lt_succ_iff.mp (List.mem_range.mp hk)
      rw [hitems hk, hread k hk]
    rw [hpages, flatMap_page, List.take_of_length_le (hcounted ▸ hend)]

end

/-- A purchase of 1 at 1, stored as trade `n` at time `n`. -/
def storedPurchase (n : ℕ) : Trade where
  id := .ofNat 128 n
  idempotencyKey := .ofNat 128 n
  portfolio := 1
  ticker := "A"
  tradeType := .buy
  quantity := ⟨10000, by norm_num⟩
  price := ⟨10000, by norm_num⟩
  totalValue := ⟨10000, by norm_num⟩
  timestamp := n

/-- Two trades, and cash for a third. -/
def twoTrades : Ledger where
  portfolios := [⟨1, 1, ⟨50000, by norm_num⟩⟩]
  positions := [⟨1, "A", ⟨20000, by norm_num⟩⟩]
  trades := [storedPurchase 0, storedPurchase 1]
  cashTransactions := []

/-- A purchase while the client looks at the first page. -/
def purchaseBetweenPages : List ClockedEvent :=
  ([.arrive (purchaseCall 1 1), .lookup 0, .fetchPrice 0, .statement 0, .statement 0, .statement 0,
    .statement 0] : List Event).map .ledger ++
  [.readClock 0, .ledger (.statement 0), .ledger (.commit 0)]

/-- One trade to a page: the first page before the purchase, the others after it. -/
def walkAround (hthree : (tradeHistory (stateAt (clockedStep .default) (.initial 1 twoTrades)
    purchaseBetweenPages 10).world.db 1).length = 3) :
    PageWalk .default .limitOffset (.initial 1 twoTrades) purchaseBetweenPages 1 1 2 where
  askedAt k := if k = 0 then 0 else 10
  itemsAt k := if k = 0 then 0 else 10
  countAt k := if k = 0 then 0 else 10
  items k := (page 1 k (tradeHistory (stateAt (clockedStep .default) (.initial 1 twoTrades)
    purchaseBetweenPages (if k = 0 then 0 else 10)).world.db 1)).map Trade.historyItem
  count k := (tradeHistory (stateAt (clockedStep .default) (.initial 1 twoTrades)
    purchaseBetweenPages (if k = 0 then 0 else 10)).world.db 1).length
  asks k _ := ⟨le_rfl, le_rfl⟩
  turns k _ := by simp only [Nat.add_eq_zero_iff, one_ne_zero, and_false, if_false]; split <;> omega
  answers k _ := rfl
  ends := hthree.le

theorem pages_complete_walkAround :
    ∃ hthree : (tradeHistory (stateAt (clockedStep .default) (.initial 1 twoTrades)
      purchaseBetweenPages 10).world.db 1).length = 3, (walkAround hthree).Complete := by
  have hvalues : (exec (clockedStep .default) (.initial 1 twoTrades) purchaseBetweenPages).map
      (fun c => ((portfolioOf? c.world.db 1).map (·.id), (tradesOf c.world.db 1).length)) =
        some (some 1, 3) := by decide +kernel
  obtain ⟨c, hexec, hc⟩ := Option.map_eq_some_iff.mp hvalues
  obtain ⟨hportfolio, hlength⟩ := Prod.mk.inj hc
  obtain ⟨row, hrow, hid⟩ := Option.map_eq_some_iff.mp hportfolio
  have hrun : Run (clockedStep .default) (.initial 1 twoTrades) purchaseBetweenPages c := hexec
  obtain rfl := (hrun.stateAt 10).unique hrun
  have hthree : (tradeHistory (stateAt (clockedStep .default) (.initial 1 twoTrades)
      purchaseBetweenPages 10).world.db 1).length = 3 := by
    rw [length_tradeHistory hrow, hid, hlength]
  have hordered : twoTrades.trades.Pairwise fun t u => t.timestamp < u.timestamp := by decide
  have hpast : ∀ t ∈ twoTrades.trades, t.timestamp ≤ 1 := by decide
  refine ⟨hthree, pages_complete (by decide) hrun _ (fun id => ⟨?_, ?_⟩) (fun id => ⟨?_, ?_⟩)
    ⟨fun _ _ => rfl, fun _ _ => rfl⟩⟩
  · exact fun t ht => hpast t (List.mem_of_mem_filter ht)
  · simp [twoTrades, cashTransactionsOf]
  · exact hordered.filter _
  · simp [twoTrades, cashTransactionsOf]

end DjasktTrading.Ledger
