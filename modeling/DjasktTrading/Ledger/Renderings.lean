import DjasktTrading.Ledger.Interleaving
import DjasktTrading.Ledger.Views

/-!
# Renderings — one commit, four answers

The 201 answer and the broadcast are rendered from instances in memory, a replay and the reads from
rows.  In between stand the four decimals of the columns.
-/

open Reasoning

namespace DjasktTrading.Ledger

/-! ## 1. Four decimals -/

/-- The number has at most four decimals. -/
def FourPlaces (q : ℚ) : Prop := ∃ n : ℤ, q * 10 ^ 4 = n

/-- A column keeps exactly the numbers of four decimals. -/
theorem Numeric.value_eq_iff {q : ℚ} {n : Numeric} (h : Numeric.write q = .ok n) :
    n.value = q ↔ FourPlaces q := by
  constructor
  · rintro rfl
    exact ⟨n.units, n.value_mul⟩
  · rintro ⟨m, hm⟩
    rw [Numeric.write_eq_ok_iff, hm, roundHalfAway_intCast] at h
    have hvalue : n.value * 10 ^ 4 = q * 10 ^ 4 := by rw [n.value_mul, h, hm]
    exact mul_right_cancel₀ (by norm_num) hvalue

theorem Numeric.abs_value_lt (n : Numeric) : |n.value| < 10 ^ 15 := by
  have hunits : |(n.units : ℚ)| < 10 ^ 19 := by
    have hfits : (n.units.natAbs : ℤ) < 10 ^ 19 := by exact_mod_cast n.fits
    rw [Int.natCast_natAbs] at hfits
    exact_mod_cast hfits
  rw [Numeric.value, abs_div, abs_of_pos (show (0 : ℚ) < 10 ^ 4 by norm_num), div_lt_iff₀ (by norm_num)]
  calc |(n.units : ℚ)| < 10 ^ 19 := hunits
    _ = 10 ^ 15 * 10 ^ 4 := by norm_num

namespace FourPlaces

theorem value (n : Numeric) : FourPlaces n.value := ⟨n.units, n.value_mul⟩

theorem add {p q : ℚ} (hp : FourPlaces p) (hq : FourPlaces q) : FourPlaces (p + q) := by
  obtain ⟨m, hm⟩ := hp
  obtain ⟨n, hn⟩ := hq
  exact ⟨m + n, by push_cast; rw [add_mul, hm, hn]⟩

theorem neg {q : ℚ} (hq : FourPlaces q) : FourPlaces (-q) := by
  obtain ⟨n, hn⟩ := hq
  exact ⟨-n, by push_cast; rw [neg_mul, hn]⟩

/-- A sum of column values is not rounded. -/
theorem round_eq (ctx : DecimalContext) {q : ℚ} (hq : FourPlaces q) (hbound : |q| ≤ 10 ^ 24) :
    ctx.round q = q := by
  obtain ⟨n, hn⟩ := hq
  have hvalue : q = n * 10 ^ (-4 : ℤ) := by
    rw [← hn, mul_assoc]
    norm_num
  have hsmall : n.natAbs ≤ 10 ^ 28 := by
    have habs : |(n : ℚ)| ≤ 10 ^ 28 := by
      rw [← hn, abs_mul, abs_of_pos (show (0 : ℚ) < 10 ^ 4 by norm_num)]
      calc |q| * 10 ^ 4 ≤ 10 ^ 24 * 10 ^ 4 := by gcongr
        _ = 10 ^ 28 := by norm_num
    have hint : (n.natAbs : ℤ) ≤ 10 ^ 28 := by
      rw [Int.natCast_natAbs]
      exact_mod_cast habs
    exact_mod_cast hint
  have hfix := ctx.fixes n (-4) hsmall
  rwa [← hvalue] at hfix

end FourPlaces

/-- A rounded number that fits a column is not large. -/
theorem lt_of_write_round (ctx : DecimalContext) {x : ℚ} {n : Numeric}
    (h : Numeric.write (ctx.round x) = .ok n) : x < 10 ^ 16 := by
  by_contra hlarge
  have hround : 10 ^ 16 ≤ ctx.round x := by
    have hfix : ctx.round (10 ^ 16) = 10 ^ 16 := by
      simpa using ctx.fixes 1 16 (by norm_num)
    rw [← hfix]
    exact ctx.mono (not_lt.mp hlarge)
  rw [Numeric.write_eq_ok_iff] at h
  have hnear := abs_roundHalfAway_sub_le (ctx.round x * 10 ^ 4)
  rw [← h, abs_le] at hnear
  have hunits : (n.units : ℚ) < 10 ^ 19 := by
    have hfits : n.units < 10 ^ 19 := lt_of_le_of_lt Int.le_natAbs (by exact_mod_cast n.fits)
    exact_mod_cast hfits
  linarith [hnear.1]

/-- A product of two column values that fits a column is not rounded. -/
theorem round_mul_of_written (ctx : DecimalContext) {p q : ℚ} {n : Numeric} (hp : FourPlaces p)
    (hq : FourPlaces q) (hpos : 0 ≤ p * q) (h : Numeric.write (ctx.round (p * q)) = .ok n) :
    ctx.round (p * q) = p * q := by
  have hlt := lt_of_write_round ctx h
  obtain ⟨a, ha⟩ := hp
  obtain ⟨b, hb⟩ := hq
  have hproduct : p * q * 10 ^ 8 = (a * b : ℤ) := by
    push_cast
    rw [← ha, ← hb]
    ring
  have hvalue : p * q = (a * b : ℤ) * 10 ^ (-8 : ℤ) := by
    rw [← hproduct, mul_assoc]
    norm_num
  have hsmall : (a * b).natAbs ≤ 10 ^ 28 := by
    have habs : |((a * b : ℤ) : ℚ)| ≤ 10 ^ 28 := by
      rw [← hproduct, abs_of_nonneg (by positivity)]
      linarith
    have hint : ((a * b).natAbs : ℤ) ≤ 10 ^ 28 := by
      rw [Int.natCast_natAbs]
      exact_mod_cast habs
    exact_mod_cast hint
  have hfix := ctx.fixes (a * b) (-8) hsmall
  rwa [← hvalue] at hfix

/-! ## 2. The numbers of a rendering -/

def Entry.numbers : Entry → List Decimal
  | .trade t => [.finite t.quantity, t.price, t.totalValue]
  | .cashTransaction c => [.finite c.amount, c.resultingBalance]

def ResponseBody.numbers : ResponseBody → List Decimal
  | .trade t => [.finite t.quantity, t.price, t.totalValue]
  | .cashTransfer c => [.finite c.amount, c.resultingBalance]
  | _ => []

def Payload.numbers (payload : Payload) : List Decimal :=
  (match payload.latestTrade with
    | some t => [.finite t.quantity, t.price, t.totalValue]
    | none => []) ++
  match payload.latestCashTransaction with
    | some c => [.finite c.amount, c.resultingBalance]
    | none => []

def TradeHistoryItem.numbers (item : TradeHistoryItem) : List Decimal :=
  [.finite item.quantity, .finite item.price, .finite item.totalValue]

@[simp] theorem Entry.numbers_body (entry : Entry) (isReplay : Bool) :
    (entry.body isReplay).numbers = entry.numbers := by
  cases entry <;> rfl

@[simp] theorem numbers_portfolioUpdate (portfolio : PortfolioInstance) (positions : List Position)
    (entry : Entry) : (portfolioUpdate portfolio positions entry).payload.numbers = entry.numbers := by
  cases entry <;> rfl

@[simp] theorem Trade.numbers_historyItem (trade : Trade) :
    trade.historyItem.numbers = (Entry.trade trade.load).numbers := rfl

/-- The balance that a transfer's answer carries. -/
def ResponseBody.resultingBalance? : ResponseBody → Option Decimal
  | .cashTransfer c => some c.resultingBalance
  | _ => none

/-- The query of `list_trades`, whose entries a page is made of. -/
theorem mem_trades_of_listTrades {user : UserId} {db db' : Ledger} {trade : Trade}
    (h : trade ∈ listTrades user db db') : trade ∈ db'.trades := by
  unfold listTrades at h
  cases hportfolio : portfolioOf? db user with
  | none =>
      rw [hportfolio] at h
      cases h
  | some portfolio =>
      rw [hportfolio] at h
      exact List.mem_of_mem_filter (List.mem_mergeSort.mp h)

/-- What a commit answered with `entry` and `portfolio` and sent as `sent` agrees with the replays of
its key after any other calls, and with the reads right after it. -/
structure NumbersAgree (py : Python) (request : Request) (entry : Entry)
    (portfolio : PortfolioInstance) (sent : List Broadcast) (after : Ledger) : Prop where
  replay : ∀ calls later channel (call : Call) entry' sent', Run (callStep py) after calls later →
    call.request.key = request.key →
    ((submit py channel call).run later).1 = .ok (.replay entry', sent') →
      (respond (.ok (.committed entry portfolio))).body.numbers =
        (respond (.ok (.replay entry'))).body.numbers ∧
      ∀ message ∈ sent, message.payload.numbers = (respond (.ok (.replay entry'))).body.numbers
  balance : ∀ user response, getPortfolioAction user after = ⟨200, .portfolio response⟩ →
    response.portfolioId = request.portfolioId →
      (∀ balance ∈ (respond (.ok (.committed entry portfolio))).body.resultingBalance?,
        balance = .finite response.cashBalance) ∧
      ∀ message ∈ sent, message.payload.cashBalance = .finite response.cashBalance ∧
        message.payload.positions = response.positions
  trades : ∀ user, ∀ trade ∈ listTrades user after after,
    Key.trade trade.idempotencyKey = request.key →
      (respond (.ok (.committed entry portfolio))).body.numbers = trade.historyItem.numbers ∧
      ∀ message ∈ sent, message.payload.numbers = trade.historyItem.numbers

/-- Quantity, price and their product, or the amount, have at most four decimals. -/
def Call.FourPlaces (py : Python) (call : Call) : Prop :=
  match call.request with
  | .trade req => Ledger.FourPlaces req.quantity ∧
      ∃ price, getLivePrice py call.cache req.ticker = .ok (.finite price) ∧
        Ledger.FourPlaces price ∧ Ledger.FourPlaces (req.quantity * price)
  | .transfer req => Ledger.FourPlaces req.amount

/-! ## 3. What is stored -/

namespace Job.Commit

variable {py : Python} {db : Ledger} {job : Job}

/-- The entry as it is read back. -/
def stored : job.Commit py db → Entry
  | .trade fresh c => .trade (c.stored fresh).load
  | .transfer fresh c => .cashTransaction (c.stored fresh).load

theorem existing?_stored (c : job.Commit py db) : existing? c.after job.key = some c.stored := by
  cases c with
  | @trade order fresh c =>
      have hrow : tradeByKey? (c.after fresh) order.idempotencyKey = some (c.stored fresh) := by
        rw [tradeByKey?, c.trades_after, List.find?_append, ← tradeByKey?, c.key_free]
        simp [TradeCommit.stored]
      exact congrArg (Option.map _) hrow
  | @transfer order fresh c =>
      have hrow : cashTransactionByKey? (c.after fresh) order.idempotencyKey =
          some (c.stored fresh) := by
        rw [cashTransactionByKey?, c.cashTransactions_after, List.find?_append,
          ← cashTransactionByKey?, c.key_free]
        simp [TransferCommit.stored]
      exact congrArg (Option.map _) hrow

/-- The only trade stored under the key of a commit is its own. -/
theorem stored_of_mem (c : job.Commit py db) {trade : Trade} (h : trade ∈ c.after.trades)
    (hkey : Key.trade trade.idempotencyKey = job.key) : c.stored = .trade trade.load := by
  cases c with
  | @trade order fresh c =>
      change trade ∈ (c.after fresh).trades at h
      rw [c.trades_after] at h
      rcases List.mem_append.mp h with h | h
      · have hfree := tradeByKey?_eq_none_iff.mp c.key_free
        exact absurd (List.mem_map.mpr ⟨trade, h, Key.trade.inj hkey⟩) hfree
      · rw [List.mem_singleton.mp h]
        rfl
  | transfer fresh c => cases hkey

/-- The balance that the instance has is written to the rows of its portfolio. -/
theorem balance_written (c : job.Commit py db) {row : Portfolio} (hrow : row ∈ c.after.portfolios)
    (hid : row.id = job.portfolioId) :
    Numeric.writeDecimal c.portfolio.cashBalance = .ok row.cashBalance := by
  obtain ⟨saved, hsaved, hupdate, hcash⟩ : ∃ saved : Portfolio, saved.id = job.portfolioId ∧
      c.after.portfolios = db.portfolios.map (fun p => if p.id = saved.id then saved else p) ∧
      Numeric.writeDecimal c.portfolio.cashBalance = .ok saved.cashBalance := by
    cases c with
    | @trade order fresh c =>
        refine ⟨c.newRow, c.newRow_id, ?_, c.cash_written⟩
        change (c.after fresh).portfolios = _
        rw [c.after_eq fresh, openPosition]
        split
        · rfl
        · rfl
    | transfer fresh c => exact ⟨c.newRow, c.row_id, rfl, c.cash_written⟩
  rw [hupdate] at hrow
  obtain ⟨p, -, rfl⟩ := List.mem_map.mp hrow
  split at hid
  · rename_i heq
    rw [if_pos heq]
    exact hcash
  · rename_i hne
    exact absurd (hid.trans hsaved.symm) hne

/-- The columns keep the numbers of a trade. -/
def KeepsNumbers : job.Commit py db → Prop
  | @Commit.trade _ _ order _ c => Ledger.FourPlaces order.quantity ∧ Ledger.FourPlaces c.price ∧
      Ledger.FourPlaces c.totalValue
  | @Commit.transfer _ _ order _ _ => Ledger.FourPlaces order.amount

/-- The cash that a branch computes from numbers of four decimals is not rounded. -/
theorem cash_eq (c : job.Commit py db) (hkeeps : c.KeepsNumbers) {n : Numeric}
    (hwritten : Numeric.writeDecimal c.portfolio.cashBalance = .ok n) :
    c.portfolio.cashBalance = .finite n.value := by
  obtain ⟨q, hq, hn⟩ := Numeric.writeDecimal_eq_ok_iff.mp hwritten
  rw [hq, Decimal.finite.injEq, eq_comm, Numeric.value_eq_iff hn]
  -- a balance and what is added to it or taken from it are column values
  have hsum : ∀ x : ℚ, Ledger.FourPlaces x → ∀ a : Numeric, a.value = x → ∀ b : Numeric,
      Ledger.FourPlaces (py.context.round (b.value + x)) ∧
        Ledger.FourPlaces (py.context.round (b.value - x)) := by
    intro x hx a ha b
    have hxlt := a.abs_value_lt
    have hblt := b.abs_value_lt
    rw [ha] at hxlt
    have hadd := (FourPlaces.value b).add hx
    have hsub := (FourPlaces.value b).add hx.neg
    rw [← sub_eq_add_neg] at hsub
    have haddle : |b.value + x| ≤ 10 ^ 24 := by
      linarith [abs_add_le b.value x]
    have hsuble : |b.value - x| ≤ 10 ^ 24 := by
      linarith [abs_sub b.value x]
    rw [hadd.round_eq _ haddle, hsub.round_eq _ hsuble]
    exact ⟨hadd, hsub⟩
  cases c with
  | @trade order fresh c =>
      obtain ⟨-, -, htotal⟩ := hkeeps
      have hstored := (Numeric.value_eq_iff c.total_written).mpr htotal
      have hboth := hsum _ htotal _ hstored c.row.cashBalance
      obtain rfl := Decimal.finite.inj hq
      unfold TradeOrder.newCash
      split
      · exact hboth.2
      · exact hboth.1
  | @transfer order fresh c =>
      have hstored := (Numeric.value_eq_iff c.amount_written).mpr hkeeps
      have hboth := hsum _ hkeeps _ hstored c.row.cashBalance
      obtain rfl := Decimal.finite.inj hq
      unfold TransferOrder.newCash
      split
      · exact hboth.1
      · exact hboth.2

/-- What is stored has the numbers of the instance exactly if the columns keep them. -/
theorem numbers_eq_iff (c : job.Commit py db) :
    c.entry.numbers = c.stored.numbers ↔ c.KeepsNumbers := by
  cases c with
  | @trade order fresh c =>
      simp only [entry, stored, Entry.numbers, TradeOrder.entry, TradeCommit.stored, Trade.load,
        c.price_eq, c.totalValue_eq, List.cons.injEq, Decimal.finite.injEq, and_true, KeepsNumbers,
        ← Numeric.value_eq_iff c.quantity_written, ← Numeric.value_eq_iff c.price_written,
        ← Numeric.value_eq_iff c.total_written]
      simp only [eq_comm]
  | @transfer order fresh c =>
      constructor
      · intro h
        obtain ⟨hamount, -⟩ := List.cons.inj h
        exact (Numeric.value_eq_iff c.amount_written).mp (Decimal.finite.inj hamount).symm
      · intro hkeeps
        have hamount := (Numeric.value_eq_iff c.amount_written).mpr hkeeps
        have hcash := cash_eq (.transfer fresh c) hkeeps c.cash_written
        change [Decimal.finite order.amount, c.portfolio.cashBalance] =
          [.finite c.storedAmount.value, .finite c.cashBalance.value]
        rw [hamount]
        exact congrArg (fun d => [Decimal.finite order.amount, d]) hcash

end Job.Commit

/-- A stored entry stays the answer to its key, whatever else is called. -/
theorem run_callStep_existing? {py : Python} {db later : Ledger} {calls : List Call} {key : Key}
    {entry : Entry} (hrun : Run (callStep py) db calls later)
    (h : existing? db key = some entry) : existing? later key = some entry := by
  refine hrun.invariant (I := fun db => existing? db key = some entry) h ?_
  intro db call db' hdb hstep
  rcases callStep_cases hstep with ⟨-, rfl⟩ | ⟨job, -, hjob⟩
  · exact hdb
  · obtain ⟨c, rfl⟩ := jobStep_eq_some hjob
    exact existing?_after c hdb

/-- A submission that replays answers with what is stored under its key. -/
theorem existing?_of_submit {py : Python} {channel : ChannelLayer} {call : Call} {db : Ledger}
    {entry : Entry} {sent : List Broadcast}
    (h : ((submit py channel call).run db).1 = .ok (.replay entry, sent)) :
    existing? db call.request.key = some entry := by
  rcases (submit_cases py channel call db).2 with ⟨-, -, e, herror⟩ | ⟨-, hservice⟩
  · rw [herror] at h
    cases h
  · rw [h] at hservice
    have hends := call.service_ends py db
    rw [← hservice] at hends
    generalize ((call.service py).run db).2 = after at hends
    cases hends with
    | replayed _ hstored => exact hstored

/-- And a submission whose key has something stored replays it. -/
theorem submit_of_existing? {py : Python} {call : Call} {db : Ledger} {entry : Entry}
    (hcheck : call.check py = .ok ()) (hstored : existing? db call.request.key = some entry) :
    ((submit py .absent call).run db).1 = .ok (.replay entry, []) := by
  have hservice := Call.service_of_existing? hcheck hstored
  unfold Tx.run at hservice ⊢
  rcases hrun : call.service py db with ⟨r, ws⟩
  rw [hrun] at hservice
  obtain rfl : r = .ok (.replay entry) := (Prod.mk.inj hservice).1
  unfold submit
  rw [Tx.bind_apply_of_ok hrun]
  rfl

/-! ## 4. Agreement -/

section

variable {py : Python} {channel : ChannelLayer} {call : Call} {db after : Ledger} {entry : Entry}
  {portfolio : PortfolioInstance} {sent : List Broadcast}

/-- A submission that has committed has committed a job of its own, and told the group if there is a
channel layer. -/
theorem submit_eq_committed
    (h : (submit py channel call).run db = (.ok (.committed entry portfolio, sent), after)) :
    ∃ (job : Job) (c : job.Commit py db), call.job py = .ok job ∧ entry = c.entry ∧
      portfolio = c.portfolio ∧ after = c.after ∧
        sent = channel.sends c.portfolio c.entry c.after := by
  unfold Tx.run at h
  obtain ⟨hresult, hafter⟩ := Prod.mk.inj h
  rcases hsubmit : submit py channel call db with ⟨r, us⟩
  rw [hsubmit] at hresult hafter
  obtain rfl : r = .ok (.committed entry portfolio, sent) := hresult
  obtain ⟨result, ws, vs, hservice, hrest, rfl⟩ := Tx.bind_eq_ok_iff.mp hsubmit
  have hends := call.service_ends py db
  unfold Tx.run at hends
  rw [hservice] at hends
  cases result with
  | replay old =>
      obtain ⟨hpure, -⟩ := Tx.pure_eq_ok_iff.mp hrest
      cases hpure
  | committed entry' portfolio' =>
      obtain ⟨messages, us, vs, htold, hpure, rfl⟩ := Tx.bind_eq_ok_iff.mp hrest
      obtain ⟨hpair, rfl⟩ := Tx.pure_eq_ok_iff.mp hpure
      cases hpair
      -- the broadcast reads what the commit left, and writes nothing
      rcases broadcastPortfolioUpdate_cases channel portfolio entry (applyAll db ws) with
        ⟨-, e, hraised⟩ | ⟨-, hsent⟩
      · rw [hraised] at htold
        cases htold
      · rw [hsent] at htold
        cases htold
        rw [List.append_nil, List.append_nil] at hafter
        subst hafter
        dsimp only at hends ⊢
        generalize applyAll db ws = after at hends ⊢
        cases hends with
        | committed job _ _ _ _ hjob hbody =>
            obtain ⟨c, rfl, rfl, rfl⟩ := Job.body_eq_ok hbody
            exact ⟨job, c, hjob, rfl, rfl, rfl, rfl⟩

/-- Messages, if any are sent, are about the commit. -/
theorem ChannelLayer.mem_sends {message : Broadcast} (h : message ∈ channel.sends portfolio entry db) :
    message = portfolioUpdate portfolio (positionsOf db portfolio.id) entry := by
  cases channel with
  | absent => cases h
  | present reread groupSend => exact List.mem_singleton.mp h

/-- The columns keep the numbers exactly if the request, the price and their product have four
decimals. -/
theorem Job.Commit.keepsNumbers_iff {job : Job} (c : job.Commit py db)
    (hjob : call.job py = .ok job) : c.KeepsNumbers ↔ call.FourPlaces py := by
  unfold Call.FourPlaces
  cases Call.opens_of_job hjob with
  | @trade req tradeType price request checked priced =>
      rw [request]
      cases c with
      | trade fresh c =>
          cases price with
          | infinity => exact absurd c.price_eq nofun
          | finite price =>
              have hprice : c.price = price := (Decimal.finite.inj c.price_eq).symm
              have htotal : c.totalValue = py.context.round (req.quantity * price) :=
                (Decimal.finite.inj c.totalValue_eq).symm
              have hpositive : 0 ≤ req.quantity * price :=
                (mul_pos (checkTrade_eq_ok checked).2 (getLivePrice_pos priced)).le
              have hwritten := c.total_written
              rw [htotal] at hwritten
              simp only [KeepsNumbers, hprice, htotal, priced, Except.ok.injEq,
                Decimal.finite.injEq, exists_eq_left']
              refine and_congr_right fun hq => and_congr_right fun hp => ?_
              rw [round_mul_of_written _ hq hp hpositive hwritten]
  | @transfer req order request checked =>
      rw [request]
      obtain ⟨direction, -, -, rfl⟩ := checkTransfer_eq_ok checked
      cases c with
      | transfer fresh c => exact Iff.rfl

/-- **Four renderings.**  The numbers answered and broadcast at a commit agree with every later
replay, and with the reads right after it, exactly if the amount, or the quantity, the price and
their product, have at most four decimals. -/
theorem numbersAgree_iff_fourPlaces
    (h : (submit py channel call).run db = (.ok (.committed entry portfolio, sent), after)) :
    NumbersAgree py call.request entry portfolio sent after ↔ call.FourPlaces py := by
  obtain ⟨job, c, hjob, rfl, rfl, rfl, rfl⟩ := submit_eq_committed h
  obtain ⟨hcheck, hid, hkey⟩ := Call.job_eq_ok hjob
  rw [← c.keepsNumbers_iff hjob]
  constructor
  · intro hagree
    -- the same submission again, right away
    have hstored : existing? c.after call.request.key = some c.stored := hkey ▸ c.existing?_stored
    have hreplay := submit_of_existing? hcheck hstored
    obtain ⟨hnumbers, -⟩ := hagree.replay [] c.after .absent call c.stored []
      (run_nil_iff.mpr rfl) rfl hreplay
    simp only [respond, Entry.numbers_body] at hnumbers
    exact c.numbers_eq_iff.mp hnumbers
  · intro hkeeps
    have hnumbers := c.numbers_eq_iff.mpr hkeeps
    have hmessages : ∀ message ∈ channel.sends c.portfolio c.entry c.after,
        message.payload.numbers = c.stored.numbers := by
      intro message hmessage
      rw [ChannelLayer.mem_sends hmessage, numbers_portfolioUpdate, hnumbers]
    constructor
    · intro calls later channel' call' entry' sent' hrun hsame hreplay
      have hentry := existing?_of_submit hreplay
      rw [hsame, run_callStep_existing? hrun (hkey ▸ c.existing?_stored)] at hentry
      obtain rfl := Option.some.inj hentry
      simp only [respond, Entry.numbers_body]
      exact ⟨hnumbers, hmessages⟩
    · intro user response hget hresponse
      obtain ⟨row, hrow, hshown⟩ := getPortfolioAction_eq_ok hget
      obtain rfl : _ = response := by
        simpa [portfolioResponse] using hshown
      have hwritten := c.balance_written (List.mem_of_find?_eq_some hrow) (hresponse.trans hid.symm)
      have hcash := c.cash_eq hkeeps hwritten
      refine ⟨?_, fun message hmessage => ?_⟩
      · intro balance hbalance
        rw [← hcash]
        cases c with
        | trade fresh c => cases hbalance
        | transfer fresh c => exact (Option.some.inj hbalance).symm
      · rw [ChannelLayer.mem_sends hmessage]
        have hrowid : row.id = c.portfolio.id :=
          hresponse.trans (hid.symm.trans c.portfolio_id.symm)
        exact ⟨hcash, by rw [hrowid]; rfl⟩
    · intro user trade hmem hsame
      have hstored : trade ∈ c.after.trades := mem_trades_of_listTrades hmem
      have hentry : c.stored = .trade trade.load := c.stored_of_mem hstored (hsame.trans hkey.symm)
      simp only [respond, Entry.numbers_body, Trade.numbers_historyItem, ← hentry]
      exact ⟨hnumbers, hmessages⟩

end

/-- The first portfolio, with a balance of 1. -/
def fundedPortfolio : Ledger :=
  { firstPortfolio with portfolios := [⟨1, 1, ⟨10 ^ 4, by norm_num⟩⟩] }

/-- A purchase for it, with its broadcast. -/
def purchase (quantity price : ℚ) : LedgerTx (Result Entry × List Broadcast) :=
  submit .default (.present (.ok ()) (.ok ())) (purchaseCall quantity price)

/-- The numbers of a result, marked by whether it is a replay. -/
def renderedNumbers? (r : Except Exn (Result Entry × List Broadcast)) :
    Option (Bool × List Decimal) :=
  r.toOption.map fun p => (p.1.isReplay, p.1.entry.numbers)

theorem exists_committed {m : LedgerTx (Result Entry × List Broadcast)} {db : Ledger}
    {numbers : List Decimal} (h : renderedNumbers? (m.run db).1 = some (false, numbers)) :
    ∃ entry portfolio sent after, m.run db = (.ok (.committed entry portfolio, sent), after) ∧
      entry.numbers = numbers := by
  rcases hrun : m.run db with ⟨e | ⟨entry | entry, sent⟩, after⟩
  · simp [hrun, renderedNumbers?, Except.toOption] at h
  · rw [hrun] at h
    exact ⟨entry, _, sent, after, rfl, (Prod.mk.inj (Option.some.inj h)).2⟩
  · simp [hrun, renderedNumbers?, Except.toOption, Result.isReplay] at h

theorem exists_replay {m : LedgerTx (Result Entry × List Broadcast)} {db : Ledger}
    {numbers : List Decimal} (h : renderedNumbers? (m.run db).1 = some (true, numbers)) :
    ∃ entry sent, (m.run db).1 = .ok (.replay entry, sent) ∧ entry.numbers = numbers := by
  rcases hrun : (m.run db).1 with e | ⟨entry | entry, sent⟩
  · simp [hrun, renderedNumbers?, Except.toOption] at h
  · simp [hrun, renderedNumbers?, Except.toOption, Result.isReplay] at h
  · rw [hrun] at h
    exact ⟨entry, sent, rfl, (Prod.mk.inj (Option.some.inj h)).2⟩

theorem numbersAgree_iff_fourPlaces_half :
    ∃ entry portfolio sent after,
      (purchase (1 / 2) (1 / 2)).run fundedPortfolio =
          (.ok (.committed entry portfolio, sent), after) ∧
        (NumbersAgree .default (purchaseCall (1 / 2) (1 / 2)).request entry portfolio sent after ↔
          (purchaseCall (1 / 2) (1 / 2)).FourPlaces .default) := by
  have hnumbers : renderedNumbers? ((purchase (1 / 2) (1 / 2)).run fundedPortfolio).1 =
      some (false, [.finite (1 / 2), .finite (1 / 2), .finite (1 / 4)]) := by
    decide +kernel
  obtain ⟨entry, portfolio, sent, after, hrun, -⟩ := exists_committed hnumbers
  exact ⟨entry, portfolio, sent, after, hrun, numbersAgree_iff_fourPlaces hrun⟩

/-- 0.1234 shares at 0.1: a total of 0.01234 is answered, and 0.0123 is stored. -/
theorem not_numbersAgree_fraction :
    ∃ entry portfolio sent after,
      (purchase (1234 / 10000) (1 / 10)).run fundedPortfolio =
          (.ok (.committed entry portfolio, sent), after) ∧
        ¬ NumbersAgree .default (purchaseCall (1234 / 10000) (1 / 10)).request entry portfolio sent
          after := by
  have hfirst : renderedNumbers? ((purchase (1234 / 10000) (1 / 10)).run fundedPortfolio).1 =
      some (false, [.finite (1234 / 10000), .finite (1 / 10), .finite (1234 / 100000)]) := by
    decide +kernel
  have hsecond : renderedNumbers? ((purchase (1234 / 10000) (1 / 10)).run
      ((purchase (1234 / 10000) (1 / 10)).run fundedPortfolio).2).1 =
        some (true, [.finite (1234 / 10000), .finite (1 / 10), .finite (123 / 10000)]) := by
    decide +kernel
  obtain ⟨entry, portfolio, sent, after, hrun, hnumbers⟩ := exists_committed hfirst
  rw [hrun] at hsecond
  obtain ⟨entry', sent', hreplay, hnumbers'⟩ := exists_replay hsecond
  refine ⟨entry, portfolio, sent, after, hrun, fun h => ?_⟩
  obtain ⟨hsame, -⟩ := h.replay [] after _ _ entry' sent' (run_nil_iff.mpr rfl) rfl hreplay
  simp only [respond, Entry.numbers_body, hnumbers, hnumbers'] at hsame
  exact absurd hsame (by decide +kernel)

end DjasktTrading.Ledger
