import DjasktTrading.Ledger.Renderings
import DjasktTrading.Ledger.Solvency

/-!
# Audit rows — what a ledger row says on its own

Quantity, price and total are checked as they are submitted and rounded one by one as they are
stored.  A stored row makes sense by itself where none of the three roundings shows.
-/

open Reasoning

namespace DjasktTrading.Ledger

/-! ## 1. Rows -/

/-- Something was traded, at a price, and the total is the product of the two columns at four
decimals. -/
structure Trade.Meaningful (t : Trade) : Prop where
  quantity : 0 < t.quantity.value
  price : 0 < t.price.value
  total : Numeric.write (t.quantity.value * t.price.value) = .ok t.totalValue

def CashTransaction.Meaningful (t : CashTransaction) : Prop := 0 < t.amount.value

structure Meaningful (db : Ledger) : Prop where
  trades : ∀ t ∈ db.trades, t.Meaningful
  cashTransactions : ∀ t ∈ db.cashTransactions, t.Meaningful

/-- The number that a column keeps of a number. -/
def fourDecimals (q : ℚ) : ℚ := roundHalfAway (q * 10 ^ 4) / 10 ^ 4

theorem Numeric.value_eq_fourDecimals {q : ℚ} {n : Numeric} (h : Numeric.write q = .ok n) :
    n.value = fourDecimals q := by
  rw [Numeric.write_eq_ok_iff] at h
  rw [Numeric.value, fourDecimals, h]

theorem fourDecimals_pos_iff {q : ℚ} (hq : 0 ≤ q) : 0 < fourDecimals q ↔ 1 / 20000 ≤ q := by
  have hround := roundHalfAway_pos_iff (mul_nonneg hq (by norm_num : (0 : ℚ) ≤ 10 ^ 4))
  unfold fourDecimals
  rw [div_pos_iff_of_pos_right (by norm_num), Int.cast_pos, hround]
  constructor <;> intro h <;> linarith

/-! ## 2. Submissions that leave a row with a meaning -/

/-- The numbers of a call: half a unit of a column or more, and no odd multiple of half a unit between
the total as it is computed and the product of the two factors as they are stored. -/
def Call.Legible (py : Python) (call : Call) : Prop :=
  match call.request with
  | .trade req => ∀ price, getLivePrice py call.cache req.ticker = .ok (.finite price) →
      1 / 20000 ≤ req.quantity ∧ 1 / 20000 ≤ price ∧
        SameSide (py.context.round (req.quantity * price) * 10 ^ 4)
          (fourDecimals req.quantity * fourDecimals price * 10 ^ 4)
  | .transfer req => 1 / 20000 ≤ req.amount

section

variable {py : Python} {db : Ledger}

theorem TradeCommit.meaningful_iff {order : TradeOrder} (c : TradeCommit py order db) (fresh : Fresh)
    (hquantity : 0 < order.quantity) (hprice : 0 < c.price)
    (htotal : c.totalValue = py.context.round (order.quantity * c.price)) :
    (c.stored fresh).Meaningful ↔ 1 / 20000 ≤ order.quantity ∧ 1 / 20000 ≤ c.price ∧
      SameSide (py.context.round (order.quantity * c.price) * 10 ^ 4)
        (fourDecimals order.quantity * fourDecimals c.price * 10 ^ 4) := by
  have hq : c.storedQuantity.value = fourDecimals order.quantity :=
    Numeric.value_eq_fourDecimals c.quantity_written
  have hp : c.storedPrice.value = fourDecimals c.price :=
    Numeric.value_eq_fourDecimals c.price_written
  have hstored : c.storedTotal.units = roundHalfAway (c.totalValue * 10 ^ 4) :=
    Numeric.write_eq_ok_iff.mp c.total_written
  have hunit : (0 : ℚ) ≤ 10 ^ 4 := by norm_num
  -- the total is stored as the product of the columns where no half separates the two
  have hsame : Numeric.write (c.storedQuantity.value * c.storedPrice.value) = .ok c.storedTotal ↔
      SameSide (py.context.round (order.quantity * c.price) * 10 ^ 4)
        (fourDecimals order.quantity * fourDecimals c.price * 10 ^ 4) := by
    have hcomputed : 0 ≤ py.context.round (order.quantity * c.price) :=
      py.context.round_nonneg (mul_pos hquantity hprice).le
    have hcolumns : 0 ≤ fourDecimals order.quantity * fourDecimals c.price := by
      rw [← hq, ← hp]
      exact mul_nonneg (Numeric.write_nonneg hquantity.le c.quantity_written)
        (Numeric.write_nonneg hprice.le c.price_written)
    rw [Numeric.write_eq_ok_iff, hstored, htotal, hq, hp,
      roundHalfAway_eq_iff (mul_nonneg hcomputed hunit) (mul_nonneg hcolumns hunit)]
  rw [← hsame, ← fourDecimals_pos_iff hquantity.le, ← fourDecimals_pos_iff hprice.le, ← hq, ← hp]
  exact ⟨fun h => ⟨h.quantity, h.price, h.total⟩, fun h => ⟨h.1, h.2.1, h.2.2⟩⟩

theorem TransferCommit.meaningful_iff {order : TransferOrder} (c : TransferCommit py order db)
    (fresh : Fresh) (hamount : 0 < order.amount) :
    (c.stored fresh).Meaningful ↔ 1 / 20000 ≤ order.amount := by
  change 0 < c.storedAmount.value ↔ 1 / 20000 ≤ order.amount
  rw [Numeric.value_eq_fourDecimals c.amount_written, fourDecimals_pos_iff hamount.le]

theorem FourPlaces.fourDecimals {q : ℚ} (hq : FourPlaces q) : Ledger.fourDecimals q = q := by
  obtain ⟨n, hn⟩ := hq
  rw [Ledger.fourDecimals, hn, roundHalfAway_intCast, ← hn]
  exact mul_div_cancel_right₀ q (by norm_num)

theorem FourPlaces.le {q : ℚ} (hq : FourPlaces q) (hpos : 0 < q) : 1 / 20000 ≤ q := by
  rw [← fourDecimals_pos_iff hpos.le, hq.fourDecimals]
  exact hpos

/-- Of a quantity and a price that the columns keep, the total is their product. -/
theorem TradeCommit.meaningful_of_fourPlaces {order : TradeOrder} (c : TradeCommit py order db)
    (fresh : Fresh) (hquantity : 0 < order.quantity) (hprice : 0 < c.price)
    (htotal : c.totalValue = py.context.round (order.quantity * c.price))
    (hq : FourPlaces order.quantity) (hp : FourPlaces c.price) : (c.stored fresh).Meaningful := by
  have hexact : py.context.round (order.quantity * c.price) = order.quantity * c.price :=
    round_mul_of_written py.context hq hp (mul_pos hquantity hprice).le (htotal ▸ c.total_written)
  rw [c.meaningful_iff fresh hquantity hprice htotal, hexact, hq.fourDecimals, hp.fourDecimals]
  exact ⟨hq.le hquantity, hp.le hprice, fun _ => Iff.rfl⟩

/-! Rows are added, never changed: after a commit they are all meaningful if they were and the new
row is. -/

theorem TradeCommit.meaningful_after_iff {order : TradeOrder} (c : TradeCommit py order db)
    (fresh : Fresh) (h : Meaningful db) :
    Meaningful (c.after fresh) ↔ (c.stored fresh).Meaningful := by
  constructor
  · intro hafter
    apply hafter.trades
    rw [c.trades_after]
    exact List.mem_append_right _ (List.mem_singleton_self _)
  · intro hnew
    constructor
    · rw [c.trades_after]
      exact List.forall_mem_append.mpr ⟨h.trades, List.forall_mem_singleton.mpr hnew⟩
    · rw [c.cashTransactions_after]
      exact h.cashTransactions

theorem TransferCommit.meaningful_after_iff {order : TransferOrder} (c : TransferCommit py order db)
    (fresh : Fresh) (h : Meaningful db) :
    Meaningful (c.after fresh) ↔ (c.stored fresh).Meaningful := by
  constructor
  · intro hafter
    apply hafter.cashTransactions
    rw [c.cashTransactions_after]
    exact List.mem_append_right _ (List.mem_singleton_self _)
  · intro hnew
    constructor
    · rw [c.trades_after]
      exact h.trades
    · rw [c.cashTransactions_after]
      exact List.forall_mem_append.mpr ⟨h.cashTransactions, List.forall_mem_singleton.mpr hnew⟩

theorem Job.Commit.meaningful_after_iff {job : Job} (c : job.Commit py db) {call : Call}
    (hjob : call.job py = .ok job) (h : Meaningful db) : Meaningful c.after ↔ call.Legible py := by
  unfold Call.Legible
  cases Call.opens_of_job hjob with
  | @trade req tradeType price request checked priced =>
      rw [request]
      cases c with
      | trade fresh c =>
          cases price with
          | infinity => exact absurd c.price_eq nofun
          | finite price =>
              have hprice : c.price = price := (Decimal.finite.inj c.price_eq).symm
              have hpositive : 0 < c.price := by
                rw [hprice]
                exact getLivePrice_pos priced
              have htotal : c.totalValue = py.context.round (req.quantity * c.price) :=
                (Decimal.finite.inj c.totalValue_eq).symm.trans (by rw [hprice])
              have hrow := c.meaningful_iff call.fresh (checkTrade_eq_ok checked).2 hpositive htotal
              simp only [priced, Except.ok.injEq, Decimal.finite.injEq, forall_eq', ← hprice]
              exact (c.meaningful_after_iff call.fresh h).trans hrow
  | @transfer req order request checked =>
      rw [request]
      obtain ⟨direction, -, hamount, rfl⟩ := checkTransfer_eq_ok checked
      cases c with
      | transfer fresh c =>
          exact (c.meaningful_after_iff call.fresh h).trans (c.meaningful_iff call.fresh hamount)

end

/-! ## 3. Runs -/

/-- Every row that is ever stored is meaningful exactly if every call that commits is submitted with
numbers that leave one. -/
theorem meaningful_iff_legible (py : Python) {start : Ledger} (hstart : Meaningful start)
    (calls : List Call) :
    EveryState (callStep py) start calls (fun _ db => Meaningful db) ↔
      EveryStep (callStep py) start calls fun db call =>
        (call.committed? py db).isSome → call.Legible py := by
  obtain ⟨db, hrun⟩ := exists_run_callStep py start calls
  refine everyState_iff_everyStep hstart ?_ hrun
  intro earlier call t u ht hearlier hstep
  have hbefore : Meaningful t := hearlier earlier t (List.prefix_refl _) ht
  rcases callStep_cases hstep with ⟨hnone, rfl⟩ | ⟨job, hjob, hcommit⟩
  · simpa [hnone] using hbefore
  · obtain ⟨c, rfl⟩ := jobStep_eq_some hcommit
    rw [c.meaningful_after_iff (Call.committed?_eq_some_iff.mp hjob).1 hbefore]
    simp [hjob]

theorem fundedPortfolio_meaningful : Meaningful fundedPortfolio where
  trades t ht := by cases ht
  cashTransactions t ht := by cases ht

theorem meaningful_iff_legible_sample :
    EveryState (callStep .default) fundedPortfolio [purchaseCall (14 / 100000) 5000]
        (fun _ db => Meaningful db) ↔
      EveryStep (callStep .default) fundedPortfolio [purchaseCall (14 / 100000) 5000] fun db call =>
        (call.committed? .default db).isSome → call.Legible .default :=
  meaningful_iff_legible .default fundedPortfolio_meaningful _

/-- 0.00014 shares for 0.7 at 5000: the row says 0.0001 shares, worth 0.5. -/
theorem not_meaningful_fraction :
    ¬ EveryState (callStep .default) fundedPortfolio [purchaseCall (14 / 100000) 5000]
      (fun _ db => Meaningful db) := by
  intro h
  have hrows : (exec (callStep .default) fundedPortfolio [purchaseCall (14 / 100000) 5000]).map
      (·.trades.map fun t => (t.quantity.units, t.price.units, t.totalValue.units)) =
        some [(1, 50000000, 7000)] := by
    decide +kernel
  obtain ⟨db, hrun, hdb⟩ := Option.map_eq_some_iff.mp hrows
  obtain ⟨t, ht, hvalues⟩ := List.map_eq_singleton_iff.mp hdb
  have hrow := (h _ db (List.prefix_refl _) hrun).trades t (ht ▸ List.mem_singleton_self t)
  simp only [Prod.mk.injEq] at hvalues
  obtain ⟨hquantity, hprice, htotal⟩ := hvalues
  have hproduct : roundHalfAway (1 / 10 ^ 4 * (50000000 / 10 ^ 4) * 10 ^ 4) = 5000 := by
    decide +kernel
  have hwritten := hrow.total
  rw [Numeric.write_eq_ok_iff, Numeric.value, Numeric.value, hquantity, hprice, htotal] at hwritten
  push_cast at hwritten
  rw [hproduct] at hwritten
  cases hwritten

end DjasktTrading.Ledger
