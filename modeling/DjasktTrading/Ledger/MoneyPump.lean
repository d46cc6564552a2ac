import DjasktTrading.Ledger.Reconstruction

/-!
# Money pump — what trading at a constant price can gain

At a fixed price a trade exchanges cash for shares of the same worth, so all that it gains it gains
from the two columns.  A stored value is a count of the column's unit, so what a column adds depends
on the number that is added to it alone: the quantity on the one side, the quantity times the price
on the other.  The cash gains half a unit at most; what the position gains is multiplied by the price.
-/

open Reasoning

namespace DjasktTrading.Ledger

/-! ## 1. What a column makes of a sum and of a difference -/

/-- The nearest ten-thousandth, ties up. -/
def tiesUp (x : ℚ) : ℚ := roundHalfAway (x * 10 ^ 4) / 10 ^ 4

/-- The nearest ten-thousandth, ties down. -/
def tiesDown (x : ℚ) : ℚ := roundHalfDown (x * 10 ^ 4) / 10 ^ 4

theorem tiesUp_sub_le (x : ℚ) : tiesUp x - x ≤ 1 / 20000 := by
  have h := (abs_le.mp (abs_roundHalfAway_sub_le (x * 10 ^ 4))).2
  unfold tiesUp
  linarith

theorem sub_tiesDown_le (x : ℚ) : x - tiesDown x ≤ 1 / 20000 := by
  have h := (abs_le.mp (abs_roundHalfDown_sub_le (x * 10 ^ 4))).1
  unfold tiesDown
  linarith

/-- A number of at most four decimals is its own nearest ten-thousandth. -/
theorem tiesUp_units (n : ℤ) : tiesUp (n / 10 ^ 4) = n / 10 ^ 4 := by
  rw [tiesUp, div_mul_cancel₀ _ (by norm_num), roundHalfAway_intCast]

theorem tiesDown_units (n : ℤ) : tiesDown (n / 10 ^ 4) = n / 10 ^ 4 := by
  rw [tiesDown, div_mul_cancel₀ _ (by norm_num), roundHalfDown_intCast]

theorem Numeric.value_add_mul (n : Numeric) (x : ℚ) :
    (n.value + x) * 10 ^ 4 = n.units + x * 10 ^ 4 := by
  rw [add_mul, n.value_mul]

theorem Numeric.write_add_le {n m : Numeric} {x : ℚ} (hx : 0 ≤ x)
    (h : Numeric.write (n.value + x) = .ok m) : m.value ≤ n.value + tiesUp x := by
  rw [Numeric.write_eq_ok_iff, n.value_add_mul] at h
  have hround := roundHalfAway_intCast_add_le n.units (x := x * 10 ^ 4) (by positivity)
  rw [← h] at hround
  have hroundq : (m.units : ℚ) ≤ n.units + roundHalfAway (x * 10 ^ 4) := by exact_mod_cast hround
  unfold Numeric.value tiesUp
  rw [← add_div]
  gcongr

theorem Numeric.write_add_eq {n m : Numeric} {x : ℚ} (hn : 0 ≤ n.value) (hx : 0 ≤ x)
    (h : Numeric.write (n.value + x) = .ok m) : m.value = n.value + tiesUp x := by
  have hunits : 0 ≤ n.units := by
    have hq : (0 : ℚ) ≤ n.units := by
      rw [← n.value_mul]
      positivity
    exact_mod_cast hq
  rw [Numeric.write_eq_ok_iff, n.value_add_mul, roundHalfAway_intCast_add hunits (by positivity)] at h
  unfold Numeric.value tiesUp
  rw [h]
  push_cast
  ring

theorem Numeric.write_sub_eq {n m : Numeric} {x : ℚ} (hx : x ≤ n.value)
    (h : Numeric.write (n.value - x) = .ok m) : m.value = n.value - tiesDown x := by
  have hunits : x * 10 ^ 4 ≤ n.units := by
    rw [← n.value_mul]
    linarith
  rw [Numeric.write_eq_ok_iff, sub_mul, n.value_mul, roundHalfAway_intCast_sub hunits] at h
  unfold Numeric.value tiesDown
  rw [h]
  push_cast
  ring

/-! ## 2. Trades on one ticker at one price -/

/-- A trade submission, apart from its portfolio and its ticker. -/
structure Submission where
  tradeType : String
  quantity : ℚ
  idempotencyKey : Uuid
  cache : PriceCache
  fresh : Fresh

section Pump

variable (py : Python) (id : Uuid) (ticker : String) (price : ℚ)

/-- Submit a trade; enabled if it commits at `price`. -/
def pumpStep (db : Ledger) (s : Submission) : Option Ledger :=
  match (executeTrade py s.cache s.fresh
    { portfolioId := id, ticker, tradeType := s.tradeType, quantity := s.quantity,
      idempotencyKey := s.idempotencyKey }).run db with
  | (.ok (.committed trade _), db') => if trade.price = .finite price then some db' else none
  | _ => none

/-- Stored cash and the stored position at `price`. -/
def worth (db : Ledger) : ℚ := cashOf db id + price * heldOf db id (py.upper ticker)

/-- Nothing but the columns rounds the trade: the arithmetic keeps the product, the new balance and
the new position as they are. -/
def OnlyColumnsRound (db : Ledger) (s : Submission) : Prop :=
  py.context.round (s.quantity * price) = s.quantity * price ∧
  match TradeType.ofValue? s.tradeType with
  | some .buy =>
      py.context.round (cashOf db id - s.quantity * price) = cashOf db id - s.quantity * price ∧
      py.context.round (heldOf db id (py.upper ticker) + s.quantity) =
        heldOf db id (py.upper ticker) + s.quantity
  | some .sell =>
      py.context.round (cashOf db id + s.quantity * price) = cashOf db id + s.quantity * price ∧
      py.context.round (heldOf db id (py.upper ticker) - s.quantity) =
        heldOf db id (py.upper ticker) - s.quantity
  | none => True

/-- What rounding the quantity alone gives to the trader: bought shares are rounded with the tie up,
sold ones with the tie down. -/
def quantityFavour (s : Submission) : ℚ :=
  match TradeType.ofValue? s.tradeType with
  | some .buy => tiesUp s.quantity - s.quantity
  | some .sell => s.quantity - tiesDown s.quantity
  | none => 0

/-- What rounding the amount alone gives to the trader. -/
def amountFavour (s : Submission) : ℚ :=
  match TradeType.ofValue? s.tradeType with
  | some .buy => s.quantity * price - tiesDown (s.quantity * price)
  | some .sell => tiesUp (s.quantity * price) - s.quantity * price
  | none => 0

variable {py id ticker price}

/-- The trade that a step commits. -/
def pumpOrder (py : Python) (id : Uuid) (ticker : String) (price : ℚ) (s : Submission)
    (tradeType : TradeType) : TradeOrder where
  portfolioId := id
  ticker := py.upper ticker
  tradeType := tradeType
  quantity := s.quantity
  idempotencyKey := s.idempotencyKey
  price := .finite price
  totalValue := mulDecimal py s.quantity (.finite price)

theorem pumpStep_eq_some {db db' : Ledger} {s : Submission}
    (h : pumpStep py id ticker price db s = some db') :
    ∃ tradeType, TradeType.ofValue? s.tradeType = some tradeType ∧ 0 < s.quantity ∧
      ∃ c : TradeCommit py (pumpOrder py id ticker price s tradeType) db, db' = c.after s.fresh := by
  have hout := executeTrade_outcome py s.cache s.fresh
    { portfolioId := id, ticker, tradeType := s.tradeType, quantity := s.quantity,
      idempotencyKey := s.idempotencyKey } db
  unfold pumpStep at h
  split at h
  · rename_i trade portfolio after hrun
    rw [hrun] at hout
    cases hout with
    | unchanged nothing => exact absurd rfl (nothing trade portfolio)
    | committed trade' portfolio' hresult hspec =>
        obtain ⟨rfl, rfl⟩ : trade = trade' ∧ portfolio = portfolio' := by simpa using hresult
        obtain ⟨tradeType, order, hcheck, horder, c, rfl, rfl, rfl⟩ := hspec
        rw [Option.ite_none_right_eq_some] at h
        obtain ⟨hprice, h⟩ := h
        obtain rfl := Option.some.inj h
        -- the price that was fetched is the constant one
        obtain ⟨p, hp, rfl⟩ := priceTrade_eq_ok horder
        obtain rfl : p = .finite price := hprice
        obtain ⟨htype, hquantity⟩ := checkTrade_eq_ok hcheck
        exact ⟨tradeType, htype, hquantity, c, rfl⟩
  · cases h

/-- The amount favours the trader by at most half a unit. -/
theorem amountFavour_le (price : ℚ) (s : Submission) : amountFavour price s ≤ 1 / 20000 := by
  unfold amountFavour
  cases TradeType.ofValue? s.tradeType with
  | none => norm_num
  | some tradeType =>
      cases tradeType with
      | buy => exact sub_tiesDown_le _
      | sell => exact tiesUp_sub_le _

/-- A quantity of at most four decimals favours nobody. -/
theorem quantityFavour_units {s : Submission} {n : ℤ} (hq : s.quantity = n / 10 ^ 4) :
    quantityFavour s = 0 := by
  unfold quantityFavour
  rw [hq, tiesUp_units, tiesDown_units, sub_self]
  cases TradeType.ofValue? s.tradeType with
  | none => rfl
  | some tradeType => cases tradeType <;> rfl

/-- Exact arithmetic rounds nothing. -/
theorem onlyColumnsRound_of_exact (hexact : py.context = .exact) (db : Ledger) (s : Submission) :
    OnlyColumnsRound py id ticker price db s := by
  have hround (x : ℚ) : py.context.round x = x := by rw [hexact]; rfl
  unfold OnlyColumnsRound
  simp only [hround, and_self, true_and]
  split <;> trivial

/-- A number of at most twelve decimals that a column has taken has not been rounded before. -/
theorem round_of_written {py : Python} {x : ℚ} {k : ℤ} {n : Numeric} (hx : x = k / 10 ^ 12)
    (h : Numeric.write (py.context.round x) = .ok n) : py.context.round x = x := by
  rw [Numeric.write_eq_ok_iff] at h
  have hround := abs_le.mp (abs_roundHalfAway_sub_le (py.context.round x * 10 ^ 4))
  have hfits : |n.units| < 10 ^ 19 := by
    rw [Int.abs_eq_natAbs]
    exact_mod_cast n.fits
  have hunits : |(n.units : ℚ)| < 10 ^ 19 := by exact_mod_cast hfits
  rw [abs_lt] at hunits
  rw [← h] at hround
  have hlt : |x| < 10 ^ 16 := by
    apply py.context.abs_lt_of_round
    rw [abs_lt]
    constructor <;> linarith [hround.1, hround.2, hunits.1, hunits.2]
  have hk : |(k : ℚ)| < 10 ^ 28 := by
    rw [hx, abs_div, div_lt_iff₀ (by norm_num)] at hlt
    norm_num at hlt ⊢
    exact hlt
  have hkint : |k| < 10 ^ 28 := by exact_mod_cast hk
  rw [Int.abs_eq_natAbs] at hkint
  have hfixes := py.context.fixes k (-12) (by omega)
  rwa [zpow_neg, ← div_eq_mul_inv, show (10 : ℚ) ^ (12 : ℤ) = 10 ^ 12 by norm_num, ← hx] at hfixes

/-- Where the quantity and the amount have at most twelve decimals, no context rounds a committed
trade. -/
theorem onlyColumnsRound_of_decimals {db db' : Ledger} {s : Submission} {m k : ℤ}
    (hq : s.quantity = m / 10 ^ 12) (hamount : s.quantity * price = k / 10 ^ 12)
    (h : pumpStep py id ticker price db s = some db') :
    OnlyColumnsRound py id ticker price db s := by
  obtain ⟨tradeType, htype, -, c, rfl⟩ := pumpStep_eq_some h
  have htotal : c.totalValue = py.context.round (s.quantity * price) :=
    (Decimal.finite.inj c.totalValue_eq).symm
  have hproduct := round_of_written hamount (htotal ▸ c.total_written)
  have hcash : cashOf db id = c.row.cashBalance.value := cashOf_eq c.row_eq
  obtain ⟨held, hheld⟩ := exists_heldOf db id (py.upper ticker)
  have hpaid := c.cash_written
  have hmoved : Numeric.write ((pumpOrder py id ticker price s tradeType).newHeld py
      (heldOf db id (py.upper ticker))) = .ok c.held := c.held_written
  rw [htotal, hproduct] at hpaid
  rw [hheld] at hmoved
  unfold TradeOrder.newCash at hpaid
  unfold TradeOrder.newHeld at hmoved
  refine ⟨hproduct, ?_⟩
  rw [htype, hcash, hheld]
  cases tradeType with
  | buy =>
      refine ⟨round_of_written (k := c.row.cashBalance.units * 10 ^ 8 - k) ?_ hpaid,
        round_of_written (k := held.units * 10 ^ 8 + m) ?_ hmoved⟩
      · rw [hamount, Numeric.value]
        push_cast
        ring
      · rw [hq, Numeric.value]
        push_cast
        ring
  | sell =>
      refine ⟨round_of_written (k := c.row.cashBalance.units * 10 ^ 8 + k) ?_ hpaid,
        round_of_written (k := held.units * 10 ^ 8 - m) ?_ hmoved⟩
      · rw [hamount, Numeric.value]
        push_cast
        ring
      · rw [hq, Numeric.value]
        push_cast
        ring

/-- What a committed trade does to the two columns, as counts of their units. -/
inductive Exchanged (cash held cash' held' : Numeric) (quantity amount : ℚ) : TradeType → Prop
  | buy (funds : amount ≤ cash.value) (paid : Numeric.write (cash.value - amount) = .ok cash')
      (received : Numeric.write (held.value + quantity) = .ok held') :
      Exchanged cash held cash' held' quantity amount .buy
  | sell (shares : quantity ≤ held.value) (paid : Numeric.write (cash.value + amount) = .ok cash')
      (given : Numeric.write (held.value - quantity) = .ok held') :
      Exchanged cash held cash' held' quantity amount .sell

theorem pumpStep_exchanged {db db' : Ledger} {s : Submission}
    (hcolumns : OnlyColumnsRound py id ticker price db s)
    (h : pumpStep py id ticker price db s = some db') :
    ∃ tradeType cash held cash' held', TradeType.ofValue? s.tradeType = some tradeType ∧
      0 < s.quantity ∧ cashOf db id = cash.value ∧ heldOf db id (py.upper ticker) = held.value ∧
      cashOf db' id = cash'.value ∧ heldOf db' id (py.upper ticker) = held'.value ∧
      Exchanged cash held cash' held' s.quantity (s.quantity * price) tradeType := by
  obtain ⟨tradeType, htype, hquantity, c, rfl⟩ := pumpStep_eq_some h
  obtain ⟨hproduct, hsums⟩ := hcolumns
  have htotal : c.totalValue = s.quantity * price := by
    have htotal := c.totalValue_eq
    simp only [pumpOrder, mulDecimal, hproduct, Decimal.finite.injEq] at htotal
    exact htotal.symm
  have hcash : cashOf db id = c.row.cashBalance.value := cashOf_eq c.row_eq
  obtain ⟨held, hheld⟩ := exists_heldOf db id (py.upper ticker)
  refine ⟨tradeType, c.row.cashBalance, held, c.cashBalance, c.held, htype, hquantity, hcash, hheld,
    c.cashOf_after s.fresh, c.heldOf_after s.fresh, ?_⟩
  have hcovered : (pumpOrder py id ticker price s tradeType).Covered c.row.cashBalance.value
      (heldOf db id (py.upper ticker)) c.totalValue := c.covered
  have hpaid := c.cash_written
  have hmoved : Numeric.write ((pumpOrder py id ticker price s tradeType).newHeld py
      (heldOf db id (py.upper ticker))) = .ok c.held := c.held_written
  rw [htype, hcash, hheld] at hsums
  rw [hheld, htotal] at hcovered
  rw [htotal] at hpaid
  rw [hheld] at hmoved
  unfold TradeOrder.newCash at hpaid
  unfold TradeOrder.newHeld at hmoved
  cases tradeType with
  | buy =>
      simp only [pumpOrder, hsums.1, hsums.2] at hpaid hmoved
      exact .buy hcovered hpaid hmoved
  | sell =>
      simp only [pumpOrder, hsums.1, hsums.2] at hpaid hmoved
      exact .sell hcovered hpaid hmoved

/-- A committed trade gains at most what the two roundings give away. -/
theorem worth_pumpStep_le {db db' : Ledger} {s : Submission} (hprice : 0 < price)
    (hcolumns : OnlyColumnsRound py id ticker price db s)
    (h : pumpStep py id ticker price db s = some db') :
    worth py id ticker price db' ≤
      worth py id ticker price db + (price * quantityFavour s + amountFavour price s) := by
  obtain ⟨tradeType, cash, held, cash', held', htype, hq, hcash, hheld, hcash', hheld', hexchanged⟩ :=
    pumpStep_exchanged hcolumns h
  have hamount : 0 ≤ s.quantity * price := by positivity
  rw [worth, worth, quantityFavour, amountFavour, hcash, hheld, hcash', hheld', htype]
  cases hexchanged with
  | buy funds paid received =>
      have hreceived := mul_le_mul_of_nonneg_left (Numeric.write_add_le hq.le received) hprice.le
      dsimp only
      rw [Numeric.write_sub_eq funds paid]
      linarith
  | sell shares paid given =>
      have hpaid := Numeric.write_add_le hamount paid
      dsimp only
      rw [Numeric.write_sub_eq shares given]
      linarith

/-- From a portfolio with nothing negative it gains exactly that, and leaves nothing negative. -/
theorem worth_pumpStep_eq {db db' : Ledger} {s : Submission} (hprice : 0 < price)
    (hcolumns : OnlyColumnsRound py id ticker price db s)
    (hcash0 : 0 ≤ cashOf db id) (hheld0 : 0 ≤ heldOf db id (py.upper ticker))
    (h : pumpStep py id ticker price db s = some db') :
    worth py id ticker price db' =
      worth py id ticker price db + (price * quantityFavour s + amountFavour price s) ∧
    0 ≤ cashOf db' id ∧ 0 ≤ heldOf db' id (py.upper ticker) := by
  obtain ⟨tradeType, cash, held, cash', held', htype, hq, hcash, hheld, hcash', hheld', hexchanged⟩ :=
    pumpStep_exchanged hcolumns h
  have hamount : 0 ≤ s.quantity * price := by positivity
  rw [hcash] at hcash0
  rw [hheld] at hheld0
  rw [worth, worth, quantityFavour, amountFavour, hcash, hheld, hcash', hheld', htype]
  cases hexchanged with
  | buy funds paid received =>
      refine ⟨?_, Numeric.write_nonneg (sub_nonneg.mpr funds) paid,
        Numeric.write_nonneg (by positivity) received⟩
      dsimp only
      rw [Numeric.write_sub_eq funds paid, Numeric.write_add_eq hheld0 hq.le received]
      ring
  | sell shares paid given =>
      refine ⟨?_, Numeric.write_nonneg (by positivity) paid,
        Numeric.write_nonneg (sub_nonneg.mpr shares) given⟩
      dsimp only
      rw [Numeric.write_sub_eq shares given, Numeric.write_add_eq hcash0 hamount paid]
      ring

/-! ## 3. Sequences of trades -/

/-- After `n` trades the worth has grown by at most `n` half units of the cash column. -/
def NoPump (py : Python) (id : Uuid) (ticker : String) (price : ℚ) (start : Ledger) (n : ℕ)
    (db : Ledger) : Prop :=
  worth py id ticker price db ≤ worth py id ticker price start + n * (1 / 20000)

/-- What rounding the quantities and the amounts of a sequence gives to the trader. -/
def favour (price : ℚ) (submissions : List Submission) : ℚ :=
  price * (submissions.map quantityFavour).sum + (submissions.map (amountFavour price)).sum

theorem favour_concat (price : ℚ) (submissions : List Submission) (s : Submission) :
    favour price (submissions ++ [s]) =
      favour price submissions + (price * quantityFavour s + amountFavour price s) := by
  unfold favour
  simp only [List.map_append, List.map_cons, List.map_nil, List.sum_append, List.sum_singleton]
  ring

theorem sum_amountFavour_le (price : ℚ) (submissions : List Submission) :
    (submissions.map (amountFavour price)).sum ≤ submissions.length * (1 / 20000) := by
  have h := List.sum_le_card_nsmul (submissions.map (amountFavour price)) (1 / 20000) (by
    intro x hx
    obtain ⟨s, -, rfl⟩ := List.mem_map.mp hx
    exact amountFavour_le price s)
  rwa [List.length_map, nsmul_eq_mul] at h

theorem sum_quantityFavour_of_units {submissions : List Submission}
    (h : ∀ s ∈ submissions, ∃ n : ℤ, s.quantity = n / 10 ^ 4) :
    (submissions.map quantityFavour).sum = 0 := by
  apply List.sum_eq_zero
  intro x hx
  obtain ⟨s, hs, rfl⟩ := List.mem_map.mp hx
  obtain ⟨n, hn⟩ := h s hs
  exact quantityFavour_units hn

/-- A sequence gains at most what its roundings give away. -/
theorem worth_le_of_run {start db : Ledger} {submissions : List Submission} (hprice : 0 < price)
    (hcolumns : EveryStep (pumpStep py id ticker price) start submissions
      (OnlyColumnsRound py id ticker price))
    (hrun : Run (pumpStep py id ticker price) start submissions db) :
    worth py id ticker price db ≤ worth py id ticker price start + favour price submissions := by
  refine hrun.induction (motive := fun es t =>
    EveryStep (pumpStep py id ticker price) start es (OnlyColumnsRound py id ticker price) →
    worth py id ticker price t ≤ worth py id ticker price start + favour price es) ?_ ?_ hcolumns
  · simp [favour]
  · intro es t s u ht ih hstep hevery
    rw [everyStep_concat_iff ht] at hevery
    have hearlier := ih hevery.1
    have hlast := worth_pumpStep_le hprice hevery.2 hstep
    rw [favour_concat]
    linarith

theorem worth_eq_of_run {start db : Ledger} {submissions : List Submission} (hprice : 0 < price)
    (hcolumns : EveryStep (pumpStep py id ticker price) start submissions
      (OnlyColumnsRound py id ticker price))
    (hcash : 0 ≤ cashOf start id) (hheld : 0 ≤ heldOf start id (py.upper ticker))
    (hrun : Run (pumpStep py id ticker price) start submissions db) :
    worth py id ticker price db = worth py id ticker price start + favour price submissions := by
  refine (hrun.induction (motive := fun es t =>
    EveryStep (pumpStep py id ticker price) start es (OnlyColumnsRound py id ticker price) →
    worth py id ticker price t = worth py id ticker price start + favour price es ∧
      0 ≤ cashOf t id ∧ 0 ≤ heldOf t id (py.upper ticker)) ?_ ?_ hcolumns).1
  · intro _
    exact ⟨by simp [favour], hcash, hheld⟩
  · intro es t s u ht ih hstep hevery
    rw [everyStep_concat_iff ht] at hevery
    obtain ⟨hearlier, hcash, hheld⟩ := ih hevery.1
    obtain ⟨hlast, hafter⟩ := worth_pumpStep_eq hprice hevery.2 hcash hheld hstep
    refine ⟨?_, hafter⟩
    rw [hlast, hearlier, favour_concat, add_assoc]

/-- Trading at a constant price is no pump if the quantities of the sequence, rounded, do not favour
the trader; and where nothing stored is negative, it is none exactly if what their rounding gives, at
the price, and what rounding the amounts gives stay within half a unit for each trade. -/
theorem noPump_iff_favour_le {start db : Ledger} {submissions : List Submission} (hprice : 0 < price)
    (hcolumns : EveryStep (pumpStep py id ticker price) start submissions
      (OnlyColumnsRound py id ticker price))
    (hrun : Run (pumpStep py id ticker price) start submissions db) :
    ((submissions.map quantityFavour).sum ≤ 0 →
      NoPump py id ticker price start submissions.length db) ∧
    (0 ≤ cashOf start id → 0 ≤ heldOf start id (py.upper ticker) →
      (NoPump py id ticker price start submissions.length db ↔
        favour price submissions ≤ submissions.length * (1 / 20000))) := by
  unfold NoPump
  constructor
  · intro hquantities
    have hworth := worth_le_of_run hprice hcolumns hrun
    have hamounts := sum_amountFavour_le price submissions
    have hgiven := mul_nonpos_of_nonneg_of_nonpos hprice.le hquantities
    unfold favour at hworth
    linarith
  · intro hcash hheld
    rw [worth_eq_of_run hprice hcolumns hcash hheld hrun]
    exact add_le_add_iff_left _

end Pump

/-- One portfolio with 100 in cash. -/
def hundred : Ledger where
  portfolios := [⟨1, 1, ⟨1000000, by decide⟩⟩]
  positions := []
  trades := []
  cashTransactions := []

/-- Half a unit of the position column, at a million a share. -/
def halfUnit : Submission where
  tradeType := "BUY"
  quantity := 1 / 20000
  idempotencyKey := 1
  cache := .always 1000000
  fresh := ⟨1, 1⟩

theorem pumpStep_halfUnit :
    (pumpStep .default 1 "BTC" 1000000 hundred halfUnit).map (worth .default 1 "BTC" 1000000) =
      some 150 := by
  decide +kernel

theorem everyStep_halfUnit :
    EveryStep (pumpStep .default 1 "BTC" 1000000) hundred [halfUnit]
      (OnlyColumnsRound .default 1 "BTC" 1000000) := by
  obtain ⟨db, hstep, -⟩ := Option.map_eq_some_iff.mp pumpStep_halfUnit
  refine (everyStep_concat_iff (run_nil_iff.mpr rfl)).mpr ⟨everyStep_nil, ?_⟩
  exact onlyColumnsRound_of_decimals (m := 50000000) (k := 50000000000000)
    (by norm_num [halfUnit]) (by norm_num [halfUnit]) hstep

/-- Half a unit is rounded up to a whole one, in the buyer's favour. -/
theorem noPump_iff_favour_le_halfUnit :
    ∃ db, Run (pumpStep .default 1 "BTC" 1000000) hundred [halfUnit] db ∧
      (NoPump .default 1 "BTC" 1000000 hundred 1 db ↔
        favour 1000000 [halfUnit] ≤ 1 * (1 / 20000)) := by
  obtain ⟨db, hstep, -⟩ := Option.map_eq_some_iff.mp pumpStep_halfUnit
  have hrun := run_cons_iff.mpr ⟨db, hstep, run_nil_iff.mpr rfl⟩
  have h := noPump_iff_favour_le (by norm_num) everyStep_halfUnit hrun
  exact ⟨db, hrun, by simpa using h.2 (by decide +kernel) (by decide +kernel)⟩

/-- Paying 50 for what is stored as 0.0001 shares, worth 100. -/
theorem not_noPump_halfUnit :
    ∃ db, Run (pumpStep .default 1 "BTC" 1000000) hundred [halfUnit] db ∧
      ¬ NoPump .default 1 "BTC" 1000000 hundred 1 db := by
  obtain ⟨db, hstep, hworth⟩ := Option.map_eq_some_iff.mp pumpStep_halfUnit
  refine ⟨db, run_cons_iff.mpr ⟨db, hstep, run_nil_iff.mpr rfl⟩, ?_⟩
  have hbefore : worth .default 1 "BTC" 1000000 hundred = 100 := by decide +kernel
  unfold NoPump
  rw [hworth, hbefore]
  norm_num

end DjasktTrading.Ledger
