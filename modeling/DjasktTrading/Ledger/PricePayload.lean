import DjasktTrading.Brokerage.Models
import DjasktTrading.Ledger.TradeService
import DjasktTrading.Reasoning.Numerals

/-!
# Price payloads — what `get_live_price` makes of a cached text

`Decimal(str(json.loads(raw)["price"]))`: two parsers in a row, then a comparison with zero.
`json.loads` is an argument; `Decimal` reads a numeric string.
-/

open Reasoning

namespace DjasktTrading.Ledger

open Brokerage

/-! ## 1. The two parsers -/

structure Parsers where
  loads : String → Except LoadsExn Json
  /-- the value of a decimal digit outside ASCII -/
  digit? : Char → Option (Fin 10)

/-- `MAX_EMAX` and `MIN_ETINY` -/
def exponents : ExponentRange := ⟨999999999999999999, -1999999999999999997⟩

def Parsers.ascii? (parsers : Parsers) (c : Char) : Option Char :=
  if c.toNat < 128 then some c else (parsers.digit? c).map fun d => Nat.digitChar d

/-- What `Decimal` reads of a text: no blanks around it, no underscores, letters of either case. -/
def Parsers.spelling? (py : Python) (parsers : Parsers) (text : String) : Option (List Char) :=
  ((py.strip text).toList.filter (· ≠ '_')).mapM fun c => (parsers.ascii? c).map Char.toLower

/-- `Decimal(text)` -/
def decimalOf (py : Python) (parsers : Parsers) (text : String) : DecodedPrice :=
  match (parsers.spelling? py text).bind (numeral? exponents) with
  | none => .malformed
  | some .nan => .nan
  | some (.infinity false) => .infinity
  | some (.infinity true) => .negInfinity
  | some (.finite value) => .finite value

/-- `Decimal(str(json.loads(raw)["price"]))` -/
def decodePrice (py : Python) (parsers : Parsers) (raw : String) : DecodedPrice :=
  match parsers.loads raw with
  | .error .jsonDecodeError => .malformed
  | .error .other => .uncaught
  | .ok (.dict payload) =>
      match Dict.get? payload "price" with
      -- `KeyError`
      | none => .malformed
      | some price => decimalOf py parsers (price.text py)
  -- `TypeError`
  | .ok _ => .malformed

/-- The cache as the service reads it. -/
def PriceCache.parsed (py : Python) (parsers : Parsers) (get : String → CacheReply) : PriceCache where
  get := get
  decode := decodePrice py parsers

/-! ## 2. Payloads that are filtered -/

/-- `Decimal` reads the text as a positive infinity or a NaN. -/
def NamesNonFinite (py : Python) (parsers : Parsers) (text : String) : Prop :=
  ∃ cs, parsers.spelling? py text = some cs ∧ (NamesInfinity cs ∨ NamesNaN cs)

/-- If `json.loads` raises it is a `JSONDecodeError`, and a price it finds is not a name. -/
structure Filterable (py : Python) (parsers : Parsers) (raw : String) : Prop where
  loads : ∀ e, parsers.loads raw = .error e → e = .jsonDecodeError
  price : ∀ payload price, parsers.loads raw = .ok (.dict payload) →
    Dict.get? payload "price" = some price → ¬ NamesNonFinite py parsers (price.text py)

/-- The decoded prices that `get_live_price` returns positive or refuses. -/
def DecodedPrice.Handled : DecodedPrice → Prop
  | .finite _ | .negInfinity | .malformed => True
  | .infinity | .nan | .uncaught => False

section

variable {py : Python} {parsers : Parsers} {text raw : String}

theorem handled_decimalOf_iff :
    (decimalOf py parsers text).Handled ↔ ¬ NamesNonFinite py parsers text := by
  unfold decimalOf NamesNonFinite
  cases hspelling : parsers.spelling? py text with
  | none => exact iff_of_true trivial (by simp)
  | some cs =>
      simp only [Option.bind_some, Option.some.injEq, exists_eq_left']
      rw [← numeral?_eq_infinity_iff exponents, ← numeral?_eq_nan_iff exponents]
      cases numeral? exponents cs with
      | none => exact iff_of_true trivial (by simp)
      | some numeral =>
          cases numeral with
          | finite value => exact iff_of_true trivial (by simp)
          | nan => exact iff_of_false False.elim (by simp)
          | infinity negative =>
              cases negative with
              | false => exact iff_of_false False.elim (by simp)
              | true => exact iff_of_true trivial (by simp)

example : decimalOf .default parsers " +In_f " = .infinity := rfl

example : decimalOf .default parsers "-sNaN12" = .nan := rfl

theorem handled_decodePrice_iff :
    (decodePrice py parsers raw).Handled ↔ Filterable py parsers raw := by
  unfold decodePrice
  cases hloads : parsers.loads raw with
  | error e =>
      cases e with
      | jsonDecodeError =>
          refine iff_of_true trivial ⟨fun e h => ?_, fun payload price h => ?_⟩
          · rw [hloads] at h
            exact (Except.error.inj h).symm
          · rw [hloads] at h
            cases h
      | other => exact iff_of_false False.elim fun h => by cases h.loads _ hloads
  | ok value =>
      have hraised : ∀ e, parsers.loads raw = .error e → e = .jsonDecodeError := by
        intro e h
        rw [hloads] at h
        cases h
      cases value with
      | dict payload =>
          dsimp only
          cases hprice : Dict.get? payload "price" with
          | none =>
              refine iff_of_true trivial ⟨hraised, fun payload' price h hprice' => ?_⟩
              rw [hloads] at h
              cases h
              rw [hprice] at hprice'
              cases hprice'
          | some price =>
              dsimp only
              rw [handled_decimalOf_iff]
              constructor
              · intro hname
                refine ⟨hraised, fun payload' price' h hprice' => ?_⟩
                rw [hloads] at h
                cases h
                rw [hprice] at hprice'
                cases hprice'
                exact hname
              · exact fun h => h.price payload price hloads hprice
      | null | bool | int | float | str | surrogates | list =>
          refine iff_of_true trivial ⟨hraised, fun payload price h => ?_⟩
          rw [hloads] at h
          cases h

end

/-! ## 3. The filter -/

/-- `get_live_price` returns a positive finite price or raises `PriceUnavailableError`, and nothing is
computed from another price. -/
structure TotalFilter (py : Python) (cache : PriceCache) (ticker : String) : Prop where
  outcome : (∃ price, 0 < price ∧ getLivePrice py cache ticker = .ok (.finite price)) ∨
    ∃ detail, getLivePrice py cache ticker = .error (.ledgerService .priceUnavailable detail)
  multiplies : ∀ req tradeType order, req.ticker = ticker →
    priceTrade py cache req tradeType = .ok order →
      ∃ price, order.price = .finite price ∧
        order.totalValue = .finite (py.context.round (req.quantity * price))

theorem outcome_iff_handled {py : Python} {cache : PriceCache} {ticker : String} :
    ((∃ price, 0 < price ∧ getLivePrice py cache ticker = .ok (.finite price)) ∨
        ∃ detail, getLivePrice py cache ticker = .error (.ledgerService .priceUnavailable detail)) ↔
      ∀ raw, cache.get (priceKey (py.upper ticker)) = .raw raw → (cache.decode raw).Handled := by
  unfold getLivePrice
  cases hreply : cache.get (priceKey (py.upper ticker)) with
  | unreachable => exact iff_of_true (.inr ⟨_, rfl⟩) nofun
  | missing => exact iff_of_true (.inr ⟨_, rfl⟩) nofun
  | raw text =>
      simp only [CacheReply.raw.injEq, forall_eq']
      cases cache.decode text with
      | malformed => exact iff_of_true (.inr ⟨_, rfl⟩) trivial
      | negInfinity => exact iff_of_true (.inr ⟨_, rfl⟩) trivial
      | finite price =>
          refine iff_of_true ?_ trivial
          dsimp only
          by_cases hpos : price ≤ 0
          · rw [if_pos hpos]
            exact .inr ⟨_, rfl⟩
          · rw [if_neg hpos]
            exact .inl ⟨price, not_le.mp hpos, rfl⟩
      | infinity => exact iff_of_false (by simp) False.elim
      | nan => exact iff_of_false (by simp) False.elim
      | uncaught => exact iff_of_false (by simp) False.elim

/-- **A filter on what the cache holds.**  `get_live_price` is total, for whatever is stored under the
key of the ticker, exactly when `json.loads` raises nothing but a `JSONDecodeError` and the price does
not name a positive infinity or a NaN. -/
theorem totalFilter_iff_filterable (py : Python) (parsers : Parsers) (get : String → CacheReply)
    (ticker : String) :
    TotalFilter py (.parsed py parsers get) ticker ↔
      ∀ raw, get (priceKey (py.upper ticker)) = .raw raw → Filterable py parsers raw := by
  have hhandled : ∀ raw, ((PriceCache.parsed py parsers get).decode raw).Handled ↔
      Filterable py parsers raw := fun raw => handled_decodePrice_iff
  constructor
  · intro h raw hraw
    exact (hhandled raw).mp (outcome_iff_handled.mp h.outcome raw hraw)
  · intro h
    have houtcome := outcome_iff_handled.mpr fun raw hraw => (hhandled raw).mpr (h raw hraw)
    refine ⟨houtcome, ?_⟩
    rintro req tradeType order rfl horder
    -- what is multiplied is what the service has returned
    obtain ⟨price, hprice, rfl⟩ := priceTrade_eq_ok horder
    rcases houtcome with ⟨value, -, hvalue⟩ | ⟨detail, hraised⟩
    · obtain rfl := Except.ok.inj (hprice.symm.trans hvalue)
      exact ⟨value, rfl, rfl⟩
    · cases hprice.symm.trans hraised

/-- A payload that `json.loads` accepts; the float is infinite. -/
def infinitePrice : Parsers where
  loads _ := .ok (.dict [("price", .float "inf")])
  digit? _ := none

theorem not_totalFilter_infinitePrice :
    ¬ TotalFilter .default (.parsed .default infinitePrice
      fun _ => .raw "\x7b\"price\": Infinity\x7d") "BTC" := by
  intro h
  have hprice : getLivePrice .default (.parsed .default infinitePrice
      fun _ => .raw "\x7b\"price\": Infinity\x7d") "BTC" = .ok .infinity := by
    decide +kernel
  rcases h.outcome with ⟨price, -, hfinite⟩ | ⟨detail, hraised⟩
  · cases hprice.symm.trans hfinite
  · cases hprice.symm.trans hraised

end DjasktTrading.Ledger
