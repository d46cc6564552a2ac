import DjasktTrading.Ledger.Models

/-!
# Price service — live prices from the shared cache

`get_live_price` over whatever the cache holds under the ticker's key.  Decoding the payload,
`Decimal(str(json.loads(raw)["price"]))`, is the standard library's work and stands as a function
of the raw text.
-/

open Reasoning

namespace DjasktTrading.Ledger

/-- What the price decoding makes of a cached text. -/
inductive DecodedPrice where
  | finite (value : ℚ)
  | infinity
  | negInfinity
  | nan
  /-- `JSONDecodeError`, `KeyError`, `InvalidOperation` or `TypeError`. -/
  | malformed
  /-- An exception outside the `except` clause. -/
  | uncaught
deriving DecidableEq

/-- What `self._redis.get(key)` gives. -/
inductive CacheReply where
  | unreachable
  | missing
  | raw (text : String)
deriving DecidableEq

/-- The price cache a request reads: the replies to its keys, and the decoding of their texts. -/
structure PriceCache where
  get : String → CacheReply
  decode : String → DecodedPrice

/-- `PRICE_KEY_TEMPLATE` -/
def priceKey (ticker : String) : String := "TICKER:" ++ ticker ++ ":PRICE"

private def unavailable (detail : String) : Except Exn Decimal :=
  .error (.ledgerService .priceUnavailable detail)

/-- `PriceCacheService.get_live_price` -/
def getLivePrice (py : Python) (cache : PriceCache) (ticker : String) : Except Exn Decimal :=
  match cache.get (priceKey (py.upper ticker)) with
  | .unreachable => unavailable ("Price cache unreachable while looking up '" ++ ticker ++ "'.")
  | .missing =>
      unavailable ("No live price available for '" ++ ticker ++ "' (missing or expired cache).")
  | .raw text =>
      match cache.decode text with
      | .malformed => unavailable ("Malformed price payload for '" ++ ticker ++ "' in cache.")
      | .uncaught => .error .operationalError
      -- `price <= 0` raises for a NaN, outside the `try`
      | .nan => .error .invalidOperation
      | .negInfinity =>
          unavailable ("Invalid non-positive price cached for '" ++ ticker ++ "'.")
      | .infinity => .ok .infinity
      | .finite price =>
          if price ≤ 0 then
            unavailable ("Invalid non-positive price cached for '" ++ ticker ++ "'.")
          else .ok (.finite price)

/-- A price the service returns is positive. -/
theorem getLivePrice_pos {py : Python} {cache : PriceCache} {ticker : String} {price : ℚ}
    (h : getLivePrice py cache ticker = .ok (.finite price)) : 0 < price := by
  unfold getLivePrice at h
  split at h
  · cases h
  · cases h
  · split at h
    · cases h
    · cases h
    · cases h
    · cases h
    · cases h
    · split at h
      · cases h
      · rename_i hpos
        cases h
        exact not_le.mp hpos

/-- A price that the service returns was in the cache. -/
theorem getLivePrice_raw {py : Python} {cache : PriceCache} {ticker : String} {price : Decimal}
    (h : getLivePrice py cache ticker = .ok price) :
    ∃ text, cache.get (priceKey (py.upper ticker)) = .raw text := by
  unfold getLivePrice at h
  split at h
  · cases h
  · cases h
  · rename_i text hreply
    exact ⟨text, hreply⟩

/-- A cache that answers every key with one finite price. -/
def PriceCache.always (price : ℚ) : PriceCache where
  get _ := .raw ""
  decode _ := .finite price

end DjasktTrading.Ledger
