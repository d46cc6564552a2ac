import DjasktTrading.Brokerage.SessionCache
import Mathlib.Order.Bounds.Defs

/-!
# Midnight — the session cache at any instant, in any time zone

`seconds_until_ist_midnight` on aware datetimes.  Instants are integers, microseconds since the epoch;
the session cache on a clock that starts at the epoch is the case of natural numbers.
-/

open Reasoning

namespace DjasktTrading.Brokerage.Zoned

/-! ## 1. Aware datetimes -/

/-- An aware `datetime`: what the clock on the wall shows there, in microseconds, and `utcoffset()`. -/
structure DateTime where
  wall : ℤ
  utcOffset : ℤ
deriving DecidableEq

namespace DateTime

def instant (d : DateTime) : ℤ := d.wall - d.utcOffset

def astimezone (d : DateTime) (utcOffset : ℤ) : DateTime := ⟨d.instant + utcOffset, utcOffset⟩

/-- `d + timedelta` -/
def add (d : DateTime) (delta : ℤ) : DateTime := { d with wall := d.wall + delta }

/-- `d.replace(hour=0, minute=0, second=0, microsecond=0)` -/
def startOfDay (d : DateTime) : DateTime := { d with wall := d.wall / day * day }

/-- `d - d'` in one time zone. -/
def sub (d d' : DateTime) : ℤ := d.wall - d'.wall

@[simp] theorem instant_astimezone (d : DateTime) (utcOffset : ℤ) :
    (d.astimezone utcOffset).instant = d.instant :=
  Int.add_sub_cancel d.instant utcOffset

end DateTime

/-- `seconds_until_ist_midnight`; `IST` is UTC+5:30. -/
def secondsUntilIstMidnight (now : DateTime) : ℤ :=
  let nowIst := now.astimezone istOffset
  let nextMidnightIst := (nowIst.add day).startOfDay
  nextMidnightIst.sub nowIst

/-- `int(timedelta.total_seconds())` of a duration that is not negative. -/
def wholeSeconds (duration : ℤ) : ℤ := duration / second

abbrev Sessions : Type := Expiring String CachedSession ℤ

namespace BrokerSessionCache

/-- `store`, executed at the instant `now`; a time to live of 0 ends the key at once. -/
def store (sessions : Sessions) (now : DateTime) (userId : UserId) (brokerageName : String)
    (session : BrokerSession) : Except Exn ℤ × Sessions :=
  let ttlSeconds := wholeSeconds (secondsUntilIstMidnight (now.astimezone istOffset))
  match session.encode with
  | .error e => (.error e, sessions)
  | .ok cached => (.ok ttlSeconds,
      sessions.set (sessionKey userId brokerageName) cached (now.instant + ttlSeconds * second))

def get (sessions : Sessions) (t : ℤ) (userId : UserId) (brokerageName : String) :
    Option CachedSession :=
  Expiring.get sessions t (sessionKey userId brokerageName)

def delete (sessions : Sessions) (userId : UserId) (brokerageName : String) : Sessions :=
  sessions.delete (sessionKey userId brokerageName)

end BrokerSessionCache

/-- The three texts of a session. -/
def texts (session : CachedSession) : BrokerSession where
  jwtToken := .str session.jwtToken
  feedToken := .str session.feedToken
  clientId := .str session.clientId

@[simp] theorem encode_texts (session : CachedSession) : (texts session).encode = .ok session := rfl

/-! ## 2. IST midnights -/

def IsIstMidnight (m : ℤ) : Prop := (day : ℤ) ∣ m + istOffset

/-- The first IST midnight strictly after an instant. -/
def NextIstMidnight (now m : ℤ) : Prop := IsLeast {m | IsIstMidnight m ∧ now < m} m

theorem secondsUntilIstMidnight_eq (now : DateTime) :
    secondsUntilIstMidnight now = day - (now.instant + istOffset) % day := by
  have hdiv := Int.mul_ediv_add_emod (now.instant + istOffset) day
  unfold secondsUntilIstMidnight DateTime.sub DateTime.startOfDay DateTime.add DateTime.astimezone
  dsimp only
  rw [Int.add_ediv_of_dvd_right (dvd_refl _), Int.ediv_self (by decide), Int.add_mul, one_mul,
    mul_comm]
  omega

theorem nextIstMidnight_secondsUntil (now : DateTime) :
    NextIstMidnight now.instant (now.instant + secondsUntilIstMidnight now) := by
  have hpos := Int.emod_nonneg (now.instant + istOffset) (show (day : ℤ) ≠ 0 by decide)
  have hlt := Int.emod_lt_of_pos (now.instant + istOffset) (show (0 : ℤ) < day by decide)
  have hdiv := Int.mul_ediv_add_emod (now.instant + istOffset) day
  rw [secondsUntilIstMidnight_eq]
  refine ⟨⟨⟨(now.instant + istOffset) / day + 1, ?_⟩, by omega⟩, ?_⟩
  · rw [mul_add, mul_one]
    omega
  · rintro m ⟨⟨k, hk⟩, hafter⟩
    -- the multiples of a day that come after `now` come after its own day
    have hnext : (now.instant + istOffset) / day + 1 ≤ k := by
      refine Int.add_one_le_of_lt (Int.ediv_lt_of_lt_mul (by decide) ?_)
      rw [mul_comm, ← hk]
      omega
    have hmul := Int.mul_le_mul_of_nonneg_left hnext (show (0 : ℤ) ≤ day by decide)
    rw [mul_add, mul_one, ← hk] at hmul
    omega

theorem NextIstMidnight.eq {now : DateTime} {m : ℤ} (h : NextIstMidnight now.instant m) :
    m = now.instant + secondsUntilIstMidnight now :=
  h.unique (nextIstMidnight_secondsUntil now)

/-- The next midnight is ahead, a day away at most. -/
theorem secondsUntilIstMidnight_bounds (now : DateTime) :
    0 < secondsUntilIstMidnight now ∧ secondsUntilIstMidnight now ≤ day := by
  have hpos := Int.emod_nonneg (now.instant + istOffset) (show (day : ℤ) ≠ 0 by decide)
  have hlt := Int.emod_lt_of_pos (now.instant + istOffset) (show (0 : ℤ) < day by decide)
  rw [secondsUntilIstMidnight_eq]
  omega

/-- The time left does not depend on the zone that `now` is given in. -/
theorem secondsUntilIstMidnight_astimezone (now : DateTime) (utcOffset : ℤ) :
    secondsUntilIstMidnight (now.astimezone utcOffset) = secondsUntilIstMidnight now := by
  rw [secondsUntilIstMidnight_eq, secondsUntilIstMidnight_eq, DateTime.instant_astimezone]

/-! ## 3. The clock from the epoch -/

theorem secondsUntilIstMidnight_natCast (now : ℕ) (utcOffset : ℤ) :
    secondsUntilIstMidnight ⟨now + utcOffset, utcOffset⟩ = Brokerage.secondsUntilIstMidnight now := by
  have hdiv := Nat.div_add_mod (now + istOffset) day
  have hlt := Nat.mod_lt (now + istOffset) (show 0 < day by decide)
  have hleft : Brokerage.secondsUntilIstMidnight now = day - (now + istOffset) % day := by
    unfold Brokerage.secondsUntilIstMidnight
    dsimp only
    rw [Nat.add_div_right _ (by decide), Nat.succ_mul, mul_comm]
    omega
  rw [secondsUntilIstMidnight_eq, DateTime.instant, hleft]
  push_cast [Nat.cast_sub hlt.le]
  rw [add_sub_cancel_right]

/-- The entries of a cache whose clock starts at the epoch. -/
def ofEpoch (sessions : Brokerage.Sessions) : Sessions := fun key =>
  (sessions key).map fun entry => (entry.1, (entry.2 : ℤ))

theorem get_ofEpoch (sessions : Brokerage.Sessions) (now : ℕ) (userId : UserId) (name : String) :
    BrokerSessionCache.get (ofEpoch sessions) now userId name =
      Brokerage.BrokerSessionCache.get sessions now userId name := by
  unfold BrokerSessionCache.get Brokerage.BrokerSessionCache.get Expiring.get ofEpoch
  cases sessions (sessionKey userId name) with
  | none => rfl
  | some entry =>
      obtain ⟨cached, ends⟩ := entry
      simp only [Option.map_some, Nat.cast_lt]

theorem store_ofEpoch (sessions : Brokerage.Sessions) (now : ℕ) (utcOffset : ℤ) (userId : UserId)
    (name : String) (session : BrokerSession) :
    (BrokerSessionCache.store (ofEpoch sessions) ⟨now + utcOffset, utcOffset⟩ userId name session).2 =
      ofEpoch (Brokerage.BrokerSessionCache.store sessions now userId name session).2 := by
  unfold BrokerSessionCache.store Brokerage.BrokerSessionCache.store
  rw [secondsUntilIstMidnight_astimezone, secondsUntilIstMidnight_natCast]
  cases session.encode with
  | error e => rfl
  | ok cached =>
      funext key
      dsimp only
      by_cases hkey : key = sessionKey userId name
      · subst hkey
        rw [Expiring.set_self, ofEpoch, Expiring.set_self, Option.map_some, DateTime.instant,
          wholeSeconds]
        push_cast
        rw [add_sub_cancel_right]
      · rw [Expiring.set_of_ne hkey, ofEpoch, ofEpoch, Expiring.set_of_ne hkey]

/-! ## 4. The life of a stored session -/

/-- A write of the cache. -/
inductive Write where
  | store (now : DateTime) (userId : UserId) (brokerageName : String) (session : BrokerSession)
  | delete (userId : UserId) (brokerageName : String)

namespace Write

def apply (sessions : Sessions) : Write → Sessions
  | .store now userId brokerageName session =>
      (BrokerSessionCache.store sessions now userId brokerageName session).2
  | .delete userId brokerageName => BrokerSessionCache.delete sessions userId brokerageName

/-- A write for another user or another brokerage. -/
def Other (userId : UserId) (brokerageName : String) : Write → Prop
  | .store _ userId' brokerageName' _ => userId' ≠ userId ∨ brokerageName' ≠ brokerageName
  | .delete userId' brokerageName' => userId' ≠ userId ∨ brokerageName' ≠ brokerageName

variable {userId userId' : UserId} {name name' : String}

theorem sessionKey_ne (h : userId' ≠ userId ∨ name' ≠ name) :
    sessionKey userId name ≠ sessionKey userId' name' := by
  intro heq
  obtain ⟨rfl, rfl⟩ := sessionKey_inj.mp heq
  exact h.elim (· rfl) (· rfl)

theorem apply_other {write : Write} (h : write.Other userId name) (sessions : Sessions) :
    write.apply sessions (sessionKey userId name) = sessions (sessionKey userId name) := by
  cases write with
  | store now userId' name' session =>
      dsimp only [apply, BrokerSessionCache.store]
      cases session.encode with
      | error e => rfl
      | ok cached => exact Expiring.set_of_ne (sessionKey_ne h) _ _
  | delete userId' name' => exact if_neg (sessionKey_ne h)

theorem foldl_apply_other {writes : List Write} (h : ∀ write ∈ writes, write.Other userId name)
    (sessions : Sessions) :
    writes.foldl apply sessions (sessionKey userId name) = sessions (sessionKey userId name) := by
  induction writes generalizing sessions with
  | nil => rfl
  | cons write writes ih =>
      obtain ⟨hwrite, hwrites⟩ := List.forall_mem_cons.mp h
      rw [List.foldl_cons, ih hwrites, apply_other hwrite]

end Write

/-- A session that is stored at `now` is read back at `now` and up to a second before midnight, and
from midnight on it is not, unless its key is written again; and midnight is at most a day away. -/
structure LivesUntilMidnight (sessions : Sessions) (now : DateTime) (userId : UserId)
    (brokerageName : String) (session : CachedSession) (midnight : ℤ) : Prop where
  ahead : 0 < midnight - now.instant
  withinADay : midnight - now.instant ≤ day
  lives : ∀ writes : List Write, (∀ write ∈ writes, write.Other userId brokerageName) →
    let stored := (BrokerSessionCache.store sessions now userId brokerageName (texts session)).2
    let later := writes.foldl Write.apply stored
    BrokerSessionCache.get later now.instant userId brokerageName = some session ∧
      (∀ t, now.instant ≤ t → t ≤ midnight - second →
        BrokerSessionCache.get later t userId brokerageName = some session) ∧
      ∀ t, midnight ≤ t → BrokerSessionCache.get later t userId brokerageName = none

/-- What is read back of a stored session: all of it, for the whole seconds up to midnight. -/
theorem get_store {writes : List Write} {sessions : Sessions} {now : DateTime} {userId : UserId}
    {name : String} (session : CachedSession) (hother : ∀ write ∈ writes, write.Other userId name)
    (t : ℤ) :
    BrokerSessionCache.get (writes.foldl Write.apply
        (BrokerSessionCache.store sessions now userId name (texts session)).2) t userId name =
      if t < now.instant + wholeSeconds (secondsUntilIstMidnight now) * second then some session
      else none := by
  unfold BrokerSessionCache.get Expiring.get
  rw [Write.foldl_apply_other hother, BrokerSessionCache.store, encode_texts]
  dsimp only
  rw [Expiring.set_self, secondsUntilIstMidnight_astimezone]

/-- **Sessions live until IST midnight** exactly if midnight is a second away at least. -/
theorem livesUntilMidnight_iff (sessions : Sessions) {now : DateTime} (userId : UserId)
    (brokerageName : String) (session : CachedSession) {midnight : ℤ}
    (hmidnight : NextIstMidnight now.instant midnight) :
    LivesUntilMidnight sessions now userId brokerageName session midnight ↔
      second ≤ midnight - now.instant := by
  obtain ⟨hahead, hday⟩ := secondsUntilIstMidnight_bounds now
  have hleft : midnight - now.instant = secondsUntilIstMidnight now := by
    rw [hmidnight.eq, add_sub_cancel_left]
  have hdiv := Int.mul_ediv_add_emod (secondsUntilIstMidnight now) second
  have hrest := Int.emod_nonneg (secondsUntilIstMidnight now) (show (second : ℤ) ≠ 0 by decide)
  have hshort := Int.emod_lt_of_pos (secondsUntilIstMidnight now) (show (0 : ℤ) < second by decide)
  rw [mul_comm] at hdiv
  constructor
  · intro h
    have hnone : ∀ write ∈ ([] : List Write), write.Other userId brokerageName := by simp
    obtain ⟨hnow, -⟩ := h.lives [] hnone
    rw [get_store session hnone, wholeSeconds] at hnow
    by_contra hless
    -- less than a second is no whole second
    have hzero : secondsUntilIstMidnight now / second = 0 :=
      Int.ediv_eq_zero_of_lt (by omega) (by omega)
    rw [hzero, zero_mul, add_zero, if_neg (lt_irrefl _)] at hnow
    cases hnow
  · intro hsecond
    -- the whole seconds end at midnight or less than a second before it
    refine ⟨by omega, by omega, fun writes hother => ?_⟩
    dsimp only
    refine ⟨?_, fun t hfrom hto => ?_, fun t hafter => ?_⟩
    · rw [get_store session hother, wholeSeconds, if_pos (by omega)]
    · rw [get_store session hother, wholeSeconds, if_pos (by omega)]
    · rw [get_store session hother, wholeSeconds, if_neg (by omega)]

/-- Noon in UTC. -/
theorem livesUntilMidnight_iff_sample :
    LivesUntilMidnight Expiring.empty ⟨20000 * day + 12 * 3600 * second, 0⟩ 1 "angel_one"
        ⟨"jwt", "feed", "C1"⟩ (20000 * day + 66600 * second) ↔
      (second : ℤ) ≤ 20000 * day + 66600 * second - (20000 * day + 12 * 3600 * second - 0) :=
  livesUntilMidnight_iff _ _ _ _
    (nextIstMidnight_secondsUntil ⟨20000 * day + 12 * 3600 * second, 0⟩)

/-- The last microsecond of a day in IST: what is stored is gone at once. -/
theorem not_livesUntilMidnight_lastMicrosecond :
    NextIstMidnight (DateTime.instant ⟨20000 * day - 1, istOffset⟩) (20000 * day - istOffset) ∧
      ¬ LivesUntilMidnight Expiring.empty ⟨20000 * day - 1, istOffset⟩ 1 "angel_one"
        ⟨"jwt", "feed", "C1"⟩ (20000 * day - istOffset) := by
  refine ⟨nextIstMidnight_secondsUntil ⟨20000 * day - 1, istOffset⟩, fun h => ?_⟩
  obtain ⟨hnow, -⟩ := h.lives [] (by simp)
  have hgone : BrokerSessionCache.get (BrokerSessionCache.store Expiring.empty
      ⟨20000 * day - 1, istOffset⟩ 1 "angel_one" (texts ⟨"jwt", "feed", "C1"⟩)).2
        (DateTime.instant ⟨20000 * day - 1, istOffset⟩) 1 "angel_one" = none := by
    decide +kernel
  rw [List.foldl_nil, hgone] at hnow
  cases hnow

end DjasktTrading.Brokerage.Zoned
