import DjasktTrading.Ledger.Models
import DjasktTrading.Reasoning.Expiry

/-!
# Token denylist — revoked tokens in Redis

Single tokens are revoked by their `jti`, all tokens of a user by a cutoff time.  Redis keeps a key
until its time to live is over.  All servers read one clock, in microseconds; numbers that are
stored as texts stand as themselves.
-/

open Reasoning

namespace DjasktTrading.Accounts

/-- Times are microseconds since the epoch. -/
def second : ℕ := 1000000

def day : ℕ := 24 * 60 * 60 * second

/-- `int(t.timestamp())` -/
def timestamp (t : ℕ) : ℕ := t / second

/-- The keys of `DENYLIST_KEY_TEMPLATE` and `USER_CUTOFF_KEY_TEMPLATE`. -/
inductive RedisKey where
  /-- `deny:{jti}` -/
  | deny (jti : Uuid)
  /-- `logout_all:{user_id}` -/
  | logoutAll (userId : UserId)
deriving DecidableEq

abbrev Redis : Type := Expiring RedisKey ℕ ℕ

/-- `USER_CUTOFF_TTL_SECONDS` -/
def userCutoffTtlSeconds : ℕ := 7 * 24 * 60 * 60

namespace TokenDenylist

def deny (redis : Redis) (now : ℕ) (jti : Uuid) (ttlSeconds : ℤ) : Redis :=
  if ttlSeconds ≤ 0 then redis
  else redis.set (.deny jti) 1 (now + ttlSeconds.toNat * second)

def isDenied (redis : Redis) (now : ℕ) (jti : Uuid) : Bool :=
  (redis.get now (.deny jti)).isSome

def denyAllForUser (redis : Redis) (now : ℕ) (userId : UserId) (cutoffTimestamp : ℕ) : Redis :=
  redis.set (.logoutAll userId) cutoffTimestamp (now + userCutoffTtlSeconds * second)

def isDeniedForUser (redis : Redis) (now : ℕ) (userId : UserId) (issuedAt : ℕ) : Bool :=
  match redis.get now (.logoutAll userId) with
  | none => false
  | some cutoff => issuedAt ≤ cutoff

/-! ## 1. What a denial does -/

section

variable {redis : Redis} {now : ℕ} {jti : Uuid} {userId : UserId}

/-- The denial of a token that is still valid lasts as long as the token. -/
theorem keeps_deny {exp : ℕ} (hvalid : now < exp * second) :
    (deny redis now jti (exp - timestamp now)).Keeps (.deny jti) (fun _ => True) (exp * second) := by
  -- the time to live counts whole seconds from a clock that is rounded down
  have hfloor : timestamp now < exp := Nat.div_lt_of_lt_mul (by rwa [mul_comm])
  have hend : exp * second ≤ now + (exp - timestamp now) * second := by
    have hle : timestamp now * second ≤ now := Nat.div_mul_le_self now second
    rw [Nat.sub_mul]
    omega
  have httl : ¬ (exp : ℤ) - timestamp now ≤ 0 := by omega
  have hnat : ((exp : ℤ) - timestamp now).toNat = exp - timestamp now := by omega
  unfold deny
  rw [if_neg httl, hnat]
  exact Expiring.keeps_set_self trivial hend

/-- It leaves all other keys alone. -/
theorem deny_of_ne {key : RedisKey} (hne : key ≠ .deny jti) (ttlSeconds : ℤ) :
    deny redis now jti ttlSeconds key = redis key := by
  unfold deny
  split
  · rfl
  · exact Expiring.set_of_ne hne _ _

theorem Keeps.deny {key : RedisKey} {P : ℕ → Prop} {t : ℕ} (h : redis.Keeps key P t)
    (hne : key ≠ .deny jti) (ttlSeconds : ℤ) :
    (TokenDenylist.deny redis now jti ttlSeconds).Keeps key P t := by
  obtain ⟨value, ends, hkey, hrest⟩ := h
  exact ⟨value, ends, (deny_of_ne hne ttlSeconds).trans hkey, hrest⟩

/-- A cutoff leaves the denied tokens alone. -/
theorem denyAllForUser_deny (redis : Redis) (now : ℕ) (userId : UserId) (cutoffTimestamp : ℕ)
    (jti : Uuid) :
    denyAllForUser redis now userId cutoffTimestamp (.deny jti) = redis (.deny jti) :=
  Expiring.set_of_ne RedisKey.noConfusion _ _

theorem Keeps.denyAllForUser {P : ℕ → Prop} {t : ℕ} (h : redis.Keeps (.deny jti) P t)
    (cutoffTimestamp : ℕ) :
    (TokenDenylist.denyAllForUser redis now userId cutoffTimestamp).Keeps (.deny jti) P t :=
  h.set_of_ne RedisKey.noConfusion _ _

theorem isDenied_of_keeps {t : ℕ} (h : redis.Keeps (.deny jti) (fun _ => True) t)
    (hnow : now < t) : isDenied redis now jti = true := by
  obtain ⟨value, hget, -⟩ := h.get hnow
  rw [isDenied, hget]
  rfl

theorem isDenied_of_eq_none (h : redis (.deny jti) = none) : isDenied redis now jti = false := by
  rw [isDenied, Expiring.get_of_eq_none h]
  rfl

/-- A cutoff that is kept denies what was issued at or before it. -/
theorem isDeniedForUser_of_keeps {issuedAt : ℕ} {t : ℕ}
    (h : redis.Keeps (.logoutAll userId) (issuedAt ≤ ·) t) (hnow : now < t) :
    isDeniedForUser redis now userId issuedAt = true := by
  obtain ⟨cutoff, hget, hcutoff⟩ := h.get hnow
  unfold isDeniedForUser
  rw [hget]
  exact decide_eq_true hcutoff

end

end TokenDenylist

end DjasktTrading.Accounts
