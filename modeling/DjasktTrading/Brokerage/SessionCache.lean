import DjasktTrading.Brokerage.Models
import DjasktTrading.Reasoning.Expiry

/-!
# Session cache — broker sessions in Redis until the next IST midnight

A session is a hash of three texts under a key made of the user's id and the brokerage's name.  All
times are microseconds since the epoch, read from one clock.
-/

open Reasoning

namespace DjasktTrading.Brokerage

/-- `BrokerSession`; its fields are whatever the broker and the link hold. -/
structure BrokerSession where
  jwtToken : Json
  feedToken : Json
  clientId : Json

/-- The hash as it is read back. -/
structure CachedSession where
  jwtToken : String
  feedToken : String
  clientId : String
deriving DecidableEq

def second : ℕ := 1000000

def day : ℕ := 24 * 60 * 60 * second

/-- IST is UTC+5:30. -/
def istOffset : ℕ := (5 * 60 * 60 + 30 * 60) * second

/-- `seconds_until_ist_midnight`; +5:30 has been the zone's constant offset since October 1945. -/
def secondsUntilIstMidnight (now : ℕ) : ℕ :=
  let nowIst := now + istOffset
  let nextMidnightIst := (nowIst + day) / day * day
  nextMidnightIst - nowIst

/-- `KEY_TEMPLATE` -/
def sessionKey (userId : UserId) (brokerageName : String) : String :=
  "auth_user_" ++ toString userId ++ "_brokerage_" ++ brokerageName

abbrev Sessions : Type := Expiring String CachedSession ℕ

/-- What the Redis client sends for a value: texts, in UTF-8, and numbers only. -/
def encode : Json → Except Exn String
  | .str s => .ok s
  | .int n => .ok (toString n)
  | .float text => .ok text
  | .surrogates _ => .error (.other "UnicodeEncodeError")
  | _ => .error (.other "DataError")

def BrokerSession.encode (session : BrokerSession) : Except Exn CachedSession := do
  let jwtToken ← Brokerage.encode session.jwtToken
  let feedToken ← Brokerage.encode session.feedToken
  let clientId ← Brokerage.encode session.clientId
  return { jwtToken, feedToken, clientId }

theorem BrokerSession.encode_clientId {session : BrokerSession} {cached : CachedSession}
    (h : session.encode = .ok cached) : Brokerage.encode session.clientId = .ok cached.clientId := by
  unfold BrokerSession.encode at h
  simp only [bind, Except.bind, pure, Except.pure] at h
  split at h
  · cases h
  · split at h
    · cases h
    · split at h
      · cases h
      · rename_i clientId hclient
        cases h
        exact hclient

/-! ## 1. Operations -/

namespace BrokerSessionCache

/-- `store`: the hash and its time to live, or nothing; a time to live of 0 ends the key at once. -/
def store (sessions : Sessions) (now : ℕ) (userId : UserId) (brokerageName : String)
    (session : BrokerSession) : Except Exn ℕ × Sessions :=
  let ttlSeconds := secondsUntilIstMidnight now / second
  match session.encode with
  | .error e => (.error e, sessions)
  | .ok cached => (.ok ttlSeconds,
      sessions.set (sessionKey userId brokerageName) cached (now + ttlSeconds * second))

def get (sessions : Sessions) (now : ℕ) (userId : UserId) (brokerageName : String) :
    Option CachedSession :=
  Expiring.get sessions now (sessionKey userId brokerageName)

def delete (sessions : Sessions) (userId : UserId) (brokerageName : String) : Sessions :=
  sessions.delete (sessionKey userId brokerageName)

end BrokerSessionCache

/-! ## 2. Keys -/

theorem underscore_notMem_repr (n : ℤ) : '_' ∉ n.repr.toList := by
  rw [Int.repr_eq_if]
  split
  · simp
  · simp

/-- The text of an id gives the id. -/
theorem int_repr_injective {m n : ℤ} (h : m.repr = n.repr) : m = n := by
  have hread : ∀ k : ℕ, Nat.ofDigitChars 10 k.repr.toList 0 = k := by
    intro k
    rw [Nat.toList_repr]
    exact Nat.ofDigitChars_toDigits (by decide) (by decide)
  have hdash : ∀ k l : ℕ, k.repr ≠ "-" ++ l.repr := by
    intro k l heq
    have hmem : '-' ∈ Nat.toDigits 10 k := by
      rw [← Nat.toList_repr, heq]
      simp
    simpa using Nat.isDigit_of_mem_toDigits (by decide) (by decide) hmem
  rw [Int.repr_eq_if, Int.repr_eq_if] at h
  split_ifs at h with hm hn hn
  · have hsame := hread m.toNat
    rw [h, hread n.toNat] at hsame
    omega
  · exact absurd h (hdash _ _)
  · exact absurd h.symm (hdash _ _)
  · have hrepr := String.append_right_inj _ |>.mp h
    have hsame := hread (-m).toNat
    rw [hrepr, hread (-n).toNat] at hsame
    omega

/-- Two texts that are the same have the same part before a first occurrence of a character. -/
theorem append_cons_inj {c : Char} {xs xs' ys ys' : List Char} (hxs : c ∉ xs) (hxs' : c ∉ xs')
    (h : xs ++ c :: ys = xs' ++ c :: ys') : xs = xs' ∧ ys = ys' := by
  induction xs generalizing xs' with
  | nil =>
      cases xs' with
      | nil => exact ⟨rfl, (List.cons.inj h).2⟩
      | cons x' xs' =>
          obtain ⟨rfl, -⟩ := List.cons.inj h
          exact absurd (List.mem_cons_self ..) hxs'
  | cons x xs ih =>
      cases xs' with
      | nil =>
          obtain ⟨rfl, -⟩ := List.cons.inj h
          exact absurd (List.mem_cons_self ..) hxs
      | cons x' xs' =>
          obtain ⟨rfl, hrest⟩ := List.cons.inj h
          obtain ⟨rfl, hys⟩ := ih (List.not_mem_of_not_mem_cons hxs)
            (List.not_mem_of_not_mem_cons hxs') hrest
          exact ⟨rfl, hys⟩

/-- A key that fills a template with an id and a name gives both back. -/
theorem template_inj (start : String) {userId userId' : UserId} {name name' : String} :
    start ++ toString userId ++ "_brokerage_" ++ name =
        start ++ toString userId' ++ "_brokerage_" ++ name' ↔ userId = userId' ∧ name = name' := by
  constructor
  · intro h
    have htext : ∀ (id : UserId) (name : String),
        (start ++ toString id ++ "_brokerage_" ++ name).toList =
          start.toList ++ (id.repr.toList ++ '_' :: ("brokerage_".toList ++ name.toList)) := by
      intro id name
      simp
    have hlist := congrArg String.toList h
    rw [htext, htext] at hlist
    obtain ⟨hid, hname⟩ := append_cons_inj (underscore_notMem_repr _) (underscore_notMem_repr _)
      (List.append_cancel_left hlist)
    exact ⟨int_repr_injective (String.toList_inj.mp hid),
      String.toList_inj.mp (List.append_cancel_left hname)⟩
  · rintro ⟨rfl, rfl⟩
    rfl

/-- A key names one user and one brokerage. -/
theorem sessionKey_inj {userId userId' : UserId} {name name' : String} :
    sessionKey userId name = sessionKey userId' name' ↔ userId = userId' ∧ name = name' :=
  template_inj "auth_user_"

end DjasktTrading.Brokerage
