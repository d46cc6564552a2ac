import DjasktTrading.Brokerage.Strategies

/-!
# Orchestrator — `BrokerAuthOrchestrator`

Links are rows, sessions and login cooldowns are Redis keys.  The templates of the two kinds of keys
begin differently, so each kind stands as a store of its own.
-/

open Reasoning

namespace DjasktTrading.Brokerage

/-- The links, Redis, and the clock. -/
structure World where
  links : List UserBrokerageLink
  sessions : Sessions
  cooldowns : Expiring String Unit ℕ
  now : ℕ

/-- `LOGIN_COOLDOWN_SECONDS` -/
def loginCooldownSeconds : ℕ := 2

/-- `COOLDOWN_KEY_TEMPLATE` -/
def cooldownKey (userId : UserId) (brokerageName : String) : String :=
  "login_cooldown_user_" ++ toString userId ++ "_brokerage_" ++ brokerageName

namespace World

def initial : World where
  links := []
  sessions := Expiring.empty
  cooldowns := Expiring.empty
  now := 0

/-- The user's link to a brokerage. -/
def link? (w : World) (userId : UserId) (brokerage : Brokerage) : Option UserBrokerageLink :=
  w.links.find? fun link => link.user = userId ∧ link.brokerage.id = brokerage.id

/-- The session that is cached now. -/
def session? (w : World) (userId : UserId) (brokerageName : String) : Option CachedSession :=
  BrokerSessionCache.get w.sessions w.now userId brokerageName

end World

/-- `_get_brokerage_and_link` -/
def getBrokerageAndLink (py : Python) (p : Platform) (w : World) (user : User)
    (brokerageName : String) : Except Exn (Brokerage × UserBrokerageLink) :=
  match p.active? brokerageName with
  | none => .error (.service .unknownBroker
      ("No active brokerage configured for: " ++ py.repr brokerageName)
      (some "Brokerage matching query does not exist."))
  | some brokerage =>
      match w.link? user.id brokerage with
      | none => .error (.service .noBrokerageLink
          (user.text ++ " has not linked brokerage " ++ py.repr brokerageName ++ ".") none)
      | some link => .ok (brokerage, link)

/-- `_enforce_login_cooldown` -/
def enforceLoginCooldown (py : Python) (w : World) (userId : UserId) (brokerageName : String) :
    Except Exn Unit × World × List LogRecord :=
  let key := cooldownKey userId brokerageName
  match Expiring.get w.cooldowns w.now key with
  | none => (.ok (),
      { w with cooldowns := w.cooldowns.set key () (w.now + loginCooldownSeconds * second) }, [])
  | some _ =>
      (.error (.service .brokerRateLimited ("Login to " ++ py.repr brokerageName ++
          " was attempted too recently; wait " ++ toString loginCooldownSeconds ++
          "s and try again.") none),
        w, [{
          level := .warning
          message := "Broker login rejected: cooldown still active."
          extra := [("user_id", toString userId), ("brokerage_name", brokerageName)]
          excInfo := none }])

/-- What `authenticate_and_cache` resolves before it calls the broker. -/
def resolveLogin (py : Python) (p : Platform) (w : World) (user : User) (brokerageName : String) :
    Except Exn (UserBrokerageLink × BrokerageEndpoint) := do
  getStrategyClass py brokerageName
  let (brokerage, link) ← getBrokerageAndLink py p w user brokerageName
  match p.endpoint? brokerage "login" with
  | none => .error (.service .unknownBroker
      ("No login endpoint configured for: " ++ py.repr brokerageName)
      (some "BrokerageEndpoint matching query does not exist."))
  | some endpoint => .ok (link, endpoint)

/-- `authenticate_and_cache` -/
def authenticateAndCache (py : Python) (p : Platform) (w : World) (broker : Broker) (user : User)
    (brokerageName : String) (loginSecrets : Dict) :
    Except Exn (BrokerSession × ℕ) × World × List LogRecord :=
  match resolveLogin py p w user brokerageName with
  | .error e => (.error e, w, [])
  | .ok (link, endpoint) =>
      match enforceLoginCooldown py w user.id brokerageName with
      | (.error e, w, records) => (.error e, w, records)
      | (.ok _, w, records) =>
          match authenticate py endpoint broker user link.userBrokerageData loginSecrets with
          | (.error e, logged) => (.error e, w, records ++ logged)
          | (.ok session, logged) =>
              match BrokerSessionCache.store w.sessions w.now user.id brokerageName session with
              | (.error e, sessions) => (.error e, { w with sessions }, records ++ logged)
              | (.ok ttlSeconds, sessions) =>
                  (.ok (session, ttlSeconds), { w with sessions }, records ++ logged)

/-- The broker-side part of `logout_and_clear`, and what it raises past its `except` clause. -/
def brokerSideLogout (py : Python) (p : Platform) (broker : Broker) (user : User)
    (brokerage : Brokerage) (link : UserBrokerageLink) (cachedSession : CachedSession) :
    Except Exn Unit × List LogRecord :=
  let failed (reason : String) : LogRecord := {
    level := .warning
    message := "Broker-side logout failed; clearing local session anyway."
    extra := [("brokerage_name", brokerage.name), ("user_id", toString user.id),
      ("reason", reason)]
    excInfo := none }
  match p.endpoint? brokerage "logout" with
  | none => (.ok (), [failed "BrokerageEndpoint matching query does not exist."])
  | some endpoint =>
      match logout py endpoint broker user link.userBrokerageData cachedSession with
      | (.ok _, records) => (.ok (), records)
      | (.error (.service .brokerAPI detail _), records) => (.ok (), records ++ [failed detail])
      | (.error e, records) => (.error e, records)

/-- `logout_and_clear`: the session is deleted whatever the broker says. -/
def logoutAndClear (py : Python) (p : Platform) (w : World) (broker : Broker) (user : User)
    (brokerageName : String) : Except Exn Bool × World × List LogRecord :=
  match getStrategyClass py brokerageName with
  | .error e => (.error e, w, [])
  | .ok _ =>
      match getBrokerageAndLink py p w user brokerageName with
      | .error e => (.error e, w, [])
      | .ok (brokerage, link) =>
          match w.session? user.id brokerageName with
          | none => (.ok false, w, [])
          | some cachedSession =>
              let (outcome, records) :=
                brokerSideLogout py p broker user brokerage link cachedSession
              let w := { w with
                sessions := BrokerSessionCache.delete w.sessions user.id brokerageName }
              (outcome.map fun _ => true, w, records)

/-! ## 1. What the two calls leave -/

section

variable {py : Python} {p : Platform} {w : World} {user : User} {name : String}

theorem getBrokerageAndLink_eq_ok {brokerage : Brokerage} {link : UserBrokerageLink}
    (h : getBrokerageAndLink py p w user name = .ok (brokerage, link)) :
    p.active? name = some brokerage ∧ w.link? user.id brokerage = some link := by
  unfold getBrokerageAndLink at h
  split at h
  · cases h
  · rename_i b hactive
    split at h
    · cases h
    · rename_i l hlink
      cases h
      exact ⟨hactive, hlink⟩

theorem resolveLogin_eq_ok {link : UserBrokerageLink} {endpoint : BrokerageEndpoint}
    (h : resolveLogin py p w user name = .ok (link, endpoint)) :
    ∃ brokerage, p.active? name = some brokerage ∧ w.link? user.id brokerage = some link := by
  unfold resolveLogin at h
  cases hclass : getStrategyClass py name with
  | error e =>
      rw [hclass] at h
      cases h
  | ok _ =>
      cases hlink : getBrokerageAndLink py p w user name with
      | error e =>
          rw [hclass, hlink] at h
          cases h
      | ok r =>
          obtain ⟨brokerage, l⟩ := r
          rw [hclass, hlink] at h
          simp only [bind, Except.bind] at h
          split at h
          · cases h
          · cases h
            exact ⟨brokerage, getBrokerageAndLink_eq_ok hlink⟩

/-- The session that a strategy gives names the client of the link. -/
theorem authenticate_clientId {endpoint : BrokerageEndpoint} {broker : Broker}
    {linkData loginSecrets : Dict} {session : BrokerSession} {records : List LogRecord}
    (h : authenticate py endpoint broker user linkData loginSecrets = (.ok session, records)) :
    session.clientId = AngelOneAuthStrategy.item linkData "client_id" := by
  unfold authenticate at h
  split at h
  · cases h
  · split at h
    · cases h
    · rename_i rawResponse _
      split at h
      · cases h
      · rename_i s hparse
        obtain rfl : s = session := Except.ok.inj (Prod.mk.inj h).1
        unfold AngelOneAuthStrategy.parseResponse at hparse
        split at hparse
        · rename_i entries
          simp only [bind, Except.bind, pure, Except.pure] at hparse
          split at hparse
          · cases hparse
          · split at hparse
            · cases hparse
            · split at hparse
              · cases hparse
              · cases hparse
                rfl
        · cases hparse

theorem enforceLoginCooldown_keeps (py : Python) (w : World) (userId : UserId) (name : String) :
    (enforceLoginCooldown py w userId name).2.1.links = w.links ∧
      (enforceLoginCooldown py w userId name).2.1.sessions = w.sessions ∧
        (enforceLoginCooldown py w userId name).2.1.now = w.now := by
  unfold enforceLoginCooldown
  dsimp only
  split
  · exact ⟨rfl, rfl, rfl⟩
  · exact ⟨rfl, rfl, rfl⟩

/-- A login stores a session for the link it has found, or leaves the sessions as they are. -/
theorem authenticateAndCache_cases (py : Python) (p : Platform) (w : World) (user : User)
    (name : String) (broker : Broker) (loginSecrets : Dict) :
    let after := (authenticateAndCache py p w broker user name loginSecrets).2.1
    after.links = w.links ∧ after.now = w.now ∧
      (after.sessions = w.sessions ∨
        ∃ brokerage link cached ends, p.active? name = some brokerage ∧
          w.link? user.id brokerage = some link ∧
          encode (AngelOneAuthStrategy.item link.userBrokerageData "client_id") =
            .ok cached.clientId ∧
          after.sessions = w.sessions.set (sessionKey user.id name) cached ends) := by
  unfold authenticateAndCache
  cases hresolve : resolveLogin py p w user name with
  | error e => exact ⟨rfl, rfl, .inl rfl⟩
  | ok r =>
      obtain ⟨link, endpoint⟩ := r
      have hkeeps := enforceLoginCooldown_keeps py w user.id name
      rcases hcooldown : enforceLoginCooldown py w user.id name with ⟨_ | _, v, records⟩
      all_goals
        rw [hcooldown] at hkeeps
        obtain ⟨hlinks, hsessions, hnow⟩ := hkeeps
      · exact ⟨hlinks, hnow, .inl hsessions⟩
      · dsimp only
        rcases hauth : authenticate py endpoint broker user link.userBrokerageData loginSecrets with
          ⟨e | session, logged⟩
        · exact ⟨hlinks, hnow, .inl hsessions⟩
        · dsimp only
          unfold BrokerSessionCache.store
          cases hencode : session.encode with
          | error e => exact ⟨hlinks, hnow, .inl hsessions⟩
          | ok cached =>
              obtain ⟨brokerage, hactive, hlink⟩ := resolveLogin_eq_ok hresolve
              have hclient := BrokerSession.encode_clientId hencode
              rw [authenticate_clientId hauth] at hclient
              refine ⟨hlinks, hnow, .inr ⟨brokerage, link, cached,
                v.now + secondsUntilIstMidnight v.now / second * second, hactive, hlink, hclient, ?_⟩⟩
              dsimp only at hsessions ⊢
              rw [hsessions]

/-- A logout clears the session, or there is none, or the link or its brokerage is missing. -/
theorem logoutAndClear_cases (py : Python) (p : Platform) (w : World) (user : User) (name : String)
    (broker : Broker) :
    let after := (logoutAndClear py p w broker user name).2.1
    after = w ∨ after = { w with sessions := w.sessions.delete (sessionKey user.id name) } := by
  unfold logoutAndClear
  split
  · exact .inl rfl
  · split
    · exact .inl rfl
    · split
      · exact .inl rfl
      · exact .inr rfl

end

end DjasktTrading.Brokerage
