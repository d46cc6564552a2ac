import DjasktTrading.Brokerage.Outcomes
import DjasktTrading.Reasoning.Slots

/-!
# Concurrency — broker logins and logouts in steps

`authenticate_and_cache` and `logout_and_clear` between the database, Redis and the broker: each step
reads, calls or writes one of them, and the steps of all requests interleave.
-/

open Reasoning

namespace DjasktTrading.Brokerage.Concurrency

/-! ## 1. Steps of a request -/

/-- Where a login stands. -/
inductive LoginPhase where
  | resolve
  | enforceCooldown (link : UserBrokerageLink) (endpoint : BrokerageEndpoint)
  | callBroker (link : UserBrokerageLink) (endpoint : BrokerageEndpoint)
  | store (session : BrokerSession)
  | answered (outcome : Except Exn (BrokerSession × ℕ))

/-- Where a logout stands; from the cache read on, `cachedSession` is what it has read. -/
inductive LogoutPhase where
  | resolve
  | readCache (brokerage : Brokerage) (link : UserBrokerageLink)
  | callBroker (brokerage : Brokerage) (link : UserBrokerageLink) (cachedSession : CachedSession)
  /-- the `finally` clause; `outcome` is what the broker call has come to -/
  | delete (cachedSession : CachedSession) (outcome : Except Exn Unit)
  | answered (outcome : Except Exn Bool)

variable (py : Python) (p : Platform)

/-- The next step of `authenticate_and_cache`. -/
def LoginPhase.next (w : World) (broker : Broker) (user : User) (brokerageName : String)
    (loginSecrets : Dict) : LoginPhase → LoginPhase × World × List LogRecord
  | .resolve =>
      match resolveLogin py p w user brokerageName with
      | .error e => (.answered (.error e), w, [])
      | .ok (link, endpoint) => (.enforceCooldown link endpoint, w, [])
  | .enforceCooldown link endpoint =>
      -- SET NX EX in one step: two logins cannot both pass
      match enforceLoginCooldown py w user.id brokerageName with
      | (.error e, w, records) => (.answered (.error e), w, records)
      | (.ok _, w, records) => (.callBroker link endpoint, w, records)
  | .callBroker link endpoint =>
      match authenticate py endpoint broker user link.userBrokerageData loginSecrets with
      | (.error e, records) => (.answered (.error e), w, records)
      | (.ok session, records) => (.store session, w, records)
  | .store session =>
      match BrokerSessionCache.store w.sessions w.now user.id brokerageName session with
      | (.error e, sessions) => (.answered (.error e), { w with sessions }, [])
      | (.ok ttlSeconds, sessions) => (.answered (.ok (session, ttlSeconds)), { w with sessions }, [])
  | .answered outcome => (.answered outcome, w, [])

/-- The next step of `logout_and_clear`. -/
def LogoutPhase.next (w : World) (broker : Broker) (user : User) (brokerageName : String) :
    LogoutPhase → LogoutPhase × World × List LogRecord
  | .resolve =>
      match getStrategyClass py brokerageName with
      | .error e => (.answered (.error e), w, [])
      | .ok _ =>
          match getBrokerageAndLink py p w user brokerageName with
          | .error e => (.answered (.error e), w, [])
          | .ok (brokerage, link) => (.readCache brokerage link, w, [])
  | .readCache brokerage link =>
      match w.session? user.id brokerageName with
      | none => (.answered (.ok false), w, [])
      | some cachedSession => (.callBroker brokerage link cachedSession, w, [])
  | .callBroker brokerage link cachedSession =>
      -- the slow call; nothing of the cache is read again after it
      let (outcome, records) := brokerSideLogout py p broker user brokerage link cachedSession
      (.delete cachedSession outcome, w, records)
  | .delete _ outcome =>
      (.answered (outcome.map fun _ => true),
        { w with sessions := BrokerSessionCache.delete w.sessions user.id brokerageName }, [])
  | .answered outcome => (.answered outcome, w, [])

section

variable (w : World) (broker : Broker) (user : User) (brokerageName : String) (loginSecrets : Dict)

/-- A step of a login, the records before it kept. -/
def LoginPhase.stepAfter (r : LoginPhase × World × List LogRecord) :
    LoginPhase × World × List LogRecord :=
  let (phase, w, records) := r.1.next py p r.2.1 broker user brokerageName loginSecrets
  (phase, w, r.2.2 ++ records)

/-- Steps in a row are `authenticate_and_cache`. -/
theorem LoginPhase.iterate_next :
    (LoginPhase.stepAfter py p broker user brokerageName loginSecrets)^[4] (.resolve, w, []) =
      Prod.map LoginPhase.answered id
        (authenticateAndCache py p w broker user brokerageName loginSecrets) := by
  unfold authenticateAndCache
  cases hresolve : resolveLogin py p w user brokerageName with
  | error e => simp [stepAfter, next, hresolve]
  | ok r =>
      obtain ⟨link, endpoint⟩ := r
      rcases hcooldown : enforceLoginCooldown py w user.id brokerageName with ⟨_ | _, v, records⟩
      · simp [stepAfter, next, hresolve, hcooldown]
      · rcases hauth : authenticate py endpoint broker user link.userBrokerageData loginSecrets with
          ⟨e | session, logged⟩
        · simp [stepAfter, next, hresolve, hcooldown, hauth]
        · rcases hstore : BrokerSessionCache.store v.sessions v.now user.id brokerageName session with
            ⟨e | ttlSeconds, sessions⟩
          · simp [stepAfter, next, hresolve, hcooldown, hauth, hstore]
          · simp [stepAfter, next, hresolve, hcooldown, hauth, hstore]

/-- A step of a logout, the records before it kept. -/
def LogoutPhase.stepAfter (r : LogoutPhase × World × List LogRecord) :
    LogoutPhase × World × List LogRecord :=
  let (phase, w, records) := r.1.next py p r.2.1 broker user brokerageName
  (phase, w, r.2.2 ++ records)

/-- Steps in a row are `logout_and_clear`. -/
theorem LogoutPhase.iterate_next :
    (LogoutPhase.stepAfter py p broker user brokerageName)^[4] (.resolve, w, []) =
      Prod.map LogoutPhase.answered id (logoutAndClear py p w broker user brokerageName) := by
  unfold logoutAndClear
  cases hclass : getStrategyClass py brokerageName with
  | error e => simp [stepAfter, next, hclass]
  | ok _ =>
      cases hlink : getBrokerageAndLink py p w user brokerageName with
      | error e => simp [stepAfter, next, hclass, hlink]
      | ok r =>
          obtain ⟨brokerage, link⟩ := r
          cases hcached : w.session? user.id brokerageName with
          | none => simp [stepAfter, next, hclass, hlink, hcached]
          | some cachedSession => simp [stepAfter, next, hclass, hlink, hcached]

end

/-! ## 2. All requests -/

inductive Task where
  | login (broker : Broker) (user : User) (brokerageName : String) (loginSecrets : Dict)
      (phase : LoginPhase)
  | logout (broker : Broker) (user : User) (brokerageName : String) (phase : LogoutPhase)

def Task.next (w : World) : Task → Task × World × List LogRecord
  | .login broker user brokerageName loginSecrets phase =>
      let (next, w, records) := phase.next py p w broker user brokerageName loginSecrets
      (.login broker user brokerageName loginSecrets next, w, records)
  | .logout broker user brokerageName phase =>
      let (next, w, records) := phase.next py p w broker user brokerageName
      (.logout broker user brokerageName next, w, records)

/-- The links, Redis and the clock, the requests that have come, and what they have logged. -/
structure Requests where
  world : World
  tasks : List Task
  records : List LogRecord

def Requests.initial (w : World) : Requests where
  world := w
  tasks := []
  records := []

inductive Event where
  | arriveLogin (broker : Broker) (user : User) (brokerageName : String) (loginSecrets : Dict)
  | arriveLogout (broker : Broker) (user : User) (brokerageName : String)
  /-- the next step of a request -/
  | advance (i : ℕ)
  | wait (duration : ℕ)

def step (r : Requests) : Event → Option Requests
  | .arriveLogin broker user brokerageName loginSecrets => some { r with
      tasks := r.tasks ++ [.login broker user brokerageName loginSecrets .resolve] }
  | .arriveLogout broker user brokerageName => some { r with
      tasks := r.tasks ++ [.logout broker user brokerageName .resolve] }
  | .advance i =>
      match r.tasks[i]? with
      | none => none
      | some task =>
          let (next, world, records) := task.next py p r.world
          some { world, tasks := r.tasks.set i next, records := r.records ++ records }
  | .wait duration => some { r with world := { r.world with now := r.world.now + duration } }

/-! ## 3. What a step does to the cache -/

/-- When a session ends that is stored at an instant. -/
def storedUntil (now : ℕ) : ℕ := now + secondsUntilIstMidnight now / second * second

/-- The key that the next step of a request writes, and what it leaves there. -/
def Task.write? : Task → Option (String × Option CachedSession)
  | .login _ user brokerageName _ (.store session) =>
      match session.encode with
      | .ok cached => some (sessionKey user.id brokerageName, some cached)
      | .error _ => none
  | .logout _ user brokerageName (.delete _ _) => some (sessionKey user.id brokerageName, none)
  | _ => none

/-- The sessions after a write. -/
def written (w : World) : Option (String × Option CachedSession) → Sessions
  | none => w.sessions
  | some (key, some cached) => w.sessions.set key cached (storedUntil w.now)
  | some (key, none) => w.sessions.delete key

/-- What a logout has read that has not deleted yet, and the key it has read it from. -/
def Task.holds : Task → Option (String × CachedSession)
  | .logout _ user brokerageName (.callBroker _ _ cachedSession) =>
      some (sessionKey user.id brokerageName, cachedSession)
  | .logout _ user brokerageName (.delete cachedSession _) =>
      some (sessionKey user.id brokerageName, cachedSession)
  | _ => none

/-- The key that a logout deletes next, and the session that it has read and would send: without an
endpoint, or a field that is missing, the attempt ends before anything is sent. -/
def Task.deletes : Task → Option (String × CachedSession)
  | .logout _ user brokerageName (.delete cachedSession _) =>
      some (sessionKey user.id brokerageName, cachedSession)
  | _ => none

namespace Requests

variable (r : Requests)

def write? : Event → Option (String × Option CachedSession)
  | .advance i => r.tasks[i]?.bind Task.write?
  | _ => none

def Writes (key : String) (e : Event) : Prop := ∃ content, r.write? e = some (key, content)

def holds (i : ℕ) : Option (String × CachedSession) := r.tasks[i]?.bind Task.holds

def deletes (i : ℕ) : Option (String × CachedSession) := r.tasks[i]?.bind Task.deletes

/-- The session that is there now. -/
def cached? (key : String) : Option CachedSession := Expiring.get r.world.sessions r.world.now key

end Requests

section

variable {py p} {r r' : Requests} {e : Event} {i : ℕ} {key : String} {cachedSession : CachedSession}

theorem Task.holds_of_deletes {task : Task} (h : task.deletes = some (key, cachedSession)) :
    task.holds = some (key, cachedSession) := by
  unfold Task.deletes at h
  split at h
  · exact h
  · cases h

theorem Requests.holds_of_deletes (h : r.deletes i = some (key, cachedSession)) :
    r.holds i = some (key, cachedSession) := by
  obtain ⟨task, htask, hdeletes⟩ := Option.bind_eq_some_iff.mp h
  exact Option.bind_eq_some_iff.mpr ⟨task, htask, Task.holds_of_deletes hdeletes⟩

/-- One step writes one key at most, and takes no time. -/
theorem Task.next_cache (w : World) (task : Task) :
    (task.next py p w).2.1.sessions = written w task.write? ∧ (task.next py p w).2.1.now = w.now := by
  cases task with
  | login broker user name loginSecrets phase =>
      cases phase with
      | resolve =>
          dsimp only [Task.next, LoginPhase.next]
          cases resolveLogin py p w user name with
          | error e => exact ⟨rfl, rfl⟩
          | ok resolved => exact ⟨rfl, rfl⟩
      | enforceCooldown link endpoint =>
          -- the cooldown has its own key, in another table
          have hkeeps := enforceLoginCooldown_keeps py w user.id name
          dsimp only [Task.next, LoginPhase.next]
          rcases hcooldown : enforceLoginCooldown py w user.id name with ⟨_ | _, v, records⟩
          all_goals
            rw [hcooldown] at hkeeps
            exact hkeeps.2
      | callBroker link endpoint =>
          dsimp only [Task.next, LoginPhase.next]
          rcases authenticate py endpoint broker user link.userBrokerageData loginSecrets with
            ⟨e | session, records⟩
          · exact ⟨rfl, rfl⟩
          · exact ⟨rfl, rfl⟩
      | store session =>
          dsimp only [Task.next, LoginPhase.next, Task.write?, BrokerSessionCache.store]
          cases session.encode with
          | error e => exact ⟨rfl, rfl⟩
          | ok cached => exact ⟨rfl, rfl⟩
      | answered outcome => exact ⟨rfl, rfl⟩
  | logout broker user name phase =>
      cases phase with
      | resolve =>
          dsimp only [Task.next, LogoutPhase.next]
          cases getStrategyClass py name with
          | error e => exact ⟨rfl, rfl⟩
          | ok _ =>
              cases getBrokerageAndLink py p w user name with
              | error e => exact ⟨rfl, rfl⟩
              | ok found => exact ⟨rfl, rfl⟩
      | readCache brokerage link =>
          dsimp only [Task.next, LogoutPhase.next]
          cases w.session? user.id name with
          | none => exact ⟨rfl, rfl⟩
          | some cachedSession => exact ⟨rfl, rfl⟩
      | callBroker brokerage link cachedSession => exact ⟨rfl, rfl⟩
      | delete cachedSession outcome => exact ⟨rfl, rfl⟩
      | answered outcome => exact ⟨rfl, rfl⟩

/-- Where a step leads, as far as the cache and the logouts are concerned. -/
theorem step_cache (h : step py p r e = some r') :
    r'.world.sessions = written r.world (r.write? e) := by
  cases e with
  | arriveLogin broker user name loginSecrets =>
      cases h
      rfl
  | arriveLogout broker user name =>
      cases h
      rfl
  | advance j =>
      simp only [step] at h
      split at h
      · cases h
      · rename_i task htask
        cases h
        rw [Requests.write?, htask]
        exact (Task.next_cache r.world task).1
  | wait duration =>
      cases h
      rfl

theorem sessions_of_not_writes (h : step py p r e = some r') (hother : ¬ r.Writes key e) :
    r'.world.sessions key = r.world.sessions key := by
  rw [step_cache h]
  unfold Requests.Writes at hother
  -- nothing written, or another key deleted, or another key stored
  rcases hwrite : r.write? e with _ | ⟨k, _ | cached⟩
  · rfl
  · have hne : key ≠ k := fun heq => hother ⟨none, heq ▸ hwrite⟩
    exact if_neg hne
  · have hne : key ≠ k := fun heq => hother ⟨some cached, heq ▸ hwrite⟩
    exact Expiring.set_of_ne hne _ _

/-- A key that is not written has what it had. -/
theorem sessions_of_run {es : List Event} (hrun : Run (step py p) r es r')
    (hother : EveryStep (step py p) r es fun u f => ¬ u.Writes key f) :
    r'.world.sessions key = r.world.sessions key :=
  hother.invariant (I := fun u => u.world.sessions key = r.world.sessions key) hrun rfl
    fun _ _ _ hsame hnot hstep => (sessions_of_not_writes hstep hnot).trans hsame

/-- A logout comes to hold a session by reading it. -/
theorem Task.holds_next {w : World} {task : Task}
    (h : (task.next py p w).1.holds = some (key, cachedSession)) :
    task.holds = some (key, cachedSession) ∨
      Expiring.get w.sessions w.now key = some cachedSession ∧ task.write? = none := by
  cases task with
  | login broker user name loginSecrets phase => cases h
  | logout broker user name phase =>
      cases phase with
      | resolve =>
          dsimp only [Task.next, LogoutPhase.next] at h
          split at h
          · cases h
          · split at h
            · cases h
            · cases h
      | readCache brokerage link =>
          dsimp only [Task.next, LogoutPhase.next] at h
          split at h
          · cases h
          · rename_i read hread
            cases h
            exact .inr ⟨hread, rfl⟩
      | callBroker brokerage link read => exact .inl h
      | delete read outcome => cases h
      | answered outcome => cases h

theorem holds_of_step (h : step py p r e = some r') (hholds : r'.holds i = some (key, cachedSession)) :
    r.holds i = some (key, cachedSession) ∨ r'.cached? key = some cachedSession := by
  unfold Requests.holds at hholds ⊢
  cases e with
  | arriveLogin broker user name loginSecrets =>
      cases h
      exact .inl (bind_append_singleton (by rfl) hholds)
  | arriveLogout broker user name =>
      cases h
      exact .inl (bind_append_singleton (by rfl) hholds)
  | advance j =>
      simp only [step] at h
      split at h
      · cases h
      · rename_i task htask
        cases h
        obtain ⟨hsessions, hnow⟩ := @Task.next_cache py p r.world task
        rcases bind_set_cases hholds with ⟨rfl, hnext⟩ | ⟨-, hold⟩
        -- the request that has moved may have read the cache just now
        · rcases Task.holds_next hnext with hold | ⟨hread, hnone⟩
          · exact .inl (by rw [htask]; exact hold)
          · rw [hnone] at hsessions
            refine .inr ?_
            unfold Requests.cached?
            dsimp only
            rw [hsessions, hnow]
            exact hread
        · exact .inl hold
  | wait duration =>
      cases h
      exact .inl hholds

/-- Whoever holds a session has read it, and holds it since. -/
theorem exists_read {start : World} {es : List Event} (hrun : Run (step py p) (.initial start) es r)
    (hholds : r.holds i = some (key, cachedSession)) :
    ∃ earlier later s, es = earlier ++ later ∧ Run (step py p) (.initial start) earlier s ∧
      Run (step py p) s later r ∧ s.cached? key = some cachedSession ∧
      EveryState (step py p) s later fun _ u => u.holds i = some (key, cachedSession) := by
  refine hrun.induction (motive := fun es r => r.holds i = some (key, cachedSession) →
    ∃ earlier later s, es = earlier ++ later ∧ Run (step py p) (.initial start) earlier s ∧
      Run (step py p) s later r ∧ s.cached? key = some cachedSession ∧
      EveryState (step py p) s later fun _ u => u.holds i = some (key, cachedSession)) ?_ ?_ hholds
  · intro hnone
    simp [Requests.holds, Requests.initial] at hnone
  · intro es t e u ht ih hstep hu
    rcases holds_of_step hstep hu with hbefore | hread
    · obtain ⟨earlier, later, s, rfl, hs, hlater, hcached, hevery⟩ := ih hbefore
      have hlast := run_concat_iff.mpr ⟨t, hlater, hstep⟩
      exact ⟨earlier, later ++ [e], s, by simp, hs, hlast, hcached,
        (everyState_concat_iff hlast).mpr ⟨hevery, hu⟩⟩
    · exact ⟨es ++ [e], [], u, by simp, run_concat_iff.mpr ⟨t, ht, hstep⟩, run_nil_iff.mpr rfl, hread,
        everyState_nil_iff.mpr hu⟩

end

/-! ## 4. Deleted sessions -/

/-- Where a logout deletes a session that is there, it is one with the token that this logout has sent
to the broker. -/
def RemovesOwn (r : Requests) : Event → Prop
  | .advance i => ∀ key cachedSession removed, r.deletes i = some (key, cachedSession) →
      r.cached? key = some removed → removed.jwtToken = cachedSession.jwtToken
  | _ => True

/-- Where a login stores a session while a logout of the same key is between its read and its delete,
and the key is not written again before that delete, the session has the token that the logout has
read, or has ended by the delete. -/
def NoneReplaced (start : Requests) (events : List Event) : Prop :=
  ∀ earlier e later i s s' t key cached cachedSession,
    earlier ++ e :: later ++ [.advance i] <+: events →
    Run (step py p) start earlier s → step py p s e = some s' → Run (step py p) s' later t →
    s.holds i = some (key, cachedSession) → s.write? e = some (key, some cached) →
    EveryStep (step py p) s' later (fun u f => ¬ u.Writes key f) →
    t.deletes i = some (key, cachedSession) →
    cached.jwtToken = cachedSession.jwtToken ∨ storedUntil s.world.now ≤ t.world.now

/-- **A logout deletes the session that it has logged out** exactly if no login replaces it between
the read and the delete. -/
theorem removesOwn_iff_noneReplaced (start : World) (events : List Event) :
    EveryStep (step py p) (.initial start) events RemovesOwn ↔
      NoneReplaced py p (.initial start) events := by
  constructor
  · intro h earlier e later i s s' t key cached cachedSession hpre hs hstep ht hholds hwrite hnone
      hdeletes
    have hentry : t.world.sessions key = some (cached, storedUntil s.world.now) := by
      rw [sessions_of_run ht hnone, step_cache hstep, hwrite]
      exact Expiring.set_self _ _ _ _
    -- a session that is stored and not overwritten is there until its end
    rcases lt_or_ge t.world.now (storedUntil s.world.now) with hlive | hover
    · have hcached : t.cached? key = some cached := Expiring.get_eq_some_iff.mpr ⟨_, hentry, hlive⟩
      have hrunt : Run (step py p) (.initial start) (earlier ++ e :: later) t :=
        run_append_iff.mpr ⟨s, hs, run_cons_iff.mpr ⟨s', hstep, ht⟩⟩
      exact .inl (h _ _ t hpre hrunt key cachedSession cached hdeletes hcached)
    · exact .inr hover
  · intro h pre e t hpre ht
    unfold RemovesOwn
    split
    · rename_i i
      intro key cachedSession removed hdeletes hremoved
      obtain ⟨earlier, later, s, rfl, hs, hlater, hread, hevery⟩ :=
        exists_read ht (Requests.holds_of_deletes hdeletes)
      obtain ⟨ends, hentry, hlive⟩ := Expiring.get_eq_some_iff.mp hremoved
      -- what is deleted was stored by the last write since the read, if there was one
      rcases hlater.last_step fun u f => u.Writes key f with
        hnone | ⟨before, f, after, u, v, rfl, hu, hwrites, hstep, hafter, hnone⟩
      · -- the key has not been written since the read
        rw [sessions_of_run hlater hnone] at hentry
        obtain ⟨_, hentry', -⟩ := Expiring.get_eq_some_iff.mp hread
        rw [hentry] at hentry'
        cases hentry'
        rfl
      · obtain ⟨content, hwrite⟩ := hwrites
        rw [sessions_of_run hafter hnone, step_cache hstep, hwrite] at hentry
        cases content with
        -- a delete leaves nothing to remove
        | none => simp [written, Expiring.delete] at hentry
        | some cached =>
            rw [written, Expiring.set_self] at hentry
            obtain ⟨rfl, rfl⟩ := Prod.mk.inj (Option.some.inj hentry)
            have hheld := hevery before u (List.prefix_append _ _) hu
            refine (h (earlier ++ before) f after i u v t key cached cachedSession (by simpa using hpre)
              (run_append_iff.mpr ⟨s, hs, hu⟩) hstep hafter hheld hwrite hnone hdeletes).resolve_right ?_
            exact not_le.mpr hlive
    · trivial

/-- Angel One with both of its endpoints. -/
def bothEndpoints : Platform :=
  { angelOne with endpoints := angelOne.endpoints ++ disconnectable.endpoints }

/-- A broker that gives a login this token. -/
def issuing (token : String) : Broker := fun _ => .body (.dict [("status", .bool true),
  ("data", .dict [("jwtToken", .str token), ("feedToken", .str "feed")])])

/-- The trader logs in and logs out; the logout has read the cache when a second login comes, and its
broker call ends after that login. -/
def loginDuringLogout : List Event :=
  [.arriveLogin (issuing "first") trader "angel_one" (secretsWith "hunter2"), .advance 0, .advance 0,
    .advance 0, .advance 0, .wait (2 * second), .arriveLogout acceptingBroker trader "angel_one",
    .advance 1, .advance 1,
    .arriveLogin (issuing "second") trader "angel_one" (secretsWith "hunter2"), .advance 2,
    .advance 2, .advance 2, .advance 2, .advance 1, .advance 1]

/-- The logout sends the first token to the broker and deletes the session of the second. -/
theorem not_removesOwn_loginDuringLogout :
    ¬ EveryStep (step .default bothEndpoints) (.initial linkedTrader) loginDuringLogout
      RemovesOwn := by
  intro h
  have hvalues : (exec (step .default bothEndpoints) (.initial linkedTrader)
      loginDuringLogout.dropLast).map
        (fun r => (r.deletes 1, r.cached? (sessionKey 1 "angel_one"))) =
      some (some (sessionKey 1 "angel_one", ⟨"first", "feed", "C1"⟩),
        some ⟨"second", "feed", "C1"⟩) := by
    decide +kernel
  obtain ⟨r, hrun, hr⟩ := Option.map_eq_some_iff.mp hvalues
  obtain ⟨hdeletes, hcached⟩ := Prod.mk.inj hr
  have hown := h _ _ r (List.prefix_refl _) hrun _ _ _ hdeletes hcached
  exact absurd hown (by decide)

end DjasktTrading.Brokerage.Concurrency
