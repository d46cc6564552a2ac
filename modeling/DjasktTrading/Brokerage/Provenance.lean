import DjasktTrading.Brokerage.Concurrency

/-!
# Provenance — whose session the cache holds

The logins and logouts of all users share one cache.  A login reads the link of its user, waits for
the broker and stores what comes back, while other requests read, store and delete.  What the cache
holds for a user is what the broker has answered to a login of that user.
-/

open Reasoning

namespace DjasktTrading.Brokerage.Concurrency

/-! ## 1. Where a login has its data from -/

section

variable (py : Python) (p : Platform) (start : World)

/-- The link and the endpoint are those of the user, the session is what the broker has answered. -/
def LoginPhase.Sound (broker : Broker) (user : User) (brokerageName : String) (loginSecrets : Dict) :
    LoginPhase → Prop
  | .enforceCooldown link endpoint | .callBroker link endpoint =>
      resolveLogin py p start user brokerageName = .ok (link, endpoint)
  | .store session => ∃ link endpoint records,
      resolveLogin py p start user brokerageName = .ok (link, endpoint) ∧
        authenticate py endpoint broker user link.userBrokerageData loginSecrets =
          (.ok session, records)
  | .resolve | .answered _ => True

/-- A login is of a request that has arrived. -/
def Task.Sound (es : List Event) : Task → Prop
  | .login broker user brokerageName loginSecrets phase =>
      .arriveLogin broker user brokerageName loginSecrets ∈ es ∧
        phase.Sound py p start broker user brokerageName loginSecrets
  | .logout .. => True

/-- The session is what the broker has answered to a login of the user, with the user's own link. -/
def Issued (es : List Event) (userId : UserId) (brokerageName : String) (cached : CachedSession) :
    Prop :=
  ∃ broker user loginSecrets link endpoint session records,
    .arriveLogin broker user brokerageName loginSecrets ∈ es ∧ user.id = userId ∧
      resolveLogin py p start user brokerageName = .ok (link, endpoint) ∧ link.user = userId ∧
        authenticate py endpoint broker user link.userBrokerageData loginSecrets =
          (.ok session, records) ∧
        session.encode = .ok cached ∧
          encode (AngelOneAuthStrategy.item link.userBrokerageData "client_id") = .ok cached.clientId

/-- No midnight in India lies between the two times. -/
def SameIstDay (now later : ℕ) : Prop := (now + istOffset) / day = (later + istOffset) / day

end

section

variable {py : Python} {p : Platform} {start w : World} {r r' : Requests} {e : Event}
  {es : List Event}

theorem Task.Sound.later {task : Task} (h : task.Sound py p start es) (e : Event) :
    task.Sound py p start (es ++ [e]) := by
  cases task with
  | login broker user name loginSecrets phase => exact ⟨List.mem_append_left _ h.1, h.2⟩
  | logout broker user name phase => trivial

/-- Only the links are read when a login is resolved. -/
theorem resolveLogin_of_links (hlinks : w.links = start.links) (user : User) (name : String) :
    resolveLogin py p w user name = resolveLogin py p start user name := by
  unfold resolveLogin getBrokerageAndLink World.link?
  rw [hlinks]

theorem LoginPhase.Sound.next {broker : Broker} {user : User} {name : String} {loginSecrets : Dict}
    {phase : LoginPhase} (h : phase.Sound py p start broker user name loginSecrets)
    (hlinks : w.links = start.links) :
    (phase.next py p w broker user name loginSecrets).1.Sound py p start broker user name
      loginSecrets := by
  cases phase with
  | resolve =>
      dsimp only [LoginPhase.next]
      rw [resolveLogin_of_links hlinks]
      cases hresolve : resolveLogin py p start user name with
      | error e => trivial
      | ok resolved => exact hresolve
  | enforceCooldown link endpoint =>
      dsimp only [LoginPhase.next]
      rcases enforceLoginCooldown py w user.id name with ⟨_ | _, v, records⟩
      · trivial
      · exact h
  | callBroker link endpoint =>
      dsimp only [LoginPhase.next]
      rcases hauth : authenticate py endpoint broker user link.userBrokerageData loginSecrets with
        ⟨e | session, records⟩
      · trivial
      · exact ⟨link, endpoint, records, h, hauth⟩
  | store session =>
      dsimp only [LoginPhase.next]
      rcases BrokerSessionCache.store w.sessions w.now user.id name session with ⟨e | ttl, sessions⟩
      · trivial
      · trivial
  | answered outcome => trivial

theorem LoginPhase.links_next (broker : Broker) (user : User) (name : String) (loginSecrets : Dict)
    (phase : LoginPhase) :
    (phase.next py p w broker user name loginSecrets).2.1.links = w.links := by
  cases phase with
  | resolve =>
      dsimp only [LoginPhase.next]
      split
      · rfl
      · rfl
  | enforceCooldown link endpoint =>
      have hkeeps := (enforceLoginCooldown_keeps py w user.id name).1
      dsimp only [LoginPhase.next]
      rcases hcooldown : enforceLoginCooldown py w user.id name with ⟨_ | _, v, records⟩
      all_goals
        rw [hcooldown] at hkeeps
        exact hkeeps
  | callBroker link endpoint =>
      dsimp only [LoginPhase.next]
      split
      · rfl
      · rfl
  | store session =>
      dsimp only [LoginPhase.next]
      split
      · rfl
      · rfl
  | answered outcome => rfl

theorem LogoutPhase.links_next (broker : Broker) (user : User) (name : String) (phase : LogoutPhase) :
    (phase.next py p w broker user name).2.1.links = w.links := by
  cases phase with
  | resolve =>
      dsimp only [LogoutPhase.next]
      split
      · rfl
      · split
        · rfl
        · rfl
  | readCache brokerage link =>
      dsimp only [LogoutPhase.next]
      split
      · rfl
      · rfl
  | callBroker brokerage link cachedSession => rfl
  | delete cachedSession outcome => rfl
  | answered outcome => rfl

theorem Task.Sound.next {task : Task} (h : task.Sound py p start es) (hlinks : w.links = start.links) :
    (task.next py p w).1.Sound py p start es := by
  cases task with
  | login broker user name loginSecrets phase => exact ⟨h.1, h.2.next hlinks⟩
  | logout broker user name phase => trivial

theorem Task.links_next (task : Task) : (task.next py p w).2.1.links = w.links := by
  cases task with
  | login broker user name loginSecrets phase => exact phase.links_next broker user name loginSecrets
  | logout broker user name phase => exact phase.links_next broker user name

/-- The links stay, and every login is sound. -/
structure SoundInv (py : Python) (p : Platform) (start : World) (es : List Event) (r : Requests) :
    Prop where
  links : r.world.links = start.links
  tasks : ∀ task ∈ r.tasks, task.Sound py p start es

theorem SoundInv.step (h : SoundInv py p start es r) (hstep : Concurrency.step py p r e = some r') :
    SoundInv py p start (es ++ [e]) r' := by
  have hlater : ∀ task ∈ r.tasks, task.Sound py p start (es ++ [e]) :=
    fun task hmem => (h.tasks task hmem).later e
  cases e with
  | arriveLogin broker user name loginSecrets =>
      cases hstep
      refine ⟨h.links, fun task hmem => ?_⟩
      rcases List.mem_append.mp hmem with hold | hnew
      · exact hlater task hold
      · rw [List.mem_singleton.mp hnew]
        exact ⟨List.mem_append_right _ (List.mem_singleton_self _), trivial⟩
  | arriveLogout broker user name =>
      cases hstep
      refine ⟨h.links, fun task hmem => ?_⟩
      rcases List.mem_append.mp hmem with hold | hnew
      · exact hlater task hold
      · rw [List.mem_singleton.mp hnew]
        trivial
  | advance i =>
      simp only [Concurrency.step] at hstep
      split at hstep
      · cases hstep
      · rename_i task htask
        cases hstep
        refine ⟨task.links_next.trans h.links, fun other hmem => ?_⟩
        rcases List.mem_or_eq_of_mem_set hmem with hold | rfl
        · exact hlater other hold
        · exact (hlater task (List.mem_of_getElem? htask)).next h.links
  | wait duration =>
      cases hstep
      exact ⟨h.links, hlater⟩

theorem SoundInv.of_run (hrun : Run (Concurrency.step py p) (.initial start) es r) :
    SoundInv py p start es r := by
  have hinitial : SoundInv py p start [] (.initial start) := ⟨rfl, nofun⟩
  exact hrun.induction (motive := SoundInv py p start) hinitial
    fun _ _ _ _ _ h hstep => h.step hstep

/-- The user's own link is the one that is resolved. -/
theorem user_of_resolveLogin {user : User} {name : String} {link : UserBrokerageLink}
    {endpoint : BrokerageEndpoint} (h : resolveLogin py p w user name = .ok (link, endpoint)) :
    link.user = user.id := by
  obtain ⟨brokerage, -, hlink⟩ := resolveLogin_eq_ok h
  have hfound := List.find?_some hlink
  exact (of_decide_eq_true hfound).1

/-- What a login stores has been issued to its user. -/
theorem Task.Sound.issued {task : Task} (h : task.Sound py p start es) {userId : UserId}
    {name : String} {cached : CachedSession}
    (hwrite : task.write? = some (sessionKey userId name, some cached)) :
    Issued py p start es userId name cached := by
  cases task with
  | logout broker user other phase =>
      cases phase with
      | delete read outcome => simp [Task.write?] at hwrite
      | resolve => cases hwrite
      | readCache brokerage link => cases hwrite
      | callBroker brokerage link read => cases hwrite
      | answered outcome => cases hwrite
  | login broker user other loginSecrets phase =>
      cases phase with
      | resolve => cases hwrite
      | enforceCooldown link endpoint => cases hwrite
      | callBroker link endpoint => cases hwrite
      | answered outcome => cases hwrite
      | store session =>
          simp only [Task.write?] at hwrite
          split at hwrite
          · rename_i stored hencode
            obtain ⟨hkey, hstored⟩ := Prod.mk.inj (Option.some.inj hwrite)
            obtain rfl := Option.some.inj hstored
            obtain ⟨hid, rfl⟩ := sessionKey_inj.mp hkey
            obtain ⟨harrived, link, endpoint, records, hresolve, hauth⟩ := h
            have hclient := BrokerSession.encode_clientId hencode
            rw [authenticate_clientId hauth] at hclient
            exact ⟨broker, user, loginSecrets, link, endpoint, session, records, harrived, hid,
              hresolve, (user_of_resolveLogin hresolve).trans hid, hauth, hencode, hclient⟩
          · cases hwrite

/-! ## 2. Times -/

theorem now_le_of_run (hrun : Run (step py p) r es r') : r.world.now ≤ r'.world.now := by
  refine hrun.invariant (I := fun u => r.world.now ≤ u.world.now) (Nat.le_refl _) ?_
  intro u e v hu hstep
  refine hu.trans ?_
  cases e with
  | arriveLogin broker user name loginSecrets =>
      cases hstep
      exact Nat.le_refl _
  | arriveLogout broker user name =>
      cases hstep
      exact Nat.le_refl _
  | advance i =>
      simp only [step] at hstep
      split at hstep
      · cases hstep
      · rename_i task htask
        cases hstep
        exact Nat.le_of_eq (Task.next_cache u.world task).2.symm
  | wait duration =>
      cases hstep
      exact Nat.le_add_right _ _

/-- A session has ended when the day in India has. -/
theorem sameIstDay_of_lt {now later : ℕ} (hle : now ≤ later) (hlt : later < storedUntil now) :
    SameIstDay now later := by
  have hwhole : secondsUntilIstMidnight now / second * second ≤ secondsUntilIstMidnight now :=
    Nat.div_mul_le_self _ _
  unfold storedUntil at hlt
  unfold secondsUntilIstMidnight at hlt hwhole
  unfold SameIstDay
  generalize ((now + istOffset + day) / day * day - (now + istOffset)) / second * second = ttl at *
  simp only [istOffset, day, second] at *
  omega

/-! ## 3. Sessions -/

/-- The key has not been written since the start, or its last write put the session there, on the day
that it still is, and the session has been issued to the user. -/
def Traced (py : Python) (p : Platform) (start : World) (es : List Event) (r : Requests)
    (userId : UserId) (name : String) (cached : CachedSession) : Prop :=
  (r.world.sessions (sessionKey userId name) = start.sessions (sessionKey userId name) ∧
      EveryStep (step py p) (.initial start) es fun u f => ¬ u.Writes (sessionKey userId name) f) ∨
    ∃ pre e post v v', es = pre ++ e :: post ∧ Run (step py p) (.initial start) pre v ∧
      step py p v e = some v' ∧ v.write? e = some (sessionKey userId name, some cached) ∧
        Issued py p start pre userId name cached ∧ SameIstDay v.world.now r.world.now ∧
          EveryStep (step py p) v' post fun u f => ¬ u.Writes (sessionKey userId name) f

/-- **The cache holds the user's own session.**  Whatever logins and logouts of whatever users are
made at the same time, a session that is found for a user at a brokerage was there from the start, or
it is what the broker has answered to a login of this user, with the client of the user's own link. -/
theorem sessions_issued (hrun : Run (step py p) (.initial start) es r) {userId : UserId}
    {name : String} {cached : CachedSession} (h : r.world.session? userId name = some cached) :
    Traced py p start es r userId name cached := by
  rcases hrun.last_step (fun u f => u.Writes (sessionKey userId name) f) with
    hnone | ⟨pre, e, post, v, v', rfl, hv, ⟨content, hwrite⟩, hstep, hpost, hlast⟩
  · exact .inl ⟨sessions_of_run hrun hnone, hnone⟩
  · right
    obtain ⟨ends, hentry, hlive⟩ := Expiring.get_eq_some_iff.mp h
    rw [sessions_of_run hpost hlast, step_cache hstep, hwrite] at hentry
    cases content with
    | none =>
        rw [written, Expiring.delete, if_pos rfl] at hentry
        cases hentry
    | some stored =>
        rw [written, Expiring.set_self] at hentry
        obtain ⟨rfl, rfl⟩ := Prod.mk.inj (Option.some.inj hentry)
        have hle : v.world.now ≤ r.world.now :=
          now_le_of_run (run_cons_iff.mpr ⟨v', hstep, hpost⟩)
        have hissued : Issued py p start pre userId name stored := by
          cases e with
          | advance i =>
              obtain ⟨task, htask, htaskWrite⟩ := Option.bind_eq_some_iff.mp hwrite
              exact ((SoundInv.of_run hv).tasks task (List.mem_of_getElem? htask)).issued htaskWrite
          | arriveLogin broker user name loginSecrets => cases hwrite
          | arriveLogout broker user name => cases hwrite
          | wait duration => cases hwrite
        exact ⟨pre, e, post, v, v', rfl, hv, hstep, hwrite, hissued, sameIstDay_of_lt hle hlive, hlast⟩

end

def secondTrader : User := ⟨2, "second trader"⟩

/-- Both traders have linked the brokerage. -/
def linkedTraders : World where
  links := linkedTrader.links ++ [⟨8, 2, ⟨1, "angel_one", true⟩,
    [("client_id", .str "C2"), ("api_key", .str "K2")]⟩]
  sessions := Expiring.empty
  cooldowns := Expiring.empty
  now := 0

/-- Two traders log in at once; the broker answers the second before the first. -/
def tradersAtOnce : List Event :=
  [.arriveLogin (issuing "first") trader "angel_one" (secretsWith "hunter2"),
    .arriveLogin (issuing "second") secondTrader "angel_one" (secretsWith "hunter3"),
    .advance 0, .advance 1, .advance 0, .advance 1, .advance 1, .advance 0, .advance 1, .advance 0]

theorem sessions_issued_tradersAtOnce :
    ∃ r, Run (step .default bothEndpoints) (.initial linkedTraders) tradersAtOnce r ∧
      Traced .default bothEndpoints linkedTraders tradersAtOnce r 2 "angel_one"
        ⟨"second", "feed", "C2"⟩ := by
  have hvalues : (exec (step .default bothEndpoints) (.initial linkedTraders) tradersAtOnce).map
      (fun r => r.world.session? 2 "angel_one") = some (some ⟨"second", "feed", "C2"⟩) := by
    decide +kernel
  obtain ⟨r, hrun, hcached⟩ := Option.map_eq_some_iff.mp hvalues
  exact ⟨r, hrun, sessions_issued hrun hcached⟩

end DjasktTrading.Brokerage.Concurrency
