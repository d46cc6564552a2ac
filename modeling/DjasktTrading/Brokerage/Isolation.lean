import DjasktTrading.Brokerage.Links
import DjasktTrading.Reasoning.Purge

/-!
# Isolation — requests of one user and the data of another

What a request reads and writes belongs to its user: links by their foreign key, sessions and
cooldowns by the id in their keys.  Removing one user's requests from a run therefore changes nothing
for the others.
-/

open Reasoning

namespace DjasktTrading.Brokerage

open BrokerageController

/-! ## 1. Keys -/

theorem cooldownKey_inj {userId userId' : UserId} {name name' : String} :
    cooldownKey userId name = cooldownKey userId' name' ↔ userId = userId' ∧ name = name' :=
  template_inj "login_cooldown_user_"

/-- The templates begin with different letters. -/
theorem sessionKey_ne_cooldownKey (userId userId' : UserId) (name name' : String) :
    sessionKey userId name ≠ cooldownKey userId' name' := by
  intro h
  have hlist := congrArg String.toList h
  unfold sessionKey cooldownKey at hlist
  simp only [String.toList_append] at hlist
  have hhead := (List.cons.inj hlist).1
  cases hhead

/-! ## 2. One user's view -/

/-- The user who sends a request. -/
def Event.user? : Event → Option User
  | .createLink user _ _ _ => some user
  | .listLinks user => some user
  | .deleteLink user _ => some user
  | .brokerLogin _ user _ _ => some user
  | .brokerLogout _ user _ => some user
  | .wait _ => none

def Event.isBy (userId : UserId) (e : Event) : Bool := e.user?.any (·.id = userId)

/-- The response to a request. -/
def answer (py : Python) (p : Platform) (w : World) : Event → Option Response
  | .createLink user name data id => some (createLink py p w user name data id).1
  | .listLinks user => some (listLinks w user)
  | .deleteLink user linkId => some (deleteLink w user linkId).1
  | .brokerLogin broker user name credentials =>
      some (brokerLogin py p w broker user name credentials).1
  | .brokerLogout broker user name => some (brokerLogout py p w broker user name).1
  | .wait _ => none

/-- The two states are the same as far as the user's data go. -/
structure SameFor (userId : UserId) (w w' : World) : Prop where
  links : w.links.filter (·.user = userId) = w'.links.filter (·.user = userId)
  sessions : ∀ name, w.sessions (sessionKey userId name) = w'.sessions (sessionKey userId name)
  cooldowns : ∀ name, w.cooldowns (cooldownKey userId name) = w'.cooldowns (cooldownKey userId name)
  now : w.now = w'.now

/-- The `uuid4` of a new row is not the id of a row. -/
def World.DrawsFresh (w : World) : Event → Prop
  | .createLink _ _ _ id => ∀ link ∈ w.links, link.id ≠ id
  | _ => True

namespace SameFor

variable {userId : UserId} {w w' v : World}

theorem refl (userId : UserId) (w : World) : SameFor userId w w := ⟨rfl, fun _ => rfl, fun _ => rfl, rfl⟩

theorem symm (h : SameFor userId w w') : SameFor userId w' w :=
  ⟨h.links.symm, fun name => (h.sessions name).symm, fun name => (h.cooldowns name).symm, h.now.symm⟩

theorem trans (h : SameFor userId w w') (h' : SameFor userId w' v) : SameFor userId w v :=
  ⟨h.links.trans h'.links, fun name => (h.sessions name).trans (h'.sessions name),
    fun name => (h.cooldowns name).trans (h'.cooldowns name), h.now.trans h'.now⟩

theorem session? (h : SameFor userId w w') (name : String) :
    w.session? userId name = w'.session? userId name := by
  unfold World.session? BrokerSessionCache.get
  rw [h.now]
  exact Expiring.get_congr (h.sessions name) _

theorem cooldown (h : SameFor userId w w') (name : String) :
    Expiring.get w.cooldowns w.now (cooldownKey userId name) =
      Expiring.get w'.cooldowns w'.now (cooldownKey userId name) := by
  rw [h.now]
  exact Expiring.get_congr (h.cooldowns name) _

theorem link? (h : SameFor userId w w') (brokerage : Brokerage) :
    w.link? userId brokerage = w'.link? userId brokerage := by
  have hscoped : ∀ links : List UserBrokerageLink,
      links.find? (fun link => link.user = userId ∧ link.brokerage.id = brokerage.id) =
        (links.filter (·.user = userId)).find? fun link => link.brokerage.id = brokerage.id := by
    intro links
    rw [List.find?_filter]
    congr 1
    funext link
    simp
  unfold World.link?
  rw [hscoped, hscoped, h.links]

end SameFor

/-! ## 3. A request reads its user's data only -/

section

variable {py : Python} {p : Platform} {w w' : World} {user : User} {name : String}

theorem resolveLogin_congr (h : SameFor user.id w w') :
    resolveLogin py p w user name = resolveLogin py p w' user name := by
  unfold resolveLogin getBrokerageAndLink
  simp only [h.link?]

theorem SameFor.set_cooldown (h : SameFor user.id w w') (key : String) (ends : ℕ) :
    SameFor user.id { w with cooldowns := w.cooldowns.set key () ends }
      { w' with cooldowns := w'.cooldowns.set key () ends } where
  links := h.links
  sessions := h.sessions
  cooldowns name' := by
    simp only [Expiring.set, h.cooldowns]
  now := h.now

theorem SameFor.set_session (h : SameFor user.id w w') (key : String) (cached : CachedSession)
    (ends : ℕ) :
    SameFor user.id { w with sessions := w.sessions.set key cached ends }
      { w' with sessions := w'.sessions.set key cached ends } where
  links := h.links
  sessions name' := by
    simp only [Expiring.set, h.sessions]
  cooldowns := h.cooldowns
  now := h.now

theorem SameFor.delete_session (h : SameFor user.id w w') (key : String) :
    SameFor user.id { w with sessions := w.sessions.delete key }
      { w' with sessions := w'.sessions.delete key } where
  links := h.links
  sessions name' := by
    simp only [Expiring.delete, h.sessions]
  cooldowns := h.cooldowns
  now := h.now

theorem createLink_congr (py : Python) (p : Platform) (name : String) (data : Dict) {id : Uuid}
    (h : SameFor user.id w w')
    (hfresh : ∀ link ∈ w.links, link.id ≠ id) (hfresh' : ∀ link ∈ w'.links, link.id ≠ id) :
    (createLink py p w user name data id).1 = (createLink py p w' user name data id).1 ∧
      SameFor user.id (createLink py p w user name data id).2
        (createLink py p w' user name data id).2 := by
  have htaken : ∀ v : World, (∀ link ∈ v.links, link.id ≠ id) → v.links.any (·.id = id) = false := by
    intro v hv
    simpa [List.any_eq_false] using hv
  unfold createLink
  rw [htaken w hfresh, htaken w' hfresh']
  split
  · exact ⟨rfl, h⟩
  · split
    · exact ⟨rfl, h⟩
    · rename_i brokerage _
      rw [← h.link? brokerage]
      split
      · exact ⟨rfl, h⟩
      · refine ⟨rfl, ?_, h.sessions, h.cooldowns, h.now⟩
        simp only [Bool.false_eq_true, if_false, List.filter_append, h.links]

theorem listLinks_congr (h : SameFor user.id w w') : listLinks w user = listLinks w' user := by
  have hshown : linkResponse w user.id = linkResponse w' user.id := by
    funext link
    simp only [linkResponse, h.session?]
  unfold listLinks
  rw [h.links, hshown]

theorem deleteLink_congr (h : SameFor user.id w w') (linkId : Uuid) :
    (deleteLink w user linkId).1 = (deleteLink w' user linkId).1 ∧
      SameFor user.id (deleteLink w user linkId).2 (deleteLink w' user linkId).2 := by
  have hany : ∀ v : World, (v.links.any fun link => link.user = user.id ∧ link.id = linkId) =
      (v.links.filter (·.user = user.id)).any fun link => link.id = linkId := by
    intro v
    rw [List.any_filter]
    congr 1
    funext link
    simp
  constructor
  · unfold deleteLink
    rw [hany w, hany w', h.links]
    split
    · rfl
    · rfl
  · rw [deleteLink_eq, deleteLink_eq]
    refine ⟨?_, h.sessions, h.cooldowns, h.now⟩
    dsimp only
    rw [List.filter_comm, h.links, List.filter_comm]

theorem authenticateAndCache_congr (py : Python) (p : Platform) (name : String)
    (h : SameFor user.id w w') (broker : Broker) (credentials : Dict) :
    (authenticateAndCache py p w broker user name credentials).1 =
        (authenticateAndCache py p w' broker user name credentials).1 ∧
      SameFor user.id (authenticateAndCache py p w broker user name credentials).2.1
        (authenticateAndCache py p w' broker user name credentials).2.1 := by
  unfold authenticateAndCache
  rw [← resolveLogin_congr h]
  cases resolveLogin py p w user name with
  | error e => exact ⟨rfl, h⟩
  | ok r =>
      obtain ⟨link, endpoint⟩ := r
      unfold enforceLoginCooldown
      dsimp only
      rw [← h.cooldown name]
      cases Expiring.get w.cooldowns w.now (cooldownKey user.id name) with
      | some _ => exact ⟨rfl, h⟩
      | none =>
          have hcooled := h.set_cooldown (cooldownKey user.id name)
            (w.now + loginCooldownSeconds * second)
          rw [← h.now] at hcooled
          dsimp only
          rw [← h.now]
          rcases authenticate py endpoint broker user link.userBrokerageData credentials with
            ⟨e | session, logged⟩
          · exact ⟨rfl, hcooled⟩
          · dsimp only
            unfold BrokerSessionCache.store
            cases session.encode with
            | error e => exact ⟨rfl, hcooled⟩
            | ok cached => exact ⟨rfl, hcooled.set_session _ cached _⟩

theorem brokerLogin_congr (py : Python) (p : Platform) (name : String) (h : SameFor user.id w w')
    (broker : Broker) (credentials : Dict) :
    (brokerLogin py p w broker user name credentials).1 =
        (brokerLogin py p w' broker user name credentials).1 ∧
      SameFor user.id (brokerLogin py p w broker user name credentials).2
        (brokerLogin py p w' broker user name credentials).2 := by
  have hcall := authenticateAndCache_congr py p name h broker credentials
  unfold brokerLogin
  split
  · exact ⟨rfl, h⟩
  · revert hcall
    rcases authenticateAndCache py p w broker user name credentials with ⟨outcome, v, records⟩
    rcases authenticateAndCache py p w' broker user name credentials with ⟨outcome', v', records'⟩
    rintro ⟨rfl, hv⟩
    cases outcome with
    | error e => exact ⟨rfl, hv⟩
    | ok r =>
        obtain ⟨session, ttlSeconds⟩ := r
        dsimp only
        split
        · exact ⟨rfl, hv⟩
        · exact ⟨rfl, hv⟩

theorem logoutAndClear_congr (py : Python) (p : Platform) (name : String)
    (h : SameFor user.id w w') (broker : Broker) :
    (logoutAndClear py p w broker user name).1 = (logoutAndClear py p w' broker user name).1 ∧
      SameFor user.id (logoutAndClear py p w broker user name).2.1
        (logoutAndClear py p w' broker user name).2.1 := by
  have hlookup : getBrokerageAndLink py p w' user name = getBrokerageAndLink py p w user name := by
    unfold getBrokerageAndLink
    simp only [h.link?]
  unfold logoutAndClear
  rw [hlookup, ← h.session? name]
  split
  · exact ⟨rfl, h⟩
  · split
    · exact ⟨rfl, h⟩
    · split
      · exact ⟨rfl, h⟩
      · exact ⟨rfl, h.delete_session _⟩

theorem brokerLogout_congr (py : Python) (p : Platform) (name : String) (h : SameFor user.id w w')
    (broker : Broker) :
    (brokerLogout py p w broker user name).1 = (brokerLogout py p w' broker user name).1 ∧
      SameFor user.id (brokerLogout py p w broker user name).2
        (brokerLogout py p w' broker user name).2 := by
  have hcall := logoutAndClear_congr py p name h broker
  unfold brokerLogout
  split
  · exact ⟨rfl, h⟩
  · revert hcall
    rcases logoutAndClear py p w broker user name with ⟨outcome, v, records⟩
    rcases logoutAndClear py p w' broker user name with ⟨outcome', v', records'⟩
    rintro ⟨rfl, hv⟩
    cases outcome with
    | error e => exact ⟨rfl, hv⟩
    | ok disconnected => exact ⟨rfl, hv⟩

/-! ## 4. A request changes its user's data only -/

theorem sameFor_set_session {userId : UserId} (hne : userId ≠ user.id) (w : World)
    (cached : CachedSession) (ends : ℕ) :
    SameFor userId w { w with sessions := w.sessions.set (sessionKey user.id name) cached ends } where
  links := rfl
  sessions name' := by
    refine (Expiring.set_of_ne (fun hkey => hne ?_) cached ends).symm
    exact (sessionKey_inj.mp hkey).1
  cooldowns _ := rfl
  now := rfl

theorem sameFor_set_cooldown {userId : UserId} (hne : userId ≠ user.id) (name : String) (w : World)
    (ends : ℕ) :
    SameFor userId w
      { w with cooldowns := w.cooldowns.set (cooldownKey user.id name) () ends } where
  links := rfl
  sessions _ := rfl
  cooldowns name' := by
    refine (Expiring.set_of_ne (fun hkey => hne ?_) () ends).symm
    exact (cooldownKey_inj.mp hkey).1
  now := rfl

theorem createLink_sameFor {userId : UserId} (hne : userId ≠ user.id) (data : Dict) (id : Uuid) :
    SameFor userId w (createLink py p w user name data id).2 := by
  rcases createLink_cases py p w user name data id with ⟨hsame, -⟩ | ⟨brokerage, -, -, hcreated⟩
  · rw [hsame]
    exact .refl userId w
  · rw [hcreated]
    refine ⟨?_, fun _ => rfl, fun _ => rfl, rfl⟩
    simp [List.filter_append, hne.symm]

theorem deleteLink_sameFor {userId : UserId} (hne : userId ≠ user.id) (linkId : Uuid) :
    SameFor userId w (deleteLink w user linkId).2 := by
  rw [deleteLink_eq]
  refine ⟨?_, fun _ => rfl, fun _ => rfl, rfl⟩
  rw [List.filter_filter]
  refine List.filter_congr fun link _ => ?_
  by_cases huser : link.user = userId
  · simp [huser, hne]
  · simp [huser]

theorem authenticateAndCache_sameFor {userId : UserId} (hne : userId ≠ user.id) (broker : Broker)
    (credentials : Dict) :
    SameFor userId w (authenticateAndCache py p w broker user name credentials).2.1 := by
  unfold authenticateAndCache
  cases resolveLogin py p w user name with
  | error e => exact .refl userId w
  | ok r =>
      obtain ⟨link, endpoint⟩ := r
      unfold enforceLoginCooldown
      dsimp only
      cases Expiring.get w.cooldowns w.now (cooldownKey user.id name) with
      | some _ => exact .refl userId w
      | none =>
          have hcooled := sameFor_set_cooldown hne name w
            (w.now + loginCooldownSeconds * second)
          dsimp only
          rcases authenticate py endpoint broker user link.userBrokerageData credentials with
            ⟨e | session, logged⟩
          · exact hcooled
          · dsimp only
            unfold BrokerSessionCache.store
            cases session.encode with
            | error e => exact hcooled
            | ok cached => exact hcooled.trans (sameFor_set_session hne _ cached _)

theorem brokerLogin_sameFor {userId : UserId} (hne : userId ≠ user.id) (broker : Broker)
    (credentials : Dict) :
    SameFor userId w (brokerLogin py p w broker user name credentials).2 := by
  have hcall := @authenticateAndCache_sameFor py p w user name userId hne broker credentials
  unfold brokerLogin
  split
  · exact .refl userId w
  · revert hcall
    rcases authenticateAndCache py p w broker user name credentials with ⟨outcome, v, records⟩
    intro hcall
    cases outcome with
    | error e => exact hcall
    | ok r =>
        obtain ⟨session, ttlSeconds⟩ := r
        dsimp only
        split
        · exact hcall
        · exact hcall

theorem brokerLogout_sameFor {userId : UserId} (hne : userId ≠ user.id) (broker : Broker) :
    SameFor userId w (brokerLogout py p w broker user name).2 := by
  rcases @brokerLogout_cases py p w user name broker with hsame | hcleared
  · rw [hsame]
    exact .refl userId w
  · rw [hcleared]
    refine ⟨rfl, fun name' => ?_, fun _ => rfl, rfl⟩
    refine (if_neg fun hkey => hne ?_).symm
    exact (sessionKey_inj.mp hkey).1

end

/-! ## 5. Runs without a user's requests -/

/-- The second state has nothing of the user, and everything of the others as the first has it. -/
structure Without (userId : UserId) (w w' : World) : Prop where
  others : ∀ other, other ≠ userId → SameFor other w w'
  absent : w'.links.filter (·.user = userId) = []

section

variable {py : Python} {p : Platform} {w w' v v' : World} {e : Event} {user : User} {userId : UserId}

theorem isBy_eq_true (huser : e.user? = some user) : e.isBy userId = true ↔ user.id = userId := by
  simp [Event.isBy, huser]

/-- The two runs take one step, a request of a user for whom they are the same. -/
theorem step_congr (huser : e.user? = some user) (h : SameFor user.id w w') (hfresh : w.DrawsFresh e)
    (hfresh' : w'.DrawsFresh e) (hstep : step py p w e = some v) :
    answer py p w e = answer py p w' e ∧
      ∃ v', step py p w' e = some v' ∧ SameFor user.id v v' := by
  cases e with
  | wait microseconds => cases huser
  | createLink u name data id =>
      obtain rfl := Option.some.inj huser
      obtain rfl := Option.some.inj hstep
      obtain ⟨hanswer, hafter⟩ := createLink_congr py p name data h hfresh hfresh'
      exact ⟨congrArg some hanswer, _, rfl, hafter⟩
  | listLinks u =>
      obtain rfl := Option.some.inj huser
      obtain rfl := Option.some.inj hstep
      exact ⟨congrArg some (listLinks_congr h), _, rfl, h⟩
  | deleteLink u linkId =>
      obtain rfl := Option.some.inj huser
      obtain rfl := Option.some.inj hstep
      obtain ⟨hanswer, hafter⟩ := deleteLink_congr h linkId
      exact ⟨congrArg some hanswer, _, rfl, hafter⟩
  | brokerLogin broker u name credentials =>
      obtain rfl := Option.some.inj huser
      obtain rfl := Option.some.inj hstep
      obtain ⟨hanswer, hafter⟩ := brokerLogin_congr py p name h broker credentials
      exact ⟨congrArg some hanswer, _, rfl, hafter⟩
  | brokerLogout broker u name =>
      obtain rfl := Option.some.inj huser
      obtain rfl := Option.some.inj hstep
      obtain ⟨hanswer, hafter⟩ := brokerLogout_congr py p name h broker
      exact ⟨congrArg some hanswer, _, rfl, hafter⟩

/-- A request of another user. -/
theorem step_sameFor (huser : e.user? = some user) (hne : userId ≠ user.id)
    (hstep : step py p w e = some v) : SameFor userId w v := by
  cases e with
  | wait microseconds => cases huser
  | createLink u name data id =>
      obtain rfl := Option.some.inj huser
      obtain rfl := Option.some.inj hstep
      exact createLink_sameFor hne data id
  | listLinks u =>
      obtain rfl := Option.some.inj hstep
      exact .refl userId w
  | deleteLink u linkId =>
      obtain rfl := Option.some.inj huser
      obtain rfl := Option.some.inj hstep
      exact deleteLink_sameFor hne linkId
  | brokerLogin broker u name credentials =>
      obtain rfl := Option.some.inj huser
      obtain rfl := Option.some.inj hstep
      exact brokerLogin_sameFor hne broker credentials
  | brokerLogout broker u name =>
      obtain rfl := Option.some.inj huser
      obtain rfl := Option.some.inj hstep
      exact brokerLogout_sameFor hne broker

namespace Without

theorem initial (userId : UserId) : Without userId .initial .initial where
  others other _ := .refl other _
  absent := rfl

theorem subset (h : Without userId w w') : w'.links ⊆ w.links := by
  intro link hlink
  have hne : link.user ≠ userId := by
    intro hown
    have hmem : link ∈ w'.links.filter (·.user = userId) :=
      List.mem_filter.mpr ⟨hlink, decide_eq_true hown⟩
    rw [h.absent] at hmem
    cases hmem
  have hmem : link ∈ w'.links.filter (·.user = link.user) :=
    List.mem_filter.mpr ⟨hlink, decide_eq_true rfl⟩
  rw [← (h.others link.user hne).links] at hmem
  exact List.mem_of_mem_filter hmem

theorem drawsFresh (h : Without userId w w') (hfresh : w.DrawsFresh e) : w'.DrawsFresh e := by
  cases e with
  | createLink user name data id => exact fun link hlink => hfresh link (h.subset hlink)
  | _ => trivial

/-- A request of the user, in the first run only. -/
theorem step_removed (h : Without userId w w') (hby : e.isBy userId)
    (hstep : step py p w e = some v) : Without userId v w' where
  others other hother := by
    cases huser : e.user? with
    | none => simp [Event.isBy, huser] at hby
    | some user =>
        have howner := (isBy_eq_true huser).mp hby
        exact (step_sameFor huser (howner ▸ hother) hstep).symm.trans (h.others other hother)
  absent := h.absent

/-- A request of another user, or time, in both runs. -/
theorem step_kept (h : Without userId w w') (hby : ¬ e.isBy userId) (hfresh : w.DrawsFresh e)
    (hstep : step py p w e = some v) :
    ∃ v', step py p w' e = some v' ∧ Without userId v v' := by
  cases huser : e.user? with
  | none =>
      cases e with
      | wait microseconds =>
          obtain rfl := Option.some.inj hstep
          refine ⟨_, rfl, fun other hother => ?_, h.absent⟩
          have hsame := h.others other hother
          exact ⟨hsame.links, hsame.sessions, hsame.cooldowns,
            congrArg (· + microseconds) hsame.now⟩
      | _ => cases huser
  | some user =>
      have hne : user.id ≠ userId := fun howner => hby ((isBy_eq_true huser).mpr howner)
      obtain ⟨-, v', hstep', hsame⟩ := step_congr huser (h.others user.id hne) hfresh
        (h.drawsFresh hfresh) hstep
      refine ⟨v', hstep', fun other hother => ?_, ?_⟩
      · by_cases hown : other = user.id
        · exact hown ▸ hsame
        · have hleft := step_sameFor huser hown hstep
          have hright := step_sameFor huser hown hstep'
          exact hleft.symm.trans ((h.others other hother).trans hright)
      · rw [← (step_sameFor huser hne.symm hstep').links]
        exact h.absent

end Without

/-- What a user sees while another user's requests come and go. -/
theorem unwinding (py : Python) (p : Platform) {a b : UserId} (hne : a ≠ b) :
    Unwinding (step py p) (answer py p) (Event.isBy b) (Event.isBy a) World.DrawsFresh
      (Without b) where
  removed _ _ _ _ hby _ h hstep := h.step_removed hby hstep
  kept _ _ _ _ hby hfresh h hstep := h.step_kept hby hfresh hstep
  unseen e hby := by
    cases huser : e.user? with
    | none => simp [Event.isBy, huser] at hby
    | some user =>
        rw [isBy_eq_true huser] at hby
        rw [Bool.eq_false_iff, ne_eq, isBy_eq_true huser]
        exact fun howner => hne (howner.symm.trans hby)
  seen w w' e hby hfresh h := by
    cases huser : e.user? with
    | none => simp [Event.isBy, huser] at hby
    | some user =>
        obtain rfl := (isBy_eq_true huser).mp hby
        cases hstep : step py p w e with
        | none => cases e <;> cases hstep
        | some v =>
            exact (step_congr huser (h.others user.id hne) hfresh (h.drawsFresh hfresh) hstep).1

end

/-- **Isolation of broker data.**  A user's links, sessions, cooldowns and responses are what they are
without another user's requests, and no two keys of Redis are the same. -/
theorem requests_isolated (py : Python) (p : Platform) {a b : UserId} (hne : a ≠ b)
    {es : List Event} {w : World} (hrun : Run (step py p) .initial es w)
    (hfresh : EveryStep (step py p) .initial es World.DrawsFresh) :
    (∃ w', Run (step py p) .initial (es.filter fun e => !e.isBy b) w' ∧ SameFor a w w' ∧
      answers (step py p) (answer py p) (Event.isBy a) .initial es =
        answers (step py p) (answer py p) (Event.isBy a) .initial
          (es.filter fun e => !e.isBy b)) ∧
      ∀ (userId userId' : UserId) (name name' : String),
        (sessionKey userId name = sessionKey userId' name' ↔ userId = userId' ∧ name = name') ∧
          (cooldownKey userId name = cooldownKey userId' name' ↔ userId = userId' ∧ name = name') ∧
          sessionKey userId name ≠ cooldownKey userId' name' := by
  constructor
  · obtain ⟨w', hrun', hwithout, hanswers⟩ :=
      (unwinding py p hne).purge (Without.initial b) hrun hfresh
    exact ⟨w', hrun', hwithout.others a hne, hanswers⟩
  · intro userId userId' name name'
    exact ⟨sessionKey_inj, cooldownKey_inj, sessionKey_ne_cooldownKey userId userId' name name'⟩

/-- The trader and a second user, who links the same brokerage and tries to delete the trader's
link. -/
def twoUsers : List Event :=
  let other : User := ⟨2, "other"⟩
  let credentials : Dict := [("password", .str "secret"), ("totp", .str "123456")]
  [.createLink trader "angel_one" [("client_id", .str "C1"), ("api_key", .str "K1")] 7,
    .createLink other "angel_one" [("client_id", .str "C2"), ("api_key", .str "K2")] 8,
    .brokerLogin acceptingBroker other "angel_one" credentials,
    .deleteLink other 7,
    .brokerLogin acceptingBroker trader "angel_one" credentials,
    .brokerLogout acceptingBroker other "angel_one",
    .listLinks trader]

theorem twoUsers_drawsFresh :
    EveryStep (step .default angelOne) .initial twoUsers World.DrawsFresh := by
  refine everyStep_of_checkSteps (c := fun w e => match e with
    | .createLink _ _ _ id => w.links.all fun link => link.id ≠ id
    | _ => true) ?_ (by decide +kernel)
  intro w e he
  cases e with
  | createLink user name data id => simpa [World.DrawsFresh] using he
  | _ => trivial

theorem requests_isolated_sample :
    ∃ w, Run (step .default angelOne) .initial twoUsers w ∧
      (∃ w', Run (step .default angelOne) .initial (twoUsers.filter fun e => !e.isBy 2) w' ∧
        SameFor 1 w w' ∧
        answers (step .default angelOne) (answer .default angelOne) (Event.isBy 1) .initial twoUsers =
          answers (step .default angelOne) (answer .default angelOne) (Event.isBy 1) .initial
            (twoUsers.filter fun e => !e.isBy 2)) := by
  obtain ⟨w, hrun, -⟩ := Option.map_eq_some_iff.mp
    (show (exec (step .default angelOne) .initial twoUsers).map (fun w => w.links.length) = some 2 by
      decide +kernel)
  exact ⟨w, hrun, (requests_isolated .default angelOne (by decide) hrun twoUsers_drawsFresh).1⟩

end DjasktTrading.Brokerage
