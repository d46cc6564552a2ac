import DjasktTrading.Brokerage.Orchestrator

/-!
# Brokerage router — links, logins and logouts of an authenticated user

The actions of `BrokerageController`.  A payload has been parsed; the known-brokerage validator of the
schemas comes first in each action that names a brokerage.
-/

open Reasoning

namespace DjasktTrading.Brokerage

/-- `UserBrokerageLinkResponseSchema` -/
structure LinkResponse where
  id : Uuid
  brokerageName : String
  userBrokerageData : Dict
  isConnected : Bool

inductive ResponseBody where
  | error (detail : String)
  | invalid (message : String)
  | link (link : LinkResponse)
  | links (links : List LinkResponse)
  | login (brokerageName clientId : String) (expiresInSeconds : ℕ)
  | logout (brokerageName : String) (disconnected : Bool) (message : String)
  | empty

structure Response where
  status : ℕ
  body : ResponseBody

/-- `handle_unexpected_error` -/
def unexpectedError : Response := ⟨500, .error "An unexpected error occurred."⟩

/-- `_validate_known_brokerage` -/
def unknownBrokerage (py : Python) (name : String) : Response :=
  ⟨422, .invalid ("Value error, Unknown brokerage: " ++ py.repr name)⟩

namespace BrokerageController

/-- `create_link`; `id` is the `uuid4` of the new row. -/
def createLink (py : Python) (p : Platform) (w : World) (user : User) (brokerageName : String)
    (userBrokerageData : Dict) (id : Uuid) : Response × World :=
  if brokerageName ∉ brokerStrategies then (unknownBrokerage py brokerageName, w)
  else
    match p.active? brokerageName with
    | none => (⟨404, .error "Unknown or inactive brokerage."⟩, w)
    | some brokerage =>
        if (w.link? user.id brokerage).isSome then
          (⟨409, .error "This brokerage is already linked."⟩, w)
        -- the primary key is taken
        else if w.links.any (·.id = id) then (unexpectedError, w)
        else
          let link : UserBrokerageLink := ⟨id, user.id, brokerage, userBrokerageData⟩
          (⟨201, .link {
              id := link.id
              brokerageName := brokerage.name
              userBrokerageData := link.userBrokerageData
              isConnected := false }⟩,
            { w with links := w.links ++ [link] })

/-- What `list_links` shows of one link. -/
def linkResponse (w : World) (userId : UserId) (link : UserBrokerageLink) : LinkResponse where
  id := link.id
  brokerageName := link.brokerage.name
  userBrokerageData := link.userBrokerageData
  isConnected := (w.session? userId link.brokerage.name).isSome

/-- `list_links` -/
def listLinks (w : World) (user : User) : Response :=
  ⟨200, .links ((w.links.filter (·.user = user.id)).map (linkResponse w user.id))⟩

/-- `delete_link` -/
def deleteLink (w : World) (user : User) (linkId : Uuid) : Response × World :=
  if w.links.any fun link => link.user = user.id ∧ link.id = linkId then
    (⟨204, .empty⟩, { w with
      links := w.links.filter fun link => ¬ (link.user = user.id ∧ link.id = linkId) })
  else (⟨404, .error "Brokerage link not found."⟩, w)

/-- The `except` clauses of `broker_login`. -/
def loginError : Exn → Response
  | .service .unknownBroker detail _ => ⟨404, .error detail⟩
  | .service .noBrokerageLink detail _ => ⟨404, .error detail⟩
  | .service .invalidBrokerCredentials detail _ => ⟨409, .error detail⟩
  | .service .brokerRateLimited detail _ => ⟨429, .error detail⟩
  | .service .brokerAPI _ _ => ⟨502, .error "Broker authentication failed."⟩
  | .other _ => unexpectedError

/-- `broker_login`; the response schema takes a `client_id` that is a text. -/
def brokerLogin (py : Python) (p : Platform) (w : World) (broker : Broker) (user : User)
    (brokerageName : String) (userCredentials : Dict) : Response × World :=
  if brokerageName ∉ brokerStrategies then (unknownBrokerage py brokerageName, w)
  else
    let (outcome, w, _) := authenticateAndCache py p w broker user brokerageName userCredentials
    match outcome with
    | .error e => (loginError e, w)
    | .ok (session, ttlSeconds) =>
        match session.clientId with
        | .str clientId => (⟨200, .login brokerageName clientId ttlSeconds⟩, w)
        | _ => (unexpectedError, w)

/-- The `except` clauses of `broker_logout`. -/
def logoutError : Exn → Response
  | .service .unknownBroker detail _ => ⟨404, .error detail⟩
  | .service .noBrokerageLink detail _ => ⟨404, .error detail⟩
  | _ => unexpectedError

/-- `broker_logout` -/
def brokerLogout (py : Python) (p : Platform) (w : World) (broker : Broker) (user : User)
    (brokerageName : String) : Response × World :=
  if brokerageName ∉ brokerStrategies then (unknownBrokerage py brokerageName, w)
  else
    let (outcome, w, _) := logoutAndClear py p w broker user brokerageName
    match outcome with
    | .error e => (logoutError e, w)
    | .ok disconnected =>
        let message := if disconnected then "Logged out." else "Already logged out."
        (⟨200, .logout brokerageName disconnected message⟩, w)

end BrokerageController

/-! ## 1. Runs -/

inductive Event where
  | createLink (user : User) (brokerageName : String) (userBrokerageData : Dict) (id : Uuid)
  | listLinks (user : User)
  | deleteLink (user : User) (linkId : Uuid)
  | brokerLogin (broker : Broker) (user : User) (brokerageName : String) (userCredentials : Dict)
  | brokerLogout (broker : Broker) (user : User) (brokerageName : String)
  | wait (microseconds : ℕ)

open BrokerageController

/-- Answer one request, or let time pass. -/
def step (py : Python) (p : Platform) (w : World) : Event → Option World
  | .createLink user name data id => some (createLink py p w user name data id).2
  | .listLinks _ => some w
  | .deleteLink user linkId => some (deleteLink w user linkId).2
  | .brokerLogin broker user name credentials =>
      some (brokerLogin py p w broker user name credentials).2
  | .brokerLogout broker user name => some (brokerLogout py p w broker user name).2
  | .wait microseconds => some { w with now := w.now + microseconds }

/-! ## 2. What a request leaves -/

section

variable {py : Python} {p : Platform} {w : World} {user : User} {name : String}

/-- A new link, where there was none and a brokerage is active; or nothing happens. -/
theorem createLink_cases (py : Python) (p : Platform) (w : World) (user : User) (name : String)
    (data : Dict) (id : Uuid) :
    ((createLink py p w user name data id).2 = w ∧
        ∀ response, (createLink py p w user name data id).1.body ≠ .link response) ∨
      ∃ brokerage, p.active? name = some brokerage ∧ w.link? user.id brokerage = none ∧
        createLink py p w user name data id =
          (⟨201, .link ⟨id, brokerage.name, data, false⟩⟩,
            { w with links := w.links ++ [⟨id, user.id, brokerage, data⟩] }) := by
  unfold createLink
  split
  · exact .inl ⟨rfl, nofun⟩
  · split
    · exact .inl ⟨rfl, nofun⟩
    · rename_i brokerage hactive
      split
      · exact .inl ⟨rfl, nofun⟩
      · rename_i hnew
        split
        · exact .inl ⟨rfl, nofun⟩
        · exact .inr ⟨brokerage, hactive, by simpa using hnew, rfl⟩

/-- Deleting removes the user's links of that id, if there are any. -/
theorem deleteLink_eq (w : World) (user : User) (linkId : Uuid) :
    (deleteLink w user linkId).2 = { w with
      links := w.links.filter fun link => ¬ (link.user = user.id ∧ link.id = linkId) } := by
  unfold deleteLink
  split
  · rfl
  · rename_i hnone
    have hall : w.links.filter (fun link => ¬ (link.user = user.id ∧ link.id = linkId)) = w.links := by
      rw [List.filter_eq_self]
      simpa [imp_iff_not_or] using hnone
    rw [hall]

theorem brokerLogin_cases (broker : Broker) (credentials : Dict) :
    let after := (brokerLogin py p w broker user name credentials).2
    after.links = w.links ∧ after.now = w.now ∧
      (after.sessions = w.sessions ∨
        ∃ brokerage link cached ends, p.active? name = some brokerage ∧
          w.link? user.id brokerage = some link ∧
          encode (AngelOneAuthStrategy.item link.userBrokerageData "client_id") =
            .ok cached.clientId ∧
          after.sessions = w.sessions.set (sessionKey user.id name) cached ends) := by
  have hcases := authenticateAndCache_cases py p w user name broker credentials
  unfold brokerLogin
  split
  · exact ⟨rfl, rfl, .inl rfl⟩
  · rcases hcall : authenticateAndCache py p w broker user name credentials with
      ⟨e | ⟨session, ttlSeconds⟩, v, records⟩
    · rw [hcall] at hcases
      exact hcases
    · rw [hcall] at hcases
      dsimp only
      split
      · exact hcases
      · exact hcases

theorem brokerLogout_cases (broker : Broker) :
    let after := (brokerLogout py p w broker user name).2
    after = w ∨ after = { w with sessions := w.sessions.delete (sessionKey user.id name) } := by
  unfold brokerLogout
  split
  · exact .inl rfl
  · rcases hcall : logoutAndClear py p w broker user name with ⟨e | disconnected, v, records⟩
    · have hcases := logoutAndClear_cases py p w user name broker
      rw [hcall] at hcases
      exact hcases
    · have hcases := logoutAndClear_cases py p w user name broker
      rw [hcall] at hcases
      exact hcases

end

end DjasktTrading.Brokerage
