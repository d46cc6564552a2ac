import DjasktTrading.Brokerage.Links

/-!
# Logging — what a login's secrets change in its records

Two logins of one user that differ in their secrets only, with one outcome of the field check and one
answer of the broker.
-/

open Reasoning

namespace DjasktTrading.Brokerage

open AngelOneAuthStrategy

/-! ## 1. The records of a login -/

/-- The records that `authenticate_and_cache` emits. -/
def loginRecords (py : Python) (p : Platform) (w : World) (broker : Broker) (user : User)
    (name : String) (loginSecrets : Dict) : List LogRecord :=
  (authenticateAndCache py p w broker user name loginSecrets).2.2

/-- The request with which `_call_broker_api` logs in, from the default headers of the endpoint. -/
def loginRequest (endpoint : BrokerageEndpoint) (defaults linkData loginSecrets : Dict) :
    BrokerRequest where
  httpMethod := endpoint.httpMethod
  url := endpoint.url
  payloadType := endpoint.payloadType
  headers := defaults.set "X-PrivateKey" (item linkData "api_key")
  body := [("clientcode", item linkData "client_id"), ("password", item loginSecrets "password"),
    ("totp", item loginSecrets "totp"), ("state", .str "live")]

/-- The two logins pass or fail the field check alike and get one answer from their brokers. -/
def SameOutcomes (py : Python) (p : Platform) (w : World) (user : User) (name : String)
    (broker₁ broker₂ : Broker) (secrets₁ secrets₂ : Dict) : Prop :=
  ∀ link endpoint, resolveLogin py p w user name = .ok (link, endpoint) →
    validateCredentials link.userBrokerageData secrets₁ =
        validateCredentials link.userBrokerageData secrets₂ ∧
      ∀ defaults, endpoint.defaultHeaders = .dict defaults →
        broker₁ (loginRequest endpoint defaults link.userBrokerageData secrets₁) =
          broker₂ (loginRequest endpoint defaults link.userBrokerageData secrets₂)

/-- The login finds its link and its endpoint, no cooldown is active, and no field is missing. -/
def PassesFieldCheck (py : Python) (p : Platform) (w : World) (user : User) (name : String)
    (loginSecrets : Dict) : Prop :=
  ∃ link endpoint, resolveLogin py p w user name = .ok (link, endpoint) ∧
    Expiring.get w.cooldowns w.now (cooldownKey user.id name) = none ∧
    validateCredentials link.userBrokerageData loginSecrets = .ok ()

/-- The records after the check, from what the broker's answer was. -/
def answerRecords (py : Python) (endpoint : BrokerageEndpoint) (user : User) (linkData : Dict)
    (answer : Except Exn Json) : List LogRecord :=
  match answer with
  | .error e => failedRecords endpoint user.id e
  | .ok rawResponse =>
      match parseResponse py rawResponse linkData with
      | .error _ => []
      | .ok _ => [{
          level := .info
          message := "Broker auth succeeded."
          extra := brokerExtra endpoint.brokerage.name user.id
          excInfo := none }]

section

variable {py : Python} {p : Platform} {w : World} {user : User} {name : String}
  {broker broker₁ broker₂ : Broker} {endpoint : BrokerageEndpoint} {link : UserBrokerageLink}
  {linkData secrets secrets₁ secrets₂ : Dict}

theorem callBrokerApi_congr
    (h : ∀ defaults, endpoint.defaultHeaders = .dict defaults →
      broker₁ (loginRequest endpoint defaults linkData secrets₁) =
        broker₂ (loginRequest endpoint defaults linkData secrets₂)) :
    callBrokerApi endpoint broker₁ linkData secrets₁ =
      callBrokerApi endpoint broker₂ linkData secrets₂ := by
  cases hheaders : endpoint.defaultHeaders with
  | dict defaults =>
      have hanswer := h defaults hheaders
      unfold loginRequest at hanswer
      simp only [callBrokerApi, hheaders, unpack, bind, Except.bind, dispatchRequest, hanswer]
  | _ => simp only [callBrokerApi, hheaders, unpack, bind, Except.bind]

theorem authenticate_records_of_error {e : Exn}
    (h : validateCredentials linkData secrets = .error e) :
    (authenticate py endpoint broker user linkData secrets).2 = failedRecords endpoint user.id e := by
  unfold authenticate
  rw [h]

theorem authenticate_records_of_ok (h : validateCredentials linkData secrets = .ok ()) :
    (authenticate py endpoint broker user linkData secrets).2 =
      validatedRecord py linkData secrets ::
        answerRecords py endpoint user linkData
          (callBrokerApi endpoint broker linkData secrets) := by
  unfold authenticate answerRecords
  rw [h]
  dsimp only
  cases callBrokerApi endpoint broker linkData secrets with
  | error e => rfl
  | ok rawResponse =>
      dsimp only
      cases parseResponse py rawResponse linkData with
      | error e => rfl
      | ok session => rfl

/-- A login that no cooldown stops logs what its strategy logs. -/
theorem loginRecords_of_resolved (hresolve : resolveLogin py p w user name = .ok (link, endpoint))
    (hcooldown : Expiring.get w.cooldowns w.now (cooldownKey user.id name) = none) :
    loginRecords py p w broker user name secrets =
      (authenticate py endpoint broker user link.userBrokerageData secrets).2 := by
  have henforce : enforceLoginCooldown py w user.id name =
      (.ok (), { w with
        cooldowns := w.cooldowns.set (cooldownKey user.id name) ()
          (w.now + loginCooldownSeconds * second) }, []) := by
    unfold enforceLoginCooldown
    dsimp only
    rw [hcooldown]
  unfold loginRecords authenticateAndCache
  rw [hresolve]
  dsimp only
  rw [henforce]
  dsimp only
  rcases authenticate py endpoint broker user link.userBrokerageData secrets with ⟨e | session, logged⟩
  · rfl
  · dsimp only
    rcases BrokerSessionCache.store w.sessions w.now user.id name session with ⟨e | ttl, sessions⟩
    · rfl
    · rfl

theorem validatedRecord_inj :
    validatedRecord py linkData secrets₁ = validatedRecord py linkData secrets₂ ↔
      secrets₁.repr py = secrets₂.repr py := by
  constructor
  · intro h
    have hmessage := congrArg LogRecord.message h
    exact (String.append_right_inj _).mp ((String.append_left_inj _).mp hmessage)
  · intro h
    unfold validatedRecord
    rw [h]

/-- A login that stops before its fields have passed the check logs nothing of them. -/
theorem loginRecords_of_not_passesFieldCheck
    (h : ¬ PassesFieldCheck py p w user name secrets₁)
    (hsame : SameOutcomes py p w user name broker₁ broker₂ secrets₁ secrets₂) :
    loginRecords py p w broker₁ user name secrets₁ =
      loginRecords py p w broker₂ user name secrets₂ := by
  cases hresolve : resolveLogin py p w user name with
  | error e => simp only [loginRecords, authenticateAndCache, hresolve]
  | ok r =>
      obtain ⟨link, endpoint⟩ := r
      cases hcooldown : Expiring.get w.cooldowns w.now (cooldownKey user.id name) with
      | some _ =>
          simp only [loginRecords, authenticateAndCache, hresolve, enforceLoginCooldown, hcooldown]
      | none =>
          obtain ⟨hvalid, -⟩ := hsame link endpoint hresolve
          cases hchecked : validateCredentials link.userBrokerageData secrets₁ with
          | ok _ => exact absurd ⟨link, endpoint, hresolve, hcooldown, hchecked⟩ h
          | error e =>
              rw [loginRecords_of_resolved hresolve hcooldown,
                loginRecords_of_resolved hresolve hcooldown, authenticate_records_of_error hchecked,
                authenticate_records_of_error (hvalid.symm.trans hchecked)]

end

/-- **Login secrets and the logs.**  Two logins log the same exactly if they do not pass the field
check or their secrets have one `repr`. -/
theorem loginRecords_eq_iff (py : Python) (p : Platform) (w : World) (user : User) (name : String)
    (broker₁ broker₂ : Broker) (secrets₁ secrets₂ : Dict)
    (hsame : SameOutcomes py p w user name broker₁ broker₂ secrets₁ secrets₂) :
    loginRecords py p w broker₁ user name secrets₁ =
        loginRecords py p w broker₂ user name secrets₂ ↔
      ¬ PassesFieldCheck py p w user name secrets₁ ∨ secrets₁.repr py = secrets₂.repr py := by
  by_cases hpasses : PassesFieldCheck py p w user name secrets₁
  · obtain ⟨link, endpoint, hresolve, hcooldown, hchecked⟩ := id hpasses
    obtain ⟨hvalid, hanswer⟩ := hsame link endpoint hresolve
    rw [loginRecords_of_resolved hresolve hcooldown, loginRecords_of_resolved hresolve hcooldown,
      authenticate_records_of_ok hchecked, authenticate_records_of_ok (hvalid.symm.trans hchecked),
      callBrokerApi_congr hanswer, List.cons.injEq, validatedRecord_inj]
    simp [hpasses]
  · exact iff_of_true (loginRecords_of_not_passesFieldCheck hpasses hsame) (.inl hpasses)

/-- The trader's link, before a login. -/
def linkedTrader : World :=
  { World.initial with
    links := [⟨7, 1, ⟨1, "angel_one", true⟩, [("client_id", .str "C1"), ("api_key", .str "K1")]⟩] }

/-- A login with a password and the time-based code of the moment. -/
def secretsWith (password : String) : Dict := [("password", .str password), ("totp", .str "123456")]

theorem require_secretsWith {password : String} (h : password ≠ "") (detail : String) :
    require (secretsWith password) "password" detail = .ok () := by
  simp [require, Dict.lacks, Dict.get?, secretsWith, Json.truthy, h]

theorem sameOutcomes_secretsWith {password password' : String} (h : password ≠ "")
    (h' : password' ≠ "") :
    SameOutcomes .default angelOne linkedTrader trader "angel_one" acceptingBroker acceptingBroker
      (secretsWith password) (secretsWith password') := by
  intro link endpoint _
  refine ⟨?_, fun _ _ => rfl⟩
  unfold validateCredentials
  rw [require_secretsWith h, require_secretsWith h']
  rfl

theorem loginRecords_eq_iff_hunter2 :
    loginRecords .default angelOne linkedTrader acceptingBroker trader "angel_one"
          (secretsWith "hunter2") =
        loginRecords .default angelOne linkedTrader acceptingBroker trader "angel_one"
          (secretsWith "letmein") ↔
      ¬ PassesFieldCheck .default angelOne linkedTrader trader "angel_one" (secretsWith "hunter2") ∨
        (secretsWith "hunter2").repr .default = (secretsWith "letmein").repr .default :=
  loginRecords_eq_iff .default angelOne linkedTrader trader "angel_one" acceptingBroker
    acceptingBroker _ _ (sameOutcomes_secretsWith (by decide) (by decide))

/-- The record of the field check shows the password. -/
theorem loginRecords_ne_hunter2 :
    (secretsWith "hunter2").map Prod.fst = (secretsWith "letmein").map Prod.fst ∧
      SameOutcomes .default angelOne linkedTrader trader "angel_one" acceptingBroker acceptingBroker
        (secretsWith "hunter2") (secretsWith "letmein") ∧
      loginRecords .default angelOne linkedTrader acceptingBroker trader "angel_one"
          (secretsWith "hunter2") ≠
        loginRecords .default angelOne linkedTrader acceptingBroker trader "angel_one"
          (secretsWith "letmein") := by
  refine ⟨rfl, sameOutcomes_secretsWith (by decide) (by decide), ?_⟩
  decide +kernel

end DjasktTrading.Brokerage
