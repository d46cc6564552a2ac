import DjasktTrading.Brokerage.Logging

/-!
# Outcomes — what logins and logouts answer

A broker answers with any status and any body, or does not answer.  The two actions are compared with
their documentation: the statuses they name, and what is cached afterwards.
-/

open Reasoning

namespace DjasktTrading.Brokerage

open AngelOneAuthStrategy BrokerageController

/-! ## 1. HTTP -/

/-- What comes of a request: an `httpx.HTTPError`, another exception of the client, or a response with
its status, the text of the `HTTPStatusError` for it, and its body where that parses as JSON. -/
inductive Exchange where
  | httpError (text : String)
  | raises (text : String)
  | response (status : ℕ) (statusError : String) (json? : Option Json)

namespace Exchange

/-- `is_success` -/
def IsSuccess (status : ℕ) : Prop := 200 ≤ status ∧ status < 300

instance (status : ℕ) : Decidable (IsSuccess status) := inferInstanceAs (Decidable (_ ∧ _))

/-- `raise_for_status` and `json`, as `_dispatch_request` calls them. -/
def outcome : Exchange → HttpOutcome
  | .httpError text => .httpError text
  | .raises text => .raises text
  | .response status statusError json? =>
      if IsSuccess status then
        match json? with
        | some json => .body json
        | none => .raises "JSONDecodeError"
      else .httpError statusError

/-- The exchange fails as HTTP, or it ends with a JSON object. -/
def Readable : Exchange → Prop
  | .httpError _ => True
  | .raises _ => False
  | .response status _ json? => ¬ IsSuccess status ∨ ∃ entries, json? = some (.dict entries)

/-- The answer says success and carries two tokens, of whatever type. -/
def Grants (x : Exchange) (jwtToken feedToken : Json) : Prop :=
  ∃ status statusError entries fields,
    x = .response status statusError (some (.dict entries)) ∧ IsSuccess status ∧
      Dict.get? entries "status" = some (.bool true) ∧
      Dict.get? entries "data" = some (.dict fields) ∧
      Dict.get? fields "jwtToken" = some jwtToken ∧ Dict.get? fields "feedToken" = some feedToken

/-- The exchange fails as HTTP, or it ends with an object that does not say success, or one that says
it with a `data` that is empty or lacks a token. -/
def Declines : Exchange → Prop
  | .httpError _ => True
  | .raises _ => False
  | .response status _ json? => ¬ IsSuccess status ∨ ∃ entries, json? = some (.dict entries) ∧
      (Dict.get? entries "status" ≠ some (.bool true) ∨ Dict.lacks entries "data" ∨
        ∃ fields, Dict.get? entries "data" = some (.dict fields) ∧
          (Dict.get? fields "jwtToken" = none ∨ Dict.get? fields "feedToken" = none))

theorem Grants.unique {x : Exchange} {jwtToken feedToken jwtToken' feedToken' : Json}
    (h : x.Grants jwtToken feedToken) (h' : x.Grants jwtToken' feedToken') :
    jwtToken = jwtToken' ∧ feedToken = feedToken' := by
  obtain ⟨status, statusError, entries, fields, rfl, -, -, hdata, hjwt, hfeed⟩ := h
  obtain ⟨_, _, _, _, hx, -, -, hdata', hjwt', hfeed'⟩ := h'
  cases hx
  obtain rfl := Json.dict.inj (Option.some.inj (hdata.symm.trans hdata'))
  exact ⟨Option.some.inj (hjwt.symm.trans hjwt'), Option.some.inj (hfeed.symm.trans hfeed')⟩

theorem Grants.not_declines {x : Exchange} {jwtToken feedToken : Json}
    (h : x.Grants jwtToken feedToken) : ¬ x.Declines := by
  obtain ⟨status, statusError, entries, fields, rfl, hsuccess, hstatus, hdata, hjwt, hfeed⟩ := h
  rintro (hfailed | ⟨_, hentries, hrest⟩)
  · exact hfailed hsuccess
  · cases hentries
    rcases hrest with hnot | hlacks | ⟨fields', hdata', hmissing⟩
    · exact hnot hstatus
    · have hempty : fields = [] := by simpa [Dict.lacks, hdata, Json.truthy] using hlacks
      rw [hempty] at hjwt
      cases hjwt
    · obtain rfl := Json.dict.inj (Option.some.inj (hdata.symm.trans hdata'))
      simp [hjwt, hfeed] at hmissing

end Exchange

/-! ## 2. What a login makes of an answer -/

/-- What `_dispatch_request` makes of an outcome. -/
def HttpOutcome.result : HttpOutcome → Except Exn Json
  | .httpError text => .error (.service .brokerAPI ("Broker request failed: " ++ text) (some text))
  | .raises text => .error (.other text)
  | .body json => .ok json

/-- What a login has of its answer, or raises. -/
def loginSession (py : Python) (linkData : Dict) (x : Exchange) : Except Exn BrokerSession :=
  x.outcome.result.bind fun rawResponse => parseResponse py rawResponse linkData

section

variable {py : Python} {linkData credentials defaults : Dict}

theorem dispatchRequest_eq (endpoint : BrokerageEndpoint) (broker : Broker) (headers body : Dict) :
    dispatchRequest endpoint broker headers body =
      (broker ⟨endpoint.httpMethod, endpoint.url, endpoint.payloadType, headers, body⟩).result := by
  unfold dispatchRequest HttpOutcome.result
  rfl

theorem authenticate_of_validated {endpoint : BrokerageEndpoint} {user : User}
    (exchange : BrokerRequest → Exchange)
    (hvalid : validateCredentials linkData credentials = .ok ())
    (hheaders : endpoint.defaultHeaders = .dict defaults) :
    (authenticate py endpoint (fun r => (exchange r).outcome) user linkData credentials).1 =
      loginSession py linkData (exchange (loginRequest endpoint defaults linkData credentials)) := by
  have hcall : callBrokerApi endpoint (fun r => (exchange r).outcome) linkData credentials =
      (exchange (loginRequest endpoint defaults linkData credentials)).outcome.result := by
    simp only [callBrokerApi, hheaders, unpack, bind, Except.bind, dispatchRequest_eq, loginRequest]
  unfold authenticate loginSession
  rw [hvalid]
  dsimp only
  rw [hcall]
  cases (exchange (loginRequest endpoint defaults linkData credentials)).outcome.result with
  | error e => rfl
  | ok rawResponse =>
      simp only [Except.bind]
      cases parseResponse py rawResponse linkData with
      | error e => rfl
      | ok session => rfl

theorem parseResponse_of_status (py : Python) {entries : Dict}
    (h : Dict.get? entries "status" ≠ some (.bool true)) :
    ∃ detail, parseResponse py (.dict entries) linkData =
      .error (.service .brokerAPI detail none) := by
  have hcheck : ∃ detail, checkStatus py entries "Angel One rejected the login: "
      "Angel One login failed." = .error (.service .brokerAPI detail none) := by
    unfold checkStatus
    split
    · exact absurd ‹_› h
    · exact ⟨_, rfl⟩
  obtain ⟨detail, hcheck⟩ := hcheck
  refine ⟨detail, ?_⟩
  simp only [parseResponse, hcheck, bind, Except.bind]

/-- `raw_response.get("data") or \x7b\x7d` -/
def answerData (entries : Dict) : Json :=
  match Dict.get? entries "data" with
  | some data => if data.truthy then data else .dict []
  | none => .dict []

/-- An object that says success gives the fields of its `data`. -/
theorem parseResponse_of_success {entries : Dict}
    (h : Dict.get? entries "status" = some (.bool true)) :
    parseResponse py (.dict entries) linkData =
      (dataField (answerData entries) "jwtToken").bind fun jwtToken =>
        (dataField (answerData entries) "feedToken").bind fun feedToken =>
          .ok ⟨jwtToken, feedToken, item linkData "client_id"⟩ := by
  simp only [parseResponse, checkStatus, h, bind, Except.bind]
  rfl

theorem answerData_of_lacks {entries : Dict} (h : Dict.lacks entries "data") :
    answerData entries = .dict [] := by
  unfold Dict.lacks at h
  unfold answerData
  cases hdata : Dict.get? entries "data" with
  | none => rfl
  | some data =>
      simp only [hdata, Bool.not_eq_true'] at h
      simp only [h, Bool.false_eq_true, if_false]

theorem answerData_of_not_lacks {entries : Dict} (h : ¬ Dict.lacks entries "data") :
    Dict.get? entries "data" = some (answerData entries) := by
  unfold Dict.lacks at h
  unfold answerData
  cases hdata : Dict.get? entries "data" with
  | none => simp only [hdata, not_true_eq_false] at h
  | some data =>
      simp only [hdata, Bool.not_eq_true', Bool.not_eq_false] at h
      simp only [h, if_true]

/-- A field that is missing is an error of the broker. -/
theorem dataField_dict_cases (fields : Dict) (key : String) :
    (Dict.get? fields key = none ∧
        ∃ detail cause, dataField (.dict fields) key = .error (.service .brokerAPI detail cause)) ∨
      ∃ value, Dict.get? fields key = some value ∧ dataField (.dict fields) key = .ok value := by
  cases hvalue : Dict.get? fields key with
  | none =>
      let text := "'" ++ key ++ "'"
      refine .inl ⟨rfl, "Angel One response missing expected field: " ++ text, some text, ?_⟩
      simp only [dataField, hvalue, text]
  | some value =>
      refine .inr ⟨value, rfl, ?_⟩
      simp only [dataField, hvalue]

theorem dataField_of_not_dict {data : Json} (h : ∀ fields, data ≠ .dict fields) (key : String) :
    dataField data key = .error (.other "TypeError") := by
  unfold dataField
  split
  · exact absurd rfl (h _)
  · rfl

/-- An object as an answer: it is declined, or gives a session, or its `data` cannot be indexed. -/
theorem parseResponse_dict_cases (py : Python) (linkData entries : Dict) {status : ℕ}
    (hsuccess : Exchange.IsSuccess status) (statusError : String) :
    let x : Exchange := .response status statusError (some (.dict entries))
    (x.Declines ∧ ∃ detail cause,
        parseResponse py (.dict entries) linkData = .error (.service .brokerAPI detail cause)) ∨
      (∃ jwtToken feedToken, x.Grants jwtToken feedToken ∧
        parseResponse py (.dict entries) linkData =
          .ok ⟨jwtToken, feedToken, item linkData "client_id"⟩) ∨
      (¬ x.Declines ∧ (∀ jwtToken feedToken, ¬ x.Grants jwtToken feedToken) ∧
        ∃ text, parseResponse py (.dict entries) linkData = .error (.other text)) := by
  intro x
  by_cases hstatus : Dict.get? entries "status" = some (.bool true)
  case neg =>
    obtain ⟨detail, herror⟩ := parseResponse_of_status py hstatus
    exact .inl ⟨.inr ⟨entries, rfl, .inl hstatus⟩, detail, none, herror⟩
  rw [parseResponse_of_success hstatus]
  by_cases hlacks : Dict.lacks entries "data"
  case pos =>
    obtain ⟨-, detail, cause, herror⟩ | ⟨_, hnone, -⟩ := dataField_dict_cases [] "jwtToken"
    · refine .inl ⟨.inr ⟨entries, rfl, .inr (.inl hlacks)⟩, detail, cause, ?_⟩
      rw [answerData_of_lacks hlacks, herror]
      rfl
    · cases hnone
  have hdata := answerData_of_not_lacks hlacks
  by_cases hdict : ∃ fields, answerData entries = .dict fields
  -- an object: the two fields are read one after the other
  · obtain ⟨fields, hfields⟩ := hdict
    rw [hfields] at hdata ⊢
    have hdeclines : Dict.get? fields "jwtToken" = none ∨ Dict.get? fields "feedToken" = none →
        x.Declines := fun hmissing => .inr ⟨entries, rfl, .inr (.inr ⟨fields, hdata, hmissing⟩)⟩
    obtain ⟨hjwt, detail, cause, herror⟩ | ⟨jwtToken, hjwt, hjwtField⟩ :=
      dataField_dict_cases fields "jwtToken"
    · exact .inl ⟨hdeclines (.inl hjwt), detail, cause, by rw [herror]; rfl⟩
    · obtain ⟨hfeed, detail, cause, herror⟩ | ⟨feedToken, hfeed, hfeedField⟩ :=
        dataField_dict_cases fields "feedToken"
      · exact .inl ⟨hdeclines (.inr hfeed), detail, cause, by rw [hjwtField, herror]; rfl⟩
      · refine .inr (.inl ⟨jwtToken, feedToken, ?_, by rw [hjwtField, hfeedField]; rfl⟩)
        exact ⟨status, statusError, entries, fields, rfl, hsuccess, hstatus, hdata, hjwt, hfeed⟩
  -- anything else that is truthy: indexing it is a `TypeError`, which only `KeyError` would catch
  · refine .inr (.inr ⟨?_, ?_, "TypeError", ?_⟩)
    · rintro (hfailed | ⟨_, hentries, hrest⟩)
      · exact hfailed hsuccess
      · cases hentries
        rcases hrest with hnot | hnot | ⟨fields, hfields, -⟩
        · exact hnot hstatus
        · exact hlacks hnot
        · exact hdict ⟨fields, Option.some.inj (hdata.symm.trans hfields)⟩
    · rintro jwtToken feedToken ⟨_, _, _, fields, hx, -, -, hfields, -⟩
      obtain ⟨-, -, hentries⟩ := Exchange.response.inj hx
      obtain rfl := Json.dict.inj (Option.some.inj hentries)
      exact hdict ⟨fields, Option.some.inj (hdata.symm.trans hfields)⟩
    · rw [dataField_of_not_dict fun fields hfields => hdict ⟨fields, hfields⟩]
      rfl

/-- The three things a login makes of an answer: an error of its own, a session, or an exception that
`broker_login` does not name. -/
theorem loginSession_cases (py : Python) (linkData : Dict) (x : Exchange) :
    (x.Declines ∧ ∃ detail cause,
        loginSession py linkData x = .error (.service .brokerAPI detail cause)) ∨
      (∃ jwtToken feedToken, x.Grants jwtToken feedToken ∧
        loginSession py linkData x = .ok ⟨jwtToken, feedToken, item linkData "client_id"⟩) ∨
      (¬ x.Declines ∧ (∀ jwtToken feedToken, ¬ x.Grants jwtToken feedToken) ∧
        ∃ text, loginSession py linkData x = .error (.other text)) := by
  cases x with
  | httpError text => exact .inl ⟨trivial, _, _, rfl⟩
  | raises text =>
      refine .inr (.inr ⟨id, ?_, text, rfl⟩)
      rintro jwtToken feedToken ⟨_, _, _, _, hx, -⟩
      cases hx
  | response status statusError json? =>
      by_cases hsuccess : Exchange.IsSuccess status
      case neg =>
        refine .inl ⟨.inl hsuccess, "Broker request failed: " ++ statusError, some statusError, ?_⟩
        simp only [loginSession, Exchange.outcome, if_neg hsuccess]
        rfl
      by_cases hdict : ∃ entries, json? = some (.dict entries)
      · obtain ⟨entries, rfl⟩ := hdict
        have hparsed : loginSession py linkData (.response status statusError (some (.dict entries))) =
            parseResponse py (.dict entries) linkData := by
          simp only [loginSession, Exchange.outcome, if_pos hsuccess]
          rfl
        rw [hparsed]
        exact parseResponse_dict_cases py linkData entries hsuccess statusError
      · refine .inr (.inr ⟨?_, ?_, ?_⟩)
        · rintro (hfailed | ⟨entries, hentries, -⟩)
          · exact hfailed hsuccess
          · exact hdict ⟨entries, hentries⟩
        · rintro jwtToken feedToken ⟨_, _, entries, _, hx, -⟩
          cases hx
          exact hdict ⟨entries, rfl⟩
        · simp only [loginSession, Exchange.outcome, if_pos hsuccess]
          cases json? with
          | none => exact ⟨_, rfl⟩
          | some json =>
              cases json with
              | dict entries => exact absurd ⟨entries, rfl⟩ hdict
              | _ => exact ⟨_, rfl⟩

end

/-! ## 3. Logins -/

section

variable (py : Python) (p : Platform) (w : World) (user : User) (name : String)
  (exchange : BrokerRequest → Exchange) (credentials : Dict)

/-- `POST /brokerage/login/`, with what comes of the requests to the broker. -/
def login : Response × World :=
  brokerLogin py p w (fun r => (exchange r).outcome) user name credentials

/-- The documented statuses; a session of the answer's tokens and the link's client exactly with
200. -/
structure LoginDocumented : Prop where
  status : (login py p w user name exchange credentials).1.status ∈ [200, 404, 409, 429, 502]
  cached : (login py p w user name exchange credentials).1.status = 200 →
    ∃ link endpoint defaults jwtToken feedToken clientId,
      resolveLogin py p w user name = .ok (link, endpoint) ∧
      endpoint.defaultHeaders = .dict defaults ∧
      (exchange (loginRequest endpoint defaults link.userBrokerageData credentials)).Grants
        (.str jwtToken) (.str feedToken) ∧
      Dict.get? link.userBrokerageData "client_id" = some (.str clientId) ∧
      jwtToken ≠ "" ∧ feedToken ≠ "" ∧
      (login py p w user name exchange credentials).2.session? user.id name =
        some ⟨jwtToken, feedToken, clientId⟩
  unchanged : (login py p w user name exchange credentials).1.status ≠ 200 →
    (login py p w user name exchange credentials).2.session? user.id name =
      w.session? user.id name

/-- The answer is declined, or it has two Unicode texts as tokens for a client that is one, and midnight
in India is a second away or more. -/
def AnswerHandled (linkData : Dict) (x : Exchange) : Prop :=
  x.Declines ∨
    (∃ jwtToken feedToken, x.Grants (.str jwtToken) (.str feedToken) ∧ jwtToken ≠ "" ∧
      feedToken ≠ "") ∧
    (∃ clientId, Dict.get? linkData "client_id" = some (.str clientId)) ∧
    second ≤ secondsUntilIstMidnight w.now

/-- The login is turned down before it calls the broker, or it sends its headers and handles the
answer. -/
def LoginHandled : Prop :=
  ∀ link endpoint, resolveLogin py p w user name = .ok (link, endpoint) →
    Expiring.get w.cooldowns w.now (cooldownKey user.id name) = none →
    validateCredentials link.userBrokerageData credentials = .ok () →
      ∃ defaults, endpoint.defaultHeaders = .dict defaults ∧
        AnswerHandled w link.userBrokerageData
          (exchange (loginRequest endpoint defaults link.userBrokerageData credentials))

end

section

variable {py : Python} {p : Platform} {w : World} {user : User} {name : String}
  {exchange : BrokerRequest → Exchange} {credentials : Dict} {link : UserBrokerageLink}
  {endpoint : BrokerageEndpoint}

/-- The cooldown that a login leaves. -/
def World.cooled (w : World) (userId : UserId) (name : String) : World :=
  let ends := w.now + loginCooldownSeconds * second
  { w with cooldowns := w.cooldowns.set (cooldownKey userId name) () ends }

theorem resolveLogin_eq_error {e : Exn} (h : resolveLogin py p w user name = .error e) :
    (loginError e).status = 404 := by
  unfold resolveLogin getStrategyClass at h
  split at h
  · simp only [bind, Except.bind] at h
    unfold getBrokerageAndLink at h
    split at h
    · cases h
      rename_i hlookup
      split at hlookup
      · cases hlookup
        rfl
      · split at hlookup
        · cases hlookup
          rfl
        · cases hlookup
    · split at h
      · cases h
        rfl
      · cases h
  · cases h
    rfl

/-- A check passes, or raises `InvalidBrokerCredentialsError`. -/
def Checks (r : Except Exn Unit) : Prop :=
  r = .ok () ∨ ∃ detail, r = .error (invalidBrokerCredentials detail)

theorem Checks.bind {r s : Except Exn Unit} (hr : Checks r) (hs : Checks s) :
    Checks (r.bind fun _ => s) := by
  rcases hr with rfl | ⟨detail, rfl⟩
  · exact hs
  · exact .inr ⟨detail, rfl⟩

theorem checks_require (d : Dict) (key detail : String) : Checks (require d key detail) := by
  unfold require
  split
  · exact .inr ⟨detail, rfl⟩
  · exact .inl rfl

theorem checks_validateCredentials (linkData credentials : Dict) :
    Checks (validateCredentials linkData credentials) :=
  (checks_require linkData "client_id" _).bind <| (checks_require linkData "api_key" _).bind <|
    (checks_require credentials "password" _).bind <| checks_require credentials "totp" _

theorem checks_validateLogoutCredentials (linkData : Dict) (cachedSession : CachedSession) :
    Checks (validateLogoutCredentials linkData cachedSession) := by
  refine (checks_require linkData "client_id" _).bind ((checks_require linkData "api_key" _).bind ?_)
  split
  · exact .inr ⟨_, rfl⟩
  · exact .inl rfl

theorem unpack_of_not_dict {json : Json} (h : ¬ ∃ entries, json = .dict entries) :
    unpack json = .error (.other "TypeError") := by
  unfold unpack
  split
  · exact absurd ⟨_, rfl⟩ h
  · rfl

/-- What is said of the entries of a mapping. -/
theorem exists_dict_and_iff {json : Json} {entries : Dict} (h : json = .dict entries)
    {P : Dict → Prop} : (∃ d, json = .dict d ∧ P d) ↔ P entries := by
  constructor
  · rintro ⟨d, hd, hP⟩
    obtain rfl := Json.dict.inj (h.symm.trans hd)
    exact hP
  · exact fun hP => ⟨entries, h, hP⟩

/-- A login that calls its strategy. -/
theorem login_of_resolved (exchange : BrokerRequest → Exchange) (credentials : Dict)
    (hname : name ∈ brokerStrategies)
    (hresolve : resolveLogin py p w user name = .ok (link, endpoint))
    (hcooldown : Expiring.get w.cooldowns w.now (cooldownKey user.id name) = none) :
    login py p w user name exchange credentials =
      match (authenticate py endpoint (fun r => (exchange r).outcome) user link.userBrokerageData
        credentials).1 with
      | .error e => (loginError e, w.cooled user.id name)
      | .ok session =>
          let ttlSeconds := secondsUntilIstMidnight w.now / second
          match session.encode with
          | .error e => (loginError e, w.cooled user.id name)
          | .ok cached =>
              (match session.clientId with
                | .str clientId => ⟨200, .login name clientId ttlSeconds⟩
                | _ => unexpectedError,
              { w.cooled user.id name with
                sessions := w.sessions.set (sessionKey user.id name) cached
                  (w.now + ttlSeconds * second) }) := by
  have henforce : enforceLoginCooldown py w user.id name = (.ok (), w.cooled user.id name, []) := by
    unfold enforceLoginCooldown World.cooled
    dsimp only
    rw [hcooldown]
  unfold login brokerLogin authenticateAndCache
  rw [if_neg (not_not.mpr hname), hresolve]
  dsimp only
  rw [henforce]
  dsimp only
  rcases authenticate py endpoint (fun r => (exchange r).outcome) user link.userBrokerageData
    credentials with ⟨e | session, logged⟩
  · rfl
  · dsimp only
    unfold BrokerSessionCache.store
    cases session.encode with
    | error e => rfl
    | ok cached =>
        dsimp only [World.cooled]
        cases session.clientId with
        | _ => rfl

theorem authenticate_of_unpackable {linkData : Dict} (broker : Broker)
    (hvalid : validateCredentials linkData credentials = .ok ())
    (hheaders : ¬ ∃ defaults, endpoint.defaultHeaders = .dict defaults) :
    (authenticate py endpoint broker user linkData credentials).1 = .error (.other "TypeError") := by
  unfold authenticate
  rw [hvalid]
  simp only [callBrokerApi, unpack_of_not_dict hheaders, bind, Except.bind]

/-- An error with a documented status that leaves the session. -/
theorem LoginDocumented.of_error {r : Response} {v : World}
    (heq : login py p w user name exchange credentials = (r, v))
    (hstatus : r.status = 404 ∨ r.status = 409 ∨ r.status = 429 ∨ r.status = 502)
    (hsessions : v.sessions = w.sessions) (hnow : v.now = w.now) :
    LoginDocumented py p w user name exchange credentials where
  status := by
    rw [heq]
    rcases hstatus with h | h | h | h
    all_goals simp [h]
  cached h := by
    rw [heq] at h
    rcases hstatus with h' | h' | h' | h'
    all_goals exact absurd (h'.symm.trans h) (by decide)
  unchanged _ := by
    rw [heq, World.session?, World.session?, hsessions, hnow]

theorem not_loginDocumented_of_unexpected
    (h : (login py p w user name exchange credentials).1 = unexpectedError) :
    ¬ LoginDocumented py p w user name exchange credentials := by
  intro hdocumented
  have hstatus := hdocumented.status
  rw [h] at hstatus
  simp [unexpectedError] at hstatus

/-- The session that a login stores is there afterwards unless its time to live rounds down to 0. -/
theorem session?_of_login {cached : CachedSession} {v : World} (hnow : v.now = w.now)
    (hsessions : v.sessions = w.sessions.set (sessionKey user.id name) cached
      (w.now + secondsUntilIstMidnight w.now / second * second)) :
    v.session? user.id name =
      if second ≤ secondsUntilIstMidnight w.now then some cached else none := by
  have hlives : w.now < w.now + secondsUntilIstMidnight w.now / second * second ↔
      second ≤ secondsUntilIstMidnight w.now := by
    rw [Nat.lt_add_right_iff_pos, Nat.mul_pos_iff_of_pos_right (by decide), Nat.div_pos_iff]
    simp [second]
  unfold World.session? BrokerSessionCache.get
  rw [hsessions, hnow]
  simp only [Expiring.get, Expiring.set_self]
  exact if_congr hlives rfl rfl

theorem BrokerSession.encode_eq_error {session : BrokerSession} {e : Exn}
    (h : session.encode = .error e) : loginError e = unexpectedError := by
  have hencode : ∀ (value : Json) (e : Exn), Brokerage.encode value = .error e →
      loginError e = unexpectedError := by
    intro value e he
    unfold Brokerage.encode at he
    split at he
    all_goals cases he
    all_goals rfl
  unfold BrokerSession.encode at h
  simp only [bind, Except.bind, pure, Except.pure] at h
  split at h
  · cases h
    exact hencode _ _ ‹_›
  · split at h
    · cases h
      exact hencode _ _ ‹_›
    · split at h
      · cases h
        exact hencode _ _ ‹_›
      · cases h

/-- A login whose answer grants two tokens. -/
theorem loginDocumented_iff_of_grants {defaults : Dict} {jwtToken feedToken : Json}
    (hname : name ∈ brokerStrategies)
    (hresolve : resolveLogin py p w user name = .ok (link, endpoint))
    (hcooldown : Expiring.get w.cooldowns w.now (cooldownKey user.id name) = none)
    (hheaders : endpoint.defaultHeaders = .dict defaults)
    (hgrants : (exchange (loginRequest endpoint defaults link.userBrokerageData credentials)).Grants
      jwtToken feedToken)
    (hsession : (authenticate py endpoint (fun r => (exchange r).outcome) user
      link.userBrokerageData credentials).1 =
        .ok ⟨jwtToken, feedToken, item link.userBrokerageData "client_id"⟩) :
    LoginDocumented py p w user name exchange credentials ↔
      AnswerHandled w link.userBrokerageData
        (exchange (loginRequest endpoint defaults link.userBrokerageData credentials)) := by
  have hlogin := login_of_resolved exchange credentials hname hresolve hcooldown
  rw [hsession] at hlogin
  dsimp only at hlogin
  constructor
  -- a 200 needs a text as `client_id`; the stored texts are those of the grant
  · intro hdocumented
    cases hencode : BrokerSession.encode
        ⟨jwtToken, feedToken, item link.userBrokerageData "client_id"⟩ with
    | error e =>
        rw [hencode] at hlogin
        refine absurd hdocumented (not_loginDocumented_of_unexpected ?_)
        rw [hlogin]
        exact BrokerSession.encode_eq_error hencode
    | ok cached =>
        rw [hencode] at hlogin
        dsimp only at hlogin
        have hstatus : (login py p w user name exchange credentials).1.status = 200 := by
          by_contra hother
          refine not_loginDocumented_of_unexpected ?_ hdocumented
          rw [hlogin] at hother ⊢
          dsimp only at hother ⊢
          split at hother
          · exact absurd rfl hother
          · rfl
        obtain ⟨link', endpoint', defaults', jwt, feed, clientId, hresolve', hheaders', hgrants',
          hclient, hjwt, hfeed, hcached⟩ := hdocumented.cached hstatus
        obtain ⟨rfl, rfl⟩ := Prod.mk.inj (Except.ok.inj (hresolve.symm.trans hresolve'))
        obtain rfl := Json.dict.inj (hheaders.symm.trans hheaders')
        refine .inr ⟨⟨jwt, feed, hgrants', hjwt, hfeed⟩, ⟨clientId, hclient⟩, ?_⟩
        by_contra hlate
        rw [session?_of_login (w := w) (by rw [hlogin]; rfl) (by rw [hlogin]), if_neg hlate] at hcached
        cases hcached
  · rintro (hdeclines | ⟨⟨jwt, feed, hgrants', hjwt, hfeed⟩, ⟨clientId, hclient⟩, hlives⟩)
    · exact absurd hdeclines hgrants.not_declines
    · obtain ⟨rfl, rfl⟩ := hgrants.unique hgrants'
      have hitem : item link.userBrokerageData "client_id" = .str clientId := by
        rw [item, hclient]
        rfl
      have hencode : BrokerSession.encode ⟨.str jwt, .str feed, .str clientId⟩ =
          .ok ⟨jwt, feed, clientId⟩ := rfl
      rw [hitem, hencode] at hlogin
      dsimp only at hlogin
      constructor
      · rw [hlogin]
        simp
      · intro _
        refine ⟨link, endpoint, defaults, jwt, feed, clientId, hresolve, hheaders, hgrants', hclient,
          hjwt, hfeed, ?_⟩
        rw [session?_of_login (w := w) (by rw [hlogin]; rfl) (by rw [hlogin]), if_pos hlives]
      · intro hother
        rw [hlogin] at hother
        exact absurd rfl hother

/-- A login that calls its broker. -/
theorem loginDocumented_iff_of_validated (hname : name ∈ brokerStrategies)
    (hresolve : resolveLogin py p w user name = .ok (link, endpoint))
    (hcooldown : Expiring.get w.cooldowns w.now (cooldownKey user.id name) = none)
    (hvalid : validateCredentials link.userBrokerageData credentials = .ok ()) :
    LoginDocumented py p w user name exchange credentials ↔
      ∃ defaults, endpoint.defaultHeaders = .dict defaults ∧
        AnswerHandled w link.userBrokerageData
          (exchange (loginRequest endpoint defaults link.userBrokerageData credentials)) := by
  have hlogin := login_of_resolved exchange credentials hname hresolve hcooldown
  by_cases hheaders : ∃ defaults, endpoint.defaultHeaders = .dict defaults
  case neg =>
    -- no mapping to build the headers from
    rw [authenticate_of_unpackable _ hvalid hheaders] at hlogin
    refine iff_of_false (not_loginDocumented_of_unexpected (by rw [hlogin]; rfl)) ?_
    rintro ⟨defaults, h, -⟩
    exact hheaders ⟨defaults, h⟩
  obtain ⟨defaults, hheaders⟩ := hheaders
  rw [exists_dict_and_iff hheaders]
  have hauth := @authenticate_of_validated py _ _ _ _ user exchange hvalid hheaders
  rcases loginSession_cases py link.userBrokerageData
      (exchange (loginRequest endpoint defaults link.userBrokerageData credentials)) with
    ⟨hdeclines, detail, cause, hraised⟩ | ⟨jwtToken, feedToken, hgrants, hgiven⟩ |
    ⟨hnot, hnone, text, hraised⟩
  · rw [hauth, hraised] at hlogin
    exact iff_of_true (.of_error hlogin (.inr (.inr (.inr rfl))) rfl rfl) (.inl hdeclines)
  · exact loginDocumented_iff_of_grants hname hresolve hcooldown hheaders hgrants
      (hauth.trans hgiven)
  · rw [hauth, hraised] at hlogin
    refine iff_of_false (not_loginDocumented_of_unexpected (by rw [hlogin]; rfl)) ?_
    rintro (hdeclines | ⟨⟨jwtToken, feedToken, hgrants, -⟩, -⟩)
    · exact hnot hdeclines
    · exact hnone _ _ hgrants

end

theorem loginHandled_iff_of_resolved {py : Python} {p : Platform} {w : World} {user : User}
    {name : String} {exchange : BrokerRequest → Exchange} {credentials : Dict}
    {link : UserBrokerageLink} {endpoint : BrokerageEndpoint}
    (hresolve : resolveLogin py p w user name = .ok (link, endpoint))
    (hcooldown : Expiring.get w.cooldowns w.now (cooldownKey user.id name) = none)
    (hvalid : validateCredentials link.userBrokerageData credentials = .ok ()) :
    LoginHandled py p w user name exchange credentials ↔
      ∃ defaults, endpoint.defaultHeaders = .dict defaults ∧
        AnswerHandled w link.userBrokerageData
          (exchange (loginRequest endpoint defaults link.userBrokerageData credentials)) := by
  constructor
  · exact fun h => h link endpoint hresolve hcooldown hvalid
  · intro h link' endpoint' hresolve' _ _
    obtain ⟨rfl, rfl⟩ := Prod.mk.inj (Except.ok.inj (hresolve.symm.trans hresolve'))
    exact h

/-- **Broker logins.**  A login with a registered brokerage name answers and caches as documented
exactly if it is turned down early or handles its answer. -/
theorem loginDocumented_iff_loginHandled (py : Python) (p : Platform) (w : World) (user : User)
    (name : String) (exchange : BrokerRequest → Exchange) (credentials : Dict)
    (hname : name ∈ brokerStrategies) :
    LoginDocumented py p w user name exchange credentials ↔
      LoginHandled py p w user name exchange credentials := by
  cases hresolve : resolveLogin py p w user name with
  | error e =>
      have hlogin : login py p w user name exchange credentials = (loginError e, w) := by
        simp only [login, brokerLogin, authenticateAndCache, hresolve, if_neg (not_not.mpr hname)]
      refine iff_of_true (.of_error hlogin (.inl (resolveLogin_eq_error hresolve)) rfl rfl) ?_
      intro link endpoint hresolve'
      rw [hresolve] at hresolve'
      cases hresolve'
  | ok r =>
      obtain ⟨link, endpoint⟩ := r
      cases hcooldown : Expiring.get w.cooldowns w.now (cooldownKey user.id name) with
      | some _ =>
          refine iff_of_true (.of_error (v := w) (r := (login py p w user name exchange credentials).1)
            ?_ (.inr (.inr (.inl ?_))) rfl rfl) ?_
          · simp only [login, brokerLogin, authenticateAndCache, hresolve, enforceLoginCooldown,
              hcooldown, if_neg (not_not.mpr hname)]
          · simp only [login, brokerLogin, authenticateAndCache, hresolve, enforceLoginCooldown,
              hcooldown, if_neg (not_not.mpr hname), loginError]
          · intro _ _ _ hnone
            rw [hcooldown] at hnone
            cases hnone
      | none =>
          have hlogin := login_of_resolved exchange credentials hname hresolve hcooldown
          rcases checks_validateCredentials link.userBrokerageData credentials with
            hvalid | ⟨detail, hvalid⟩
          case inr =>
              have hauth : (authenticate py endpoint (fun r => (exchange r).outcome) user
                  link.userBrokerageData credentials).1 = .error (invalidBrokerCredentials detail) := by
                unfold authenticate
                rw [hvalid]
              rw [hauth] at hlogin
              refine iff_of_true (.of_error hlogin (.inr (.inl rfl)) rfl rfl) ?_
              intro link' endpoint' hresolve' _ hvalid'
              obtain ⟨rfl, rfl⟩ := Prod.mk.inj (Except.ok.inj (hresolve.symm.trans hresolve'))
              rw [hvalid] at hvalid'
              cases hvalid'
          case inl =>
              rw [loginHandled_iff_of_resolved hresolve hcooldown hvalid]
              exact loginDocumented_iff_of_validated hname hresolve hcooldown hvalid

theorem loginDocumented_iff_loginHandled_sample :
    LoginDocumented .default angelOne linkedTrader trader "angel_one" (fun _ => .httpError "timed out")
        (secretsWith "hunter2") ↔
      LoginHandled .default angelOne linkedTrader trader "angel_one" (fun _ => .httpError "timed out")
        (secretsWith "hunter2") :=
  loginDocumented_iff_loginHandled .default angelOne linkedTrader trader "angel_one" _ _ (by decide)

/-- The broker answers 200 with a page that is not JSON. -/
theorem not_loginDocumented_sample :
    ¬ LoginDocumented .default angelOne linkedTrader trader "angel_one"
      (fun _ => .response 200 "" none) (secretsWith "hunter2") := by
  intro h
  have hstatus : (login .default angelOne linkedTrader trader "angel_one"
      (fun _ => .response 200 "" none) (secretsWith "hunter2")).1.status = 500 := by
    decide +kernel
  have hdocumented := h.status
  rw [hstatus] at hdocumented
  simp at hdocumented

/-! ## 4. Logouts -/

/-- The request with which `_call_broker_logout` logs out. -/
def logoutRequest (endpoint : BrokerageEndpoint) (defaults linkData : Dict)
    (cachedSession : CachedSession) : BrokerRequest where
  httpMethod := endpoint.httpMethod
  url := endpoint.url
  payloadType := endpoint.payloadType
  headers := (defaults.set "Authorization" (.str ("Bearer " ++ cachedSession.jwtToken))).set
    "X-PrivateKey" (item linkData "api_key")
  body := [("clientcode", item linkData "client_id")]

section

variable (py : Python) (p : Platform) (w : World) (user : User) (name : String)
  (exchange : BrokerRequest → Exchange)

/-- `POST /brokerage/logout/`, with what comes of the requests to the broker. -/
def disconnect : Response × World := brokerLogout py p w (fun r => (exchange r).outcome) user name

/-- 200 that says whether a session was cached, and none is cached afterwards. -/
structure LogoutDocumented : Prop where
  answered : ∃ message, (disconnect py p w user name exchange).1 =
    ⟨200, .logout name (w.session? user.id name).isSome message⟩
  cleared : (disconnect py p w user name exchange).2.session? user.id name = none

/-- There is no session, or no endpoint to log out at, or the stored fields are there and the headers
can be sent and the answer read. -/
def LogoutHandled (brokerage : Brokerage) (link : UserBrokerageLink) : Prop :=
  ∀ cachedSession endpoint, w.session? user.id name = some cachedSession →
    p.endpoint? brokerage "logout" = some endpoint →
      validateLogoutCredentials link.userBrokerageData cachedSession = .ok () ∧
        ∃ defaults, endpoint.defaultHeaders = .dict defaults ∧
          (exchange (logoutRequest endpoint defaults link.userBrokerageData cachedSession)).Readable

end

section

variable {py : Python} {p : Platform} {w : World} {user : User} {name : String}
  {exchange : BrokerRequest → Exchange} {brokerage : Brokerage} {link : UserBrokerageLink}
  {endpoint : BrokerageEndpoint} {linkData defaults : Dict} {cachedSession : CachedSession}

/-- What `logout_and_clear` catches. -/
def IsBrokerAPIError (e : Exn) : Prop := ∃ detail cause, e = .service .brokerAPI detail cause

theorem checkStatus_cases (py : Python) (entries : Dict) (rejected fallback : String) :
    checkStatus py entries rejected fallback = .ok () ∨
      ∃ e, checkStatus py entries rejected fallback = .error e ∧ IsBrokerAPIError e := by
  unfold checkStatus
  split
  · exact .inl rfl
  · exact .inr ⟨_, rfl, _, _, rfl⟩

/-- What a logout makes of a JSON answer. -/
def checkLogout (py : Python) : Json → Except Exn Unit
  | .dict entries =>
      checkStatus py entries "Angel One rejected the logout: " "Angel One logout failed."
  | _ => .error (.other "AttributeError")

/-- A logout that reads its answer succeeds or raises what is caught; another raises past it. -/
theorem callBrokerLogout_cases (py : Python) (endpoint : BrokerageEndpoint)
    (exchange : BrokerRequest → Exchange) (linkData : Dict) (cachedSession : CachedSession)
    (hheaders : endpoint.defaultHeaders = .dict defaults) :
    let x := exchange (logoutRequest endpoint defaults linkData cachedSession)
    let outcome := callBrokerLogout py endpoint (fun r => (exchange r).outcome) linkData cachedSession
    (x.Readable ∧ (outcome = .ok () ∨ ∃ e, outcome = .error e ∧ IsBrokerAPIError e)) ∨
      (¬ x.Readable ∧ ∃ text, outcome = .error (.other text)) := by
  intro x outcome
  have houtcome : outcome = x.outcome.result.bind (checkLogout py) := by
    unfold outcome callBrokerLogout
    rw [hheaders]
    rfl
  rw [houtcome]
  clear_value x
  cases x with
  | httpError text => exact .inl ⟨trivial, .inr ⟨_, rfl, _, _, rfl⟩⟩
  | raises text => exact .inr ⟨id, text, rfl⟩
  | response status statusError json? =>
      by_cases hsuccess : Exchange.IsSuccess status
      case neg =>
        refine .inl ⟨.inl hsuccess, .inr ?_⟩
        simp only [Exchange.outcome, if_neg hsuccess]
        exact ⟨_, rfl, _, _, rfl⟩
      by_cases hdict : ∃ entries, json? = some (.dict entries)
      · obtain ⟨entries, rfl⟩ := hdict
        simp only [Exchange.outcome, if_pos hsuccess]
        exact .inl ⟨.inr ⟨entries, rfl⟩, checkStatus_cases py entries _ _⟩
      · refine .inr ⟨fun hreadable => hreadable.elim (fun h => h hsuccess) hdict, ?_⟩
        simp only [Exchange.outcome, if_pos hsuccess]
        cases json? with
        | none => exact ⟨_, rfl⟩
        | some json =>
            cases json with
            | dict entries => exact absurd ⟨entries, rfl⟩ hdict
            | _ => exact ⟨_, rfl⟩

/-- The broker's side of a logout, with an endpoint to log out at. -/
theorem brokerSideLogout_cases (py : Python) (exchange : BrokerRequest → Exchange) (user : User)
    (brokerage : Brokerage) (link : UserBrokerageLink) (cachedSession : CachedSession)
    (hendpoint : p.endpoint? brokerage "logout" = some endpoint) :
    let handled := validateLogoutCredentials link.userBrokerageData cachedSession = .ok () ∧
      ∃ defaults, endpoint.defaultHeaders = .dict defaults ∧
        (exchange (logoutRequest endpoint defaults link.userBrokerageData cachedSession)).Readable
    let outcome :=
      (brokerSideLogout py p (fun r => (exchange r).outcome) user brokerage link cachedSession).1
    (handled ∧ outcome = .ok ()) ∨
      (¬ handled ∧ ∃ e, outcome = .error e ∧ logoutError e = unexpectedError) := by
  intro handled outcome
  rcases checks_validateLogoutCredentials link.userBrokerageData cachedSession with
    hvalid | ⟨detail, hinvalid⟩
  case inr =>
    refine .inr ⟨fun h => ?_, invalidBrokerCredentials detail, ?_, rfl⟩
    · cases hinvalid.symm.trans h.1
    · simp only [outcome, brokerSideLogout, hendpoint, logout, hinvalid, bind, Except.bind]
      rfl
  by_cases hheaders : ∃ defaults, endpoint.defaultHeaders = .dict defaults
  case neg =>
    have hunpack := unpack_of_not_dict hheaders
    refine .inr ⟨fun h => hheaders ⟨h.2.choose, h.2.choose_spec.1⟩, .other "TypeError", ?_, rfl⟩
    simp only [outcome, brokerSideLogout, hendpoint, logout, hvalid, callBrokerLogout, hunpack, bind,
      Except.bind]
  obtain ⟨defaults, hheaders⟩ := hheaders
  -- the `except` clause takes a `BrokerAPIError`, the `finally` clause comes in any case
  rcases callBrokerLogout_cases py endpoint exchange link.userBrokerageData cachedSession hheaders with
    ⟨hreadable, hok | ⟨e, hraised, detail, cause, rfl⟩⟩ | ⟨hunreadable, text, hraised⟩
  · refine .inl ⟨⟨hvalid, defaults, hheaders, hreadable⟩, ?_⟩
    simp only [outcome, brokerSideLogout, hendpoint, logout, hvalid, hok, bind, Except.bind]
  · refine .inl ⟨⟨hvalid, defaults, hheaders, hreadable⟩, ?_⟩
    simp only [outcome, brokerSideLogout, hendpoint, logout, hvalid, hraised, bind, Except.bind]
  · refine .inr ⟨fun h => hunreadable ((exists_dict_and_iff hheaders).mp h.2), .other text, ?_, rfl⟩
    simp only [outcome, brokerSideLogout, hendpoint, logout, hvalid, hraised, bind, Except.bind]

/-- A logout without a session. -/
theorem disconnect_of_not_cached (exchange : BrokerRequest → Exchange) (hname : name ∈ brokerStrategies)
    (hlookup : getBrokerageAndLink py p w user name = .ok (brokerage, link))
    (hcached : w.session? user.id name = none) :
    disconnect py p w user name exchange =
      (⟨200, .logout name false "Already logged out."⟩, w) := by
  have hclass : getStrategyClass py name = .ok () := if_pos hname
  simp only [disconnect, brokerLogout, logoutAndClear, hclass, hlookup, hcached,
    if_neg (not_not.mpr hname)]
  rfl

/-- A logout with one clears it and answers by how the broker's side has ended. -/
theorem disconnect_of_cached (exchange : BrokerRequest → Exchange) (hname : name ∈ brokerStrategies)
    (hlookup : getBrokerageAndLink py p w user name = .ok (brokerage, link))
    (hcached : w.session? user.id name = some cachedSession) :
    ∃ response, disconnect py p w user name exchange =
        (response, { w with sessions := BrokerSessionCache.delete w.sessions user.id name }) ∧
      ((brokerSideLogout py p (fun r => (exchange r).outcome) user brokerage link
          cachedSession).1 = .ok () → response = ⟨200, .logout name true "Logged out."⟩) ∧
      ∀ e, (brokerSideLogout py p (fun r => (exchange r).outcome) user brokerage link
        cachedSession).1 = .error e → response = logoutError e := by
  have hclass : getStrategyClass py name = .ok () := if_pos hname
  simp only [disconnect, brokerLogout, logoutAndClear, hclass, hlookup, hcached,
    if_neg (not_not.mpr hname)]
  rcases brokerSideLogout py p (fun r => (exchange r).outcome) user brokerage link
    cachedSession with ⟨e | _, records⟩
  · exact ⟨_, rfl, nofun, fun e' he => congrArg logoutError (Except.error.inj he)⟩
  · exact ⟨_, rfl, fun _ => rfl, nofun⟩

theorem logoutHandled_iff_of_endpoint (hcached : w.session? user.id name = some cachedSession)
    (hendpoint : p.endpoint? brokerage "logout" = some endpoint) :
    LogoutHandled p w user name exchange brokerage link ↔
      validateLogoutCredentials link.userBrokerageData cachedSession = .ok () ∧
        ∃ defaults, endpoint.defaultHeaders = .dict defaults ∧
          (exchange (logoutRequest endpoint defaults link.userBrokerageData
            cachedSession)).Readable := by
  constructor
  · exact fun h => h cachedSession endpoint hcached hendpoint
  · intro h cachedSession' endpoint' hcached' hendpoint'
    obtain rfl := Option.some.inj (hcached.symm.trans hcached')
    obtain rfl := Option.some.inj (hendpoint.symm.trans hendpoint')
    exact h

end

/-- **Broker logouts.**  A user with a link to an active brokerage is answered as documented exactly if
the logout is handled; the session is cleared in any case. -/
theorem logoutDocumented_iff_logoutHandled (py : Python) (p : Platform) (w : World) (user : User)
    (name : String) (exchange : BrokerRequest → Exchange) {brokerage : Brokerage}
    {link : UserBrokerageLink} (hname : name ∈ brokerStrategies)
    (hactive : p.active? name = some brokerage) (hlink : w.link? user.id brokerage = some link) :
    (LogoutDocumented py p w user name exchange ↔ LogoutHandled p w user name exchange brokerage link) ∧
      (disconnect py p w user name exchange).2.session? user.id name = none := by
  have hlookup : getBrokerageAndLink py p w user name = .ok (brokerage, link) := by
    simp only [getBrokerageAndLink, hactive, hlink]
  cases hcached : w.session? user.id name with
  | none =>
      have hanswer := disconnect_of_not_cached exchange hname hlookup hcached
      have hcleared : (disconnect py p w user name exchange).2.session? user.id name = none := by
        rw [hanswer]
        exact hcached
      refine ⟨iff_of_true ⟨⟨_, by rw [hanswer, hcached]; rfl⟩, hcleared⟩ ?_, hcleared⟩
      intro cachedSession endpoint h
      rw [hcached] at h
      cases h
  | some cachedSession =>
      obtain ⟨response, hanswer, hok, herror⟩ := disconnect_of_cached exchange hname hlookup hcached
      have hcleared : (disconnect py p w user name exchange).2.session? user.id name = none := by
        rw [hanswer]
        exact Expiring.get_delete_self w.sessions (sessionKey user.id name) w.now
      have hdocumented : (brokerSideLogout py p (fun r => (exchange r).outcome) user brokerage link
          cachedSession).1 = .ok () → LogoutDocumented py p w user name exchange := by
        intro hreturned
        refine ⟨⟨"Logged out.", ?_⟩, hcleared⟩
        rw [hanswer, hok hreturned, hcached]
        rfl
      refine ⟨?_, hcleared⟩
      cases hendpoint : p.endpoint? brokerage "logout" with
      | none =>
          refine iff_of_true (hdocumented ?_) ?_
          · simp only [brokerSideLogout, hendpoint]
          · intro _ endpoint _ h
            rw [hendpoint] at h
            cases h
      | some endpoint =>
          rw [logoutHandled_iff_of_endpoint hcached hendpoint]
          rcases brokerSideLogout_cases py exchange user brokerage link cachedSession hendpoint with
            ⟨hread, hreturned⟩ | ⟨hnot, e, hraised, hunexpected⟩
          · exact iff_of_true (hdocumented hreturned) hread
          · refine iff_of_false ?_ hnot
            rintro ⟨⟨message, hanswered⟩, -⟩
            rw [hanswer, herror e hraised, hunexpected] at hanswered
            simp [unexpectedError] at hanswered

/-- The trader's session, and an endpoint to log out at. -/
def disconnectable : Platform :=
  { angelOne with
    endpoints := [⟨⟨1, "angel_one", true⟩, "logout", "", "POST", "JSON", .dict []⟩] }

def connectedTrader : World :=
  { linkedTrader with
    sessions := Expiring.empty.set (sessionKey 1 "angel_one") ⟨"jwt", "feed", "C1"⟩ second }

theorem logoutDocumented_iff_logoutHandled_sample :
    ∃ brokerage link,
      (LogoutDocumented .default disconnectable connectedTrader trader "angel_one"
          (fun _ => .httpError "timed out") ↔
        LogoutHandled disconnectable connectedTrader trader "angel_one"
          (fun _ => .httpError "timed out") brokerage link) ∧
      (disconnect .default disconnectable connectedTrader trader "angel_one"
        (fun _ => .httpError "timed out")).2.session? 1 "angel_one" = none :=
  ⟨_, _, logoutDocumented_iff_logoutHandled .default disconnectable connectedTrader trader "angel_one"
    _ (by decide) rfl rfl⟩

/-- The broker answers 200 with a page that is not JSON. -/
theorem not_logoutDocumented_sample :
    ¬ LogoutDocumented .default disconnectable connectedTrader trader "angel_one"
      (fun _ => .response 200 "" none) := by
  rintro ⟨⟨message, hanswered⟩, -⟩
  have hstatus : (disconnect .default disconnectable connectedTrader trader "angel_one"
      (fun _ => .response 200 "" none)).1.status = 500 := by
    decide +kernel
  rw [hanswered] at hstatus
  cases hstatus

end DjasktTrading.Brokerage
