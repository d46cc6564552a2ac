import DjasktTrading.Brokerage.SessionCache

/-!
# Strategies — how a broker is asked, and what is logged of it

The template methods of `BaseBrokerAuthStrategy` with the steps of `AngelOneAuthStrategy`, the one
strategy that is registered.  A method returns what it raises or gives, and the records it logs.  The
broker is a function of the request that is sent to it.
-/

namespace DjasktTrading.Brokerage

/-! ## 1. Log records -/

inductive Level where
  | info
  | warning
deriving DecidableEq

/-- A record as a handler gets it.  The traceback that `exc_info` attaches is that of the exception:
where a given exception is raised from does not vary. -/
structure LogRecord where
  level : Level
  message : String
  extra : List (String × String)
  excInfo : Option Exn
deriving DecidableEq

/-! ## 2. Requests -/

/-- What `_dispatch_request` sends. -/
structure BrokerRequest where
  httpMethod : String
  url : String
  payloadType : String
  headers : Dict
  body : Dict

/-- What comes of it: an `httpx.HTTPError`, another exception, or the parsed body. -/
inductive HttpOutcome where
  | httpError (text : String)
  | raises (text : String)
  | body (json : Json)

abbrev Broker := BrokerRequest → HttpOutcome

def brokerAPIError (detail : String) : Exn := .service .brokerAPI detail none

def invalidBrokerCredentials (detail : String) : Exn :=
  .service .invalidBrokerCredentials detail none

/-- `_dispatch_request` -/
def dispatchRequest (endpoint : BrokerageEndpoint) (broker : Broker) (headers body : Dict) :
    Except Exn Json :=
  let request : BrokerRequest := {
    httpMethod := endpoint.httpMethod
    url := endpoint.url
    payloadType := endpoint.payloadType
    headers
    body }
  match broker request with
  | .httpError text => .error (.service .brokerAPI ("Broker request failed: " ++ text) (some text))
  | .raises text => .error (.other text)
  | .body json => .ok json

/-! ## 3. Angel One -/

namespace AngelOneAuthStrategy

/-- The fields a dictionary has to have, each with the message where it lacks one. -/
def require (d : Dict) (key detail : String) : Except Exn Unit :=
  if Dict.lacks d key then .error (invalidBrokerCredentials detail) else .ok ()

/-- `_validate_credentials` -/
def validateCredentials (linkData loginSecrets : Dict) : Except Exn Unit := do
  require linkData "client_id" "Angel One link is missing a client_id."
  require linkData "api_key" "Angel One link is missing an api_key."
  require loginSecrets "password" "Angel One login requires a password."
  require loginSecrets "totp" "Angel One login requires a totp."

/-- `d[key]` -/
def item (d : Dict) (key : String) : Json := (d.get? key).getD .null

/-- `**value` in a dictionary display. -/
def unpack : Json → Except Exn Dict
  | .dict entries => .ok entries
  | _ => .error (.other "TypeError")

/-- `_call_broker_api` -/
def callBrokerApi (endpoint : BrokerageEndpoint) (broker : Broker) (linkData loginSecrets : Dict) :
    Except Exn Json := do
  let defaults ← unpack endpoint.defaultHeaders
  dispatchRequest endpoint broker (defaults.set "X-PrivateKey" (item linkData "api_key"))
    [("clientcode", item linkData "client_id"), ("password", item loginSecrets "password"),
      ("totp", item loginSecrets "totp"), ("state", .str "live")]

/-- `raw_response.get("status") is not True`, with what is raised then. -/
def checkStatus (py : Python) (rawResponse : Dict) (rejected fallback : String) : Except Exn Unit :=
  match rawResponse.get? "status" with
  | some (.bool true) => .ok ()
  | _ =>
      let message := match rawResponse.get? "message" with
        | some message => message.text py
        | none => fallback
      .error (brokerAPIError (rejected ++ message))

/-- `data["..."]` on what `data` is. -/
def dataField (data : Json) (key : String) : Except Exn Json :=
  match data with
  | .dict entries =>
      match Dict.get? entries key with
      | some value => .ok value
      | none =>
          let text := "'" ++ key ++ "'"
          .error (.service .brokerAPI ("Angel One response missing expected field: " ++ text)
            (some text))
  | _ => .error (.other "TypeError")

/-- `_parse_response` -/
def parseResponse (py : Python) (rawResponse : Json) (linkData : Dict) :
    Except Exn BrokerSession :=
  match rawResponse with
  | .dict entries => do
      checkStatus py entries "Angel One rejected the login: " "Angel One login failed."
      let data := match Dict.get? entries "data" with
        | some data => if data.truthy then data else .dict []
        | none => .dict []
      let jwtToken ← dataField data "jwtToken"
      let feedToken ← dataField data "feedToken"
      return { jwtToken, feedToken, clientId := item linkData "client_id" }
  | _ => .error (.other "AttributeError")

/-- `_validate_logout_credentials` -/
def validateLogoutCredentials (linkData : Dict) (cachedSession : CachedSession) :
    Except Exn Unit := do
  require linkData "client_id" "Angel One link is missing a client_id."
  require linkData "api_key" "Angel One link is missing an api_key."
  if cachedSession.jwtToken = "" then
    .error (invalidBrokerCredentials "No cached Angel One jwt_token to log out with.")
  else .ok ()

/-- `_call_broker_logout` -/
def callBrokerLogout (py : Python) (endpoint : BrokerageEndpoint) (broker : Broker)
    (linkData : Dict) (cachedSession : CachedSession) : Except Exn Unit := do
  let defaults ← unpack endpoint.defaultHeaders
  let rawResponse ← dispatchRequest endpoint broker
    ((defaults.set "Authorization" (.str ("Bearer " ++ cachedSession.jwtToken))).set
      "X-PrivateKey" (item linkData "api_key"))
    [("clientcode", item linkData "client_id")]
  match rawResponse with
  | .dict entries =>
      checkStatus py entries "Angel One rejected the logout: " "Angel One logout failed."
  | _ => .error (.other "AttributeError")

end AngelOneAuthStrategy

/-! ## 4. The template methods -/

/-- `BROKER_STRATEGIES` -/
def brokerStrategies : List String := ["angel_one"]

/-- `get_strategy_class` -/
def getStrategyClass (py : Python) (brokerageName : String) : Except Exn Unit :=
  if brokerageName ∈ brokerStrategies then .ok ()
  else .error (.service .unknownBroker
    ("No strategy registered for broker: " ++ py.repr brokerageName) (some (py.repr brokerageName)))

open AngelOneAuthStrategy

/-- `extra={"brokerage_name": ..., "user_id": ...}` -/
def brokerExtra (brokerageName : String) (userId : UserId) : List (String × String) :=
  [("brokerage_name", brokerageName), ("user_id", toString userId)]

/-- The record of a login whose fields are all there. -/
def validatedRecord (py : Python) (linkData loginSecrets : Dict) : LogRecord where
  level := .info
  message := "link_data=" ++ linkData.repr py ++ ", login_secrets=" ++ loginSecrets.repr py ++
    " validated for broker auth."
  extra := []
  excInfo := none

/-- The record of an `InvalidBrokerCredentialsError` or a `BrokerAPIError`; others pass by. -/
def failedRecords (endpoint : BrokerageEndpoint) (userId : UserId) (e : Exn) : List LogRecord :=
  let record : LogRecord := {
    level := .warning
    message := "Broker auth call failed."
    extra := brokerExtra endpoint.brokerage.name userId
    excInfo := some e }
  match e with
  | .service .invalidBrokerCredentials _ _ => [record]
  | .service .brokerAPI _ _ => [record]
  | _ => []

/-- `BaseBrokerAuthStrategy.authenticate` -/
def authenticate (py : Python) (endpoint : BrokerageEndpoint) (broker : Broker) (user : User)
    (linkData loginSecrets : Dict) : Except Exn BrokerSession × List LogRecord :=
  match validateCredentials linkData loginSecrets with
  | .error e => (.error e, failedRecords endpoint user.id e)
  | .ok _ =>
      let validated := validatedRecord py linkData loginSecrets
      match callBrokerApi endpoint broker linkData loginSecrets with
      | .error e => (.error e, validated :: failedRecords endpoint user.id e)
      | .ok rawResponse =>
          match parseResponse py rawResponse linkData with
          | .error e => (.error e, [validated])
          | .ok session => (.ok session, [validated, {
              level := .info
              message := "Broker auth succeeded."
              extra := brokerExtra endpoint.brokerage.name user.id
              excInfo := none }])

/-- `BaseBrokerAuthStrategy.logout` -/
def logout (py : Python) (endpoint : BrokerageEndpoint) (broker : Broker) (user : User)
    (linkData : Dict) (cachedSession : CachedSession) : Except Exn Unit × List LogRecord :=
  let outcome : Except Exn Unit := do
    validateLogoutCredentials linkData cachedSession
    callBrokerLogout py endpoint broker linkData cachedSession
  match outcome with
  | .error e => (.error e, [])
  | .ok _ => (.ok (), [{
      level := .info
      message := "Broker logout succeeded."
      extra := brokerExtra endpoint.brokerage.name user.id
      excInfo := none }])

end DjasktTrading.Brokerage
