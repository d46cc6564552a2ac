import DjasktTrading.Ledger.Models

/-!
# Brokerage models — brokers, links, and the values they carry

`user_brokerage_data`, login credentials and broker responses are parsed JSON.  The operator's rows,
brokerages and endpoints, do not change here; a link holds the row of its brokerage.
-/

set_option linter.dupNamespace false

namespace DjasktTrading.Brokerage

/-! ## 1. JSON values -/

/-- A parsed JSON value; a float stands as its `repr`, and so does a text that holds half of a
surrogate pair, as `json.loads` makes it of an escape: no `String` is that text. -/
inductive Json where
  | null
  | bool (b : Bool)
  | int (n : ℤ)
  | float (text : String)
  | str (s : String)
  | surrogates (text : String)
  | list (items : List Json)
  | dict (entries : List (String × Json))

abbrev Dict := List (String × Json)

namespace Json

/-- `bool(value)` -/
def truthy : Json → Bool
  | .null => false
  | .bool b => b
  | .int n => n ≠ 0
  | .float text => text ≠ "0.0" ∧ text ≠ "-0.0"
  | .str s => s ≠ ""
  | .surrogates _ => true
  | .list items => !items.isEmpty
  | .dict entries => !entries.isEmpty

mutual

/-- `repr(value)` -/
def repr (py : Python) : Json → String
  | .null => "None"
  | .bool b => if b then "True" else "False"
  | .int n => toString n
  | .float text => text
  | .str s => py.repr s
  | .surrogates text => text
  | .list items => "[" ++ ", ".intercalate (reprItems py items) ++ "]"
  | .dict entries => "\x7b" ++ ", ".intercalate (reprEntries py entries) ++ "\x7d"

def reprItems (py : Python) : List Json → List String
  | [] => []
  | item :: items => repr py item :: reprItems py items

def reprEntries (py : Python) : List (String × Json) → List String
  | [] => []
  | (key, value) :: entries => (py.repr key ++ ": " ++ repr py value) :: reprEntries py entries

end

/-- `str(value)` -/
def text (py : Python) : Json → String
  | .str s => s
  | value => value.repr py

end Json

/-- What `json.loads` raises. -/
inductive LoadsExn where
  | jsonDecodeError
  | other

namespace Dict

/-- `d.get(key)` -/
def get? (d : Dict) (key : String) : Option Json := d.lookup key

/-- `not d.get(key)` -/
def lacks (d : Dict) (key : String) : Bool :=
  match d.get? key with
  | some value => !value.truthy
  | none => true

/-- `{**d, key: value}` -/
def set (d : Dict) (key : String) (value : Json) : Dict :=
  if d.any (·.1 = key) then d.map fun entry => if entry.1 = key then (key, value) else entry
  else d ++ [(key, value)]

def repr (py : Python) (d : Dict) : String := (Json.dict d).repr py

end Dict

/-! ## 2. Exceptions -/

/-- The subclasses of `BrokerageServiceError`. -/
inductive BrokerageServiceError where
  | unknownBroker
  | noBrokerageLink
  | brokerAPI
  | invalidBrokerCredentials
  | brokerRateLimited
deriving DecidableEq, Repr

/-- What a service call can raise: a domain error with its message and what it was raised from, or an
exception that the brokerage app does not define. -/
inductive Exn where
  | service (kind : BrokerageServiceError) (detail : String) (cause : Option String)
  | other (text : String)
deriving DecidableEq

/-! ## 3. Rows -/

structure Brokerage where
  id : Uuid
  name : String
  isActive : Bool
deriving DecidableEq

structure BrokerageEndpoint where
  brokerage : Brokerage
  purpose : String
  url : String
  httpMethod : String
  payloadType : String
  defaultHeaders : Json

structure User where
  id : UserId
  /-- `str(user)` -/
  text : String
deriving DecidableEq

structure UserBrokerageLink where
  id : Uuid
  user : UserId
  brokerage : Brokerage
  userBrokerageData : Dict

/-- The operator's rows, under their unique constraints. -/
structure Platform where
  brokerages : List Brokerage
  endpoints : List BrokerageEndpoint
  ids_nodup : (brokerages.map Brokerage.id).Nodup
  names_nodup : (brokerages.map Brokerage.name).Nodup

namespace Platform

/-- `Brokerage.objects.get(name=..., is_active=True)` -/
def active? (p : Platform) (name : String) : Option Brokerage :=
  p.brokerages.find? fun b => b.name = name ∧ b.isActive

/-- `BrokerageEndpoint.objects.get(brokerage=..., purpose=...)` -/
def endpoint? (p : Platform) (brokerage : Brokerage) (purpose : String) :
    Option BrokerageEndpoint :=
  p.endpoints.find? fun e => e.brokerage.id = brokerage.id ∧ e.purpose = purpose

variable {p : Platform} {b b' : Brokerage} {name : String}

theorem active?_eq_some (h : p.active? name = some b) : b ∈ p.brokerages ∧ b.name = name := by
  have hname := List.find?_some h
  simp only [Bool.decide_and, Bool.and_eq_true, decide_eq_true_eq] at hname
  exact ⟨List.mem_of_find?_eq_some h, hname.1⟩

theorem eq_of_id (hb : b ∈ p.brokerages) (hb' : b' ∈ p.brokerages) (h : b.id = b'.id) : b = b' :=
  List.inj_on_of_nodup_map p.ids_nodup hb hb' h

theorem eq_of_name (hb : b ∈ p.brokerages) (hb' : b' ∈ p.brokerages) (h : b.name = b'.name) :
    b = b' :=
  List.inj_on_of_nodup_map p.names_nodup hb hb' h

end Platform

end DjasktTrading.Brokerage
