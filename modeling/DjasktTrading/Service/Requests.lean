import DjasktTrading.Accounts.Lineage
import DjasktTrading.Ledger.History

/-!
# Requests — the accounts in front of the ledger

One server, with its token endpoints and the two mutating actions of the ledger.  A request to these
passes `DenylistCheckingJWTAuth` first, then has its body read and its caller's portfolio looked up,
and only then becomes a submission.  The steps of all requests interleave: those of the check, those
of the token endpoints, and those of the submissions.
-/

open Reasoning

namespace DjasktTrading.Service

open Accounts Accounts.Clocked Accounts.Clocked.Rotation

/-! ## 1. The world -/

/-- A request to `submit_trade` or `transfer_cash`, with the token it bears. -/
structure Incoming where
  bearer : Token
  mutation : Ledger.Mutation
  cache : Ledger.PriceCache
  fresh : Ledger.Fresh

/-- How far a request has come. -/
inductive Passage where
  | checking (check : BearerCheck)
  | rejected (response : Accounts.Response)
  | authenticated
  | refused (response : Ledger.Response)
  /-- it is submission `i` of the ledger -/
  | submitted (i : ℕ)

structure Slot where
  incoming : Incoming
  passage : Passage

structure World (τ : Type) where
  accounts : Rotation.World τ
  slots : List Slot
  ledger : Ledger.World

variable {τ : Type} [LinearOrder τ] (c : Clock τ)

def World.initial (db : Ledger) : World τ where
  accounts := .initial c
  slots := []
  ledger := .initial db

inductive Event (τ : Type) where
  | accounts (e : Rotation.Event τ)
  | receive (incoming : Incoming)
  /-- the next step of `validate_and_get_user` -/
  | check (k : ℕ)
  | resolve (k : ℕ)
  | ledger (e : Ledger.Event)

def Incoming.user (incoming : Incoming) : UserId := incoming.bearer.userId

def Incoming.context (incoming : Incoming) : Ledger.Context where
  user := incoming.user
  cache := incoming.cache
  fresh := incoming.fresh
  channel := .absent

/-- The next step of `DenylistCheckingJWTAuth.authenticate`. -/
def authenticate (accounts : Rotation.World τ) (incoming : Incoming) (check : BearerCheck) : Passage :=
  check.next c accounts.server accounts.clock incoming.bearer .checking .authenticated .rejected

def step (py : Python) (w : World τ) : Event τ → Option (World τ)
  | .accounts e => (ownStep c w.accounts e).map fun accounts => { w with accounts }
  | .receive incoming => some { w with slots := w.slots ++ [⟨incoming, .checking .decode⟩] }
  | .check k =>
      match w.slots[k]? with
      | some ⟨incoming, .checking check⟩ => some { w with
          slots := w.slots.set k ⟨incoming, authenticate c w.accounts incoming check⟩ }
      | _ => none
  | .resolve k =>
      match w.slots[k]? with
      | some ⟨incoming, .authenticated⟩ =>
          match incoming.mutation.call? py incoming.context w.ledger.db with
          | none => some { w with
              slots := w.slots.set k ⟨incoming, .refused (incoming.mutation.refusal py)⟩ }
          | some call => (Ledger.step py w.ledger (.arrive call)).map fun ledger => { w with
              slots := w.slots.set k ⟨incoming, .submitted w.ledger.requests.length⟩
              ledger }
      | _ => none
  -- a submission comes from a request
  | .ledger (.arrive _) => none
  | .ledger e => (Ledger.step py w.ledger e).map fun ledger => { w with ledger }

/-- Everything a step can do. -/
inductive Fires (py : Python) (w : World τ) : Event τ → World τ → Prop where
  | accounts {e : Rotation.Event τ} {accounts : Rotation.World τ}
      (stepped : ownStep c w.accounts e = some accounts) :
      Fires py w (.accounts e) { w with accounts }
  | receive {incoming : Incoming} :
      Fires py w (.receive incoming) { w with
        slots := w.slots ++ [⟨incoming, .checking .decode⟩] }
  | check {k : ℕ} {incoming : Incoming} {check : BearerCheck}
      (here : w.slots[k]? = some ⟨incoming, .checking check⟩) :
      Fires py w (.check k) { w with
        slots := w.slots.set k ⟨incoming, authenticate c w.accounts incoming check⟩ }
  | refuse {k : ℕ} {incoming : Incoming} (here : w.slots[k]? = some ⟨incoming, .authenticated⟩) :
      Fires py w (.resolve k) { w with
        slots := w.slots.set k ⟨incoming, .refused (incoming.mutation.refusal py)⟩ }
  | submit {k : ℕ} {incoming : Incoming} {call : Ledger.Call} {ledger : Ledger.World}
      (here : w.slots[k]? = some ⟨incoming, .authenticated⟩)
      (made : incoming.mutation.call? py incoming.context w.ledger.db = some call)
      (arrived : Ledger.step py w.ledger (.arrive call) = some ledger) :
      Fires py w (.resolve k) { w with
        slots := w.slots.set k ⟨incoming, .submitted w.ledger.requests.length⟩
        ledger }
  | ledger {e : Ledger.Event} {ledger : Ledger.World} (own : ∀ call, e ≠ .arrive call)
      (stepped : Ledger.step py w.ledger e = some ledger) :
      Fires py w (.ledger e) { w with ledger }

variable {c} {py : Python} {w w' : World τ} {e : Event τ} {es : List (Event τ)}

theorem step_fires (h : step c py w e = some w') : Fires c py w e w' := by
  cases e with
  | accounts e =>
      obtain ⟨accounts, haccounts, rfl⟩ := Option.map_eq_some_iff.mp h
      exact .accounts haccounts
  | receive incoming =>
      obtain rfl := Option.some.inj h
      exact .receive
  | check k =>
      simp only [step] at h
      split at h
      · rename_i incoming check here
        obtain rfl := Option.some.inj h
        exact .check here
      · cases h
  | resolve k =>
      simp only [step] at h
      split at h
      · rename_i incoming here
        split at h
        · obtain rfl := Option.some.inj h
          exact .refuse here
        · rename_i call hcall
          obtain ⟨ledger, hledger, rfl⟩ := Option.map_eq_some_iff.mp h
          exact .submit here hcall hledger
      · cases h
  | ledger e =>
      by_cases harrive : ∃ call, e = .arrive call
      · obtain ⟨call, rfl⟩ := harrive
        cases h
      · have hown : ∀ call, e ≠ .arrive call := fun call he => harrive ⟨call, he⟩
        have hstep : (Ledger.step py w.ledger e).map (fun ledger => { w with ledger }) = some w' := by
          cases e with
          | arrive call => exact absurd rfl (hown call)
          | _ => exact h
        obtain ⟨ledger, hledger, rfl⟩ := Option.map_eq_some_iff.mp hstep
        exact .ledger hown hledger

/-! ## 2. The two parties -/

theorem run_ledger (hrun : Run (step c py) w es w') :
    ∃ fs, Run (Ledger.step py) w.ledger fs w'.ledger := by
  refine hrun.project World.ledger fun hstep => ?_
  cases step_fires hstep with
  | submit here made arrived => exact .inr ⟨_, arrived⟩
  | ledger own stepped => exact .inr ⟨_, stepped⟩
  | _ => exact .inl rfl

end DjasktTrading.Service
