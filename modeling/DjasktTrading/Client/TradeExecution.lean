import DjasktTrading.Ledger.Reporting

/-!
# Trade execution — the client of the two mutating actions

`useTradeExecution` and the two forms on one side, the server on the other, and between them a
network that loses, delays and repeats.  One submission is followed through all its executions: the
button pressed, pressed again after the form has reported a failure, and every retry of `mutationFn`
in between.
-/

open Reasoning

namespace DjasktTrading.Client

open Ledger

/-! ## 1. The hook -/

/-- The input of `tradeMutation` or `cashTransferMutation`. -/
inductive Input where
  | trade (ticker : String) (tradeType : TradeType) (quantity : String)
  | cashTransfer (direction : Direction) (amount : String)
deriving DecidableEq

/-- How the schemas read the text of a number. -/
abbrev ReadDecimal : Type := String → Except FieldError ℚ

namespace Input

/-- What `mutationFn` posts, under the key that it has just drawn. -/
def mutationFn (read : ReadDecimal) (key : Uuid) : Input → Mutation
  | .trade ticker tradeType quantity =>
      match read quantity with
      | .error e => .submitTrade (.malformed [e])
      | .ok quantity => .submitTrade (.parsed
          { ticker, tradeType := tradeType.value, quantity, idempotencyKey := key })
  | .cashTransfer direction amount =>
      match read amount with
      | .error e => .transferCash (.malformed [e])
      | .ok amount => .transferCash (.parsed
          { direction := direction.value, amount, idempotencyKey := key })

/-- Where the server keeps that key. -/
def key (key : Uuid) : Input → Key
  | .trade _ _ _ => .trade key
  | .cashTransfer _ _ => .cashTransaction key

end Input

/-- `status` of a mutation. -/
inductive Status where
  | idle
  | pending
  | success
  | error
deriving DecidableEq

/-! ## 2. Client, network and server -/

/-- The client's side of one submission, the answers on their way back, and the ledger. -/
structure Exchange where
  status : Status
  /-- the keys of the executions, oldest first -/
  attempts : List Uuid
  /-- the answers the server has given, with the execution they are for -/
  answers : List (ℕ × Response)
  db : Ledger

namespace Exchange

def initial (db : Ledger) : Exchange where
  status := .idle
  attempts := []
  answers := []
  db := db

/-- A key that is drawn is used nowhere yet. -/
def Unused (input : Input) (x : Exchange) (key : Uuid) : Prop :=
  key ∉ x.attempts ∧ input.key key ∉ keys x.db

instance (input : Input) (x : Exchange) (key : Uuid) : Decidable (x.Unused input key) :=
  instDecidableAnd

/-- Run `mutationFn`. -/
def execute (x : Exchange) (key : Uuid) : Exchange :=
  { x with status := .pending, attempts := x.attempts ++ [key] }

/-- The ledger entries of the submission. -/
def committed (input : Input) (x : Exchange) : List Key :=
  (keys x.db).filter (· ∈ x.attempts.map fun key => input.key key)

end Exchange

inductive Event where
  /-- the button is pressed; after an error this submits the same input again -/
  | press (key : Uuid)
  /-- the execution is lost or answered with an error, and `mutationFn` is retried -/
  | retry (key : Uuid)
  /-- the execution is lost or answered with an error, and the form reports it -/
  | fail
  /-- the answer to the last execution arrives, and is no error -/
  | succeed
  /-- a request reaches the server: once, late, again, or not at all -/
  | deliver (attempt : ℕ) (cache : PriceCache) (fresh : Fresh) (channel : ChannelLayer)
  /-- the server answers a request that is not of this submission -/
  | other (call : Call)

/-- One step.  Buttons are disabled while the mutation is pending. -/
def step (py : Python) (read : ReadDecimal) (user : UserId) (input : Input) (x : Exchange) :
    Event → Option Exchange
  | .press key =>
      if (x.status = .idle ∨ x.status = .error) ∧ x.Unused input key then some (x.execute key)
      else none
  | .retry key =>
      if x.status = .pending ∧ x.Unused input key then some (x.execute key) else none
  | .fail => if x.status = .pending then some { x with status := .error } else none
  | .succeed =>
      if x.status = .pending ∧
          ∃ a ∈ x.answers, a.1 + 1 = x.attempts.length ∧ a.2.status < 300 then
        some { x with status := .success }
      else none
  | .deliver attempt cache fresh channel =>
      match x.attempts[attempt]? with
      | none => none
      | some key =>
          let (response, db) := (input.mutationFn read key).handle py
            { user, cache, fresh, channel } x.db
          some { x with db, answers := x.answers ++ [(attempt, response)] }
  | .other call =>
      if call.request.key ∈ x.attempts.map fun key => input.key key then none
      else some { x with db := ((call.service py).run x.db).2 }

/-! ## 3. What a step commits -/

theorem Input.mutationFn_withKey (read : ReadDecimal) (key key' : Uuid) (input : Input) :
    (input.mutationFn read key').withKey key = input.mutationFn read key := by
  rcases input with ⟨ticker, tradeType, quantity⟩ | ⟨direction, amount⟩
  · simp only [mutationFn]
    rcases read quantity with e | quantity <;> rfl
  · simp only [mutationFn]
    rcases read amount with e | amount <;> rfl

theorem Input.mutationFn_key (read : ReadDecimal) (key key' : Uuid) (input : Input) :
    (input.mutationFn read key').key key = input.key key := by
  rcases input with ⟨ticker, tradeType, quantity⟩ | ⟨direction, amount⟩
  · simp only [mutationFn]
    rcases read quantity with e | quantity <;> rfl
  · simp only [mutationFn]
    rcases read amount with e | amount <;> rfl

section

variable {py : Python} {read : ReadDecimal} {input : Input} {ctx : Context} {db : Ledger}
  {key : Uuid}

/-- The call of an execution goes by the key that was drawn for it. -/
theorem key_of_call?_mutationFn {call : Call}
    (h : (input.mutationFn read key).call? py ctx db = some call) :
    call.request.key = input.key key := by
  have hsame : ((input.mutationFn read key).withKey key).call? py ctx db =
      ((input.mutationFn read key).call? py ctx db).map (Call.withKey key) :=
    Mutation.call?_withKey key _
  rw [input.mutationFn_withKey, h] at hsame
  rw [Option.some.inj hsame, Mutation.key_of_call? h, input.mutationFn_key]

/-- What is accepted was not known under its key. -/
theorem key_notMem_of_accepted (h : (input.mutationFn read key).Accepted py ctx db) :
    input.key key ∉ keys db := by
  obtain ⟨call, job, hcall, hjob, ⟨c⟩⟩ := h
  have hfree := c.key_free
  rwa [(Call.job_eq_ok hjob).2.2, key_of_call?_mutationFn hcall] at hfree

theorem keys_of_accepted (h : (input.mutationFn read key).Accepted py ctx db) :
    List.Perm (keys ((input.mutationFn read key).handle py ctx db).2) (keys db ++ [input.key key]) := by
  obtain ⟨call, job, hcall, hjob, ⟨c⟩⟩ := h
  rw [Mutation.handle_of_call?_eq_some hcall]
  dsimp only
  rw [(submit_cases py ctx.channel call db).1, c.service_eq hjob, ← key_of_call?_mutationFn hcall,
    ← (Call.job_eq_ok hjob).2.2]
  exact c.keys_after

end

namespace Exchange

variable {py : Python} {read : ReadDecimal} {user : UserId} {input : Input} {x : Exchange}

/-- Drawing a new key commits nothing. -/
theorem committed_execute {key : Uuid} (h : x.Unused input key) :
    (x.execute key).committed input = x.committed input := by
  apply List.filter_congr
  intro k hk
  have hne : k ≠ input.key key := fun heq => h.2 (heq ▸ hk)
  simp [execute, hne]

theorem committed_perm (input : Input) (x : Exchange) (answers : List (ℕ × Response)) {db : Ledger}
    {added : List Key} (h : (keys db).Perm (keys x.db ++ added)) :
    (committed input { x with db, answers }).Perm
      (x.committed input ++ added.filter (· ∈ x.attempts.map fun key => input.key key)) := by
  unfold committed
  rw [← List.filter_append]
  exact h.filter _

/-- A request of someone else adds no entry of the submission. -/
theorem committed_other {call : Call}
    (h : call.request.key ∉ x.attempts.map fun key => input.key key) :
    (committed input { x with db := ((call.service py).run x.db).2 }).Perm (x.committed input) := by
  by_cases hcommit : ∃ job, call.job py = .ok job ∧ Nonempty (job.Commit py x.db)
  · obtain ⟨job, hjob, ⟨c⟩⟩ := hcommit
    rw [c.service_eq hjob]
    have hkeys := c.keys_after
    rw [(Call.job_eq_ok hjob).2.2] at hkeys
    have hperm := committed_perm input x x.answers hkeys
    rwa [List.filter_cons_of_neg (by simpa using h), List.filter_nil, List.append_nil] at hperm
  · rw [Call.service_of_not_commit fun job hjob hc => hcommit ⟨job, hjob, hc⟩]

/-- The delivery of an execution that is accepted adds one. -/
theorem committed_accepted {ctx : Context} {key : Uuid} (hkey : key ∈ x.attempts)
    (h : (input.mutationFn read key).Accepted py ctx x.db) (answers : List (ℕ × Response)) :
    (committed input { x with
      db := ((input.mutationFn read key).handle py ctx x.db).2, answers }).Perm
        (x.committed input ++ [input.key key]) := by
  have hmem : input.key key ∈ x.attempts.map fun key => input.key key := List.mem_map_of_mem hkey
  have hperm := committed_perm input x answers (keys_of_accepted h)
  rwa [List.filter_cons_of_pos (by simpa using hmem), List.filter_nil] at hperm

end Exchange

/-! ## 4. Exactly once, and when not -/

namespace Exchange

/-- The mutation is executed again after a request of the submission has been committed, or a request
reaches the server after a later execution. -/
def Overlaps (input : Input) (x : Exchange) : Event → Prop
  | .press _ => x.committed input ≠ []
  | .retry _ => x.committed input ≠ []
  | .deliver attempt _ _ _ => attempt + 1 < x.attempts.length
  | _ => False

instance (input : Input) (x : Exchange) (e : Event) : Decidable (x.Overlaps input e) := by
  cases e
  case press => exact inferInstanceAs (Decidable (_ ≠ _))
  case retry => exact inferInstanceAs (Decidable (_ ≠ _))
  case deliver => exact inferInstanceAs (Decidable (_ < _))
  all_goals exact inferInstanceAs (Decidable False)

/-- Nothing of the submission is committed, or one entry, of the last execution. -/
def OnlyLast (input : Input) (x : Exchange) : Prop :=
  x.committed input = [] ∨
    ∃ key, x.attempts.getLast? = some key ∧ x.committed input = [input.key key]

variable {py : Python} {read : ReadDecimal} {user : UserId} {input : Input} {x y : Exchange}

theorem OnlyLast.length_le (h : x.OnlyLast input) : (x.committed input).length ≤ 1 := by
  rcases h with hnone | ⟨key, -, hone⟩
  · simp [hnone]
  · simp [hone]

/-- What leaves the entries and the executions as they are keeps the invariant. -/
theorem OnlyLast.of_perm (h : x.OnlyLast input) (hattempts : y.attempts = x.attempts)
    (hperm : (y.committed input).Perm (x.committed input)) : y.OnlyLast input := by
  rcases h with hnone | ⟨key, hlast, hone⟩
  · rw [hnone] at hperm
    exact .inl hperm.eq_nil
  · rw [hone] at hperm
    exact .inr ⟨key, hattempts ▸ hlast, hperm.eq_singleton⟩

/-- An execution made while nothing is committed leaves nothing committed. -/
theorem onlyLast_execute {key : Uuid} (h : x.Unused input key) (hnone : ¬ x.committed input ≠ []) :
    (x.execute key).OnlyLast input := by
  left
  rw [committed_execute h]
  exact not_not.mp hnone

theorem OnlyLast.step {e : Event} (h : x.OnlyLast input) (hoverlap : ¬ x.Overlaps input e)
    (hstep : step py read user input x e = some y) : y.OnlyLast input := by
  -- only a delivery reaches the ledger under a key of the submission
  cases e with
  | press key =>
      simp only [Client.step, Option.ite_none_right_eq_some, Option.some.injEq] at hstep
      obtain ⟨⟨-, hunused⟩, rfl⟩ := hstep
      exact onlyLast_execute hunused hoverlap
  | retry key =>
      simp only [Client.step, Option.ite_none_right_eq_some, Option.some.injEq] at hstep
      obtain ⟨⟨-, hunused⟩, rfl⟩ := hstep
      exact onlyLast_execute hunused hoverlap
  | fail =>
      simp only [Client.step, Option.ite_none_right_eq_some, Option.some.injEq] at hstep
      obtain ⟨-, rfl⟩ := hstep
      exact h
  | succeed =>
      simp only [Client.step, Option.ite_none_right_eq_some, Option.some.injEq] at hstep
      obtain ⟨-, rfl⟩ := hstep
      exact h
  | other call =>
      simp only [Client.step, Option.ite_none_left_eq_some, Option.some.injEq] at hstep
      obtain ⟨hkey, rfl⟩ := hstep
      exact h.of_perm rfl (committed_other hkey)
  | deliver attempt cache fresh channel =>
      rcases hattempt : x.attempts[attempt]? with _ | key
      · simp [Client.step, hattempt] at hstep
      simp only [Client.step, hattempt, Option.some.injEq] at hstep
      subst hstep
      by_cases haccepted : (input.mutationFn read key).Accepted py
          { user, cache, fresh, channel } x.db
      · -- the last execution, under a key that is new: it has not been committed before
        have hlength : attempt + 1 = x.attempts.length := by
          have hlt := (List.getElem?_eq_some_iff.mp hattempt).1
          have hle : x.attempts.length ≤ attempt + 1 := not_lt.mp hoverlap
          omega
        have hlast : x.attempts.getLast? = some key := by
          rw [List.getLast?_eq_getElem?, ← hlength, Nat.add_sub_cancel, hattempt]
        have hnone : x.committed input = [] := by
          rcases h with hnone | ⟨key', hlast', hone⟩
          · exact hnone
          · obtain rfl := Option.some.inj (hlast.symm.trans hlast')
            have hmem : input.key key ∈ x.committed input := hone ▸ List.mem_singleton_self _
            exact absurd (List.mem_filter.mp hmem).1 (key_notMem_of_accepted haccepted)
        have hperm := committed_accepted (List.mem_of_getElem? hattempt) haccepted
          (x.answers ++ [(attempt, ((input.mutationFn read key).handle py
            { user, cache, fresh, channel } x.db).1)])
        rw [hnone] at hperm
        exact .inr ⟨key, hlast, hperm.eq_singleton⟩
      · -- what is not accepted adds nothing
        rw [handle_of_not_accepted haccepted]
        exact h.of_perm rfl (List.Perm.refl _)

end Exchange

/-- **Exactly once from the client's side.**  A submission is committed at most once in every run in
which the mutation is not executed again once a request of it has been committed, and no request
reaches the server after a later execution: every execution has its own key. -/
theorem atMostOnce_of_no_overlap (py : Python) (read : ReadDecimal) (user : UserId) (input : Input)
    {db : Ledger} {es : List Event}
    (h : EveryStep (step py read user input) (.initial db) es
      fun y e => ¬ y.Overlaps input e) :
    EveryState (step py read user input) (.initial db) es
      fun _ y => (y.committed input).length ≤ 1 := by
  have honly : EveryState (step py read user input) (.initial db) es
      fun _ y => y.OnlyLast input := by
    refine h.everyState ?_ fun _ t e u _ ht hC hstep => ht.step hC hstep
    left
    simp [Exchange.committed, Exchange.initial]
  exact fun pre t hpre hrun => (honly pre t hpre hrun).length_le

/-- The amounts of the examples: the text of 1, and nothing else. -/
def readOne : ReadDecimal := fun text =>
  if text = "1" then .ok 1 else .error ⟨"amount", "Input should be a valid decimal"⟩

/-- A deposit of 1 is committed, its answer is lost, and the button is pressed again. -/
def depositAgain : List Event :=
  [.press 1, .deliver 0 (.always 1) ⟨1, 1⟩ .absent, .fail, .press 2,
   .deliver 1 (.always 1) ⟨2, 2⟩ .absent, .succeed]

theorem exists_run_depositAgain :
    ∃ x, Run (step .default readOne 1 (.cashTransfer .credit "1")) (.initial firstPortfolio)
      depositAgain x ∧ (x.committed (.cashTransfer .credit "1")).length = 2 := by
  have hlength : (exec (step .default readOne 1 (.cashTransfer .credit "1"))
      (.initial firstPortfolio) depositAgain).map
        (fun x => (x.committed (.cashTransfer .credit "1")).length) = some 2 := by
    decide +kernel
  exact Option.map_eq_some_iff.mp hlength

/-- The first request is lost for good; the second reaches the server twice. -/
def depositLost : List Event :=
  [.press 1, .fail, .press 2, .deliver 1 (.always 1) ⟨1, 1⟩ .absent,
   .deliver 1 (.always 1) ⟨2, 2⟩ .absent, .succeed]

theorem atMostOnce_of_no_overlap_depositLost :
    EveryState (step .default readOne 1 (.cashTransfer .credit "1")) (.initial firstPortfolio)
      depositLost fun _ y => (y.committed (.cashTransfer .credit "1")).length ≤ 1 :=
  atMostOnce_of_no_overlap .default readOne 1 (.cashTransfer .credit "1")
    (everyStep_of_checkSteps (c := fun y e => ¬ y.Overlaps (.cashTransfer .credit "1") e)
      (by simp) (by decide +kernel))

theorem not_atMostOnce_depositAgain :
    ¬ EveryState (step .default readOne 1 (.cashTransfer .credit "1")) (.initial firstPortfolio)
        depositAgain (fun _ y => (y.committed (.cashTransfer .credit "1")).length ≤ 1) := by
  intro h
  obtain ⟨x, hrun, htwo⟩ := exists_run_depositAgain
  have hone := h depositAgain x (List.prefix_refl _) hrun
  omega

end DjasktTrading.Client
