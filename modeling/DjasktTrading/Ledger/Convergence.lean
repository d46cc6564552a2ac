import DjasktTrading.Client.PortfolioStream
import DjasktTrading.Ledger.Idempotency
import DjasktTrading.Ledger.Uuids

/-!
# Convergence — what subscribers end with

A portfolio's broadcasts are sent after its row lock is released, so they can go out in another order
than their commits.  Subscribers end with the rows as they are when the last commit is also the last
one to tell.
-/

open Reasoning

namespace DjasktTrading.Ledger

open Realtime Client

/-! ## 1. Commits and messages of one portfolio -/

theorem portfolioGroupName_str_inj {id id' : Uuid} :
    portfolioGroupName id.str = portfolioGroupName id'.str ↔ id = id' := by
  constructor
  · intro h
    unfold portfolioGroupName at h
    exact Uuid.str_injective (String.append_right_inj _ |>.mp h)
  · rintro rfl
    rfl

namespace World

/-- The request whose commit on the portfolio came last. -/
def lastCommitter? (w : World) (id : Uuid) : Option ℕ :=
  ((w.commits.filter (·.2.portfolioId = id)).getLast?).map Prod.fst

/-- The payloads sent to the portfolio's group. -/
def payloadsTo (w : World) (id : Uuid) : List Payload :=
  (w.sent.filter (·.2.group = portfolioGroupName id.str)).map (·.2.payload)

/-- Every request on the portfolio has been answered. -/
def Quiet (w : World) (id : Uuid) : Prop :=
  ∀ i call phase, w.At i call phase → call.request.portfolioId = id → phase.Finished

end World

/-- The view shows the portfolio as `db` has it. -/
def View.Current (view : View) (db : Ledger) (id : Uuid) : Prop :=
  view.portfolioId = id.str ∧
    (∃ row, portfolio? db id = some row ∧
      Numeric.writeDecimal view.cashBalance = .ok row.cashBalance) ∧
    view.positions.Perm ((positionsOf db id).map Position.item)

/-- Once all requests on a portfolio that has seen a commit are over, the last payload sent to its
group is current, and so is the cache of a client that has received it, whatever it received before. -/
def Converged (w : World) : Prop :=
  ∀ id, w.Quiet id → (∃ x ∈ w.commits, x.2.portfolioId = id) →
    ∃ payload, (w.payloadsTo id).getLast? = some payload ∧ payload.view.Current w.db id ∧
      ∀ cache (messages : List SocketMessage), messages.filterMap SocketMessage.payload? ≠ [] →
        messages.filterMap SocketMessage.payload? <:+ w.payloadsTo id →
          messages.foldl onMessage cache = some payload.view

/-- A request with a later commit on the portfolio than this one is over. -/
def World.Overtaken (w : World) (i : ℕ) (id : Uuid) : Prop :=
  ∃ k call outcome, w.lastCommitter? id = some k ∧ k ≠ i ∧ w.At k call (.done outcome)

/-- The step does not send a message after that of the last commit on its portfolio, and does not
drop the message of that commit. -/
def World.Orderly (w : World) : Event → Prop
  | .groupSend i => ∀ call phase, w.At i call phase → ¬ w.Overtaken i call.request.portfolioId
  | .skipBroadcast i | .rereadFails i | .groupSendFails i => ∀ call phase, w.At i call phase →
      w.lastCommitter? call.request.portfolioId ≠ some i
  | _ => True

/-! ## 2. Telling in order -/

namespace World

variable {w : World} {i k : ℕ} {id : Uuid} {call : Call} {phase : Phase}

theorem lastCommitter?_concat {job : Job} {w' : World} (h : w'.commits = w.commits ++ [(i, job)]) :
    w'.lastCommitter? id = if job.portfolioId = id then some i else w.lastCommitter? id := by
  unfold lastCommitter?
  rw [h, List.filter_append]
  split
  · rename_i hid
    simp [hid]
  · rename_i hid
    simp [hid]

theorem payloadsTo_concat {message : Broadcast} {w' : World}
    (h : w'.sent = w.sent ++ [(i, message)]) :
    w'.payloadsTo id = w.payloadsTo id ++
      if message.group = portfolioGroupName id.str then [message.payload] else [] := by
  unfold payloadsTo
  rw [h, List.filter_append, List.map_append]
  split
  · rename_i hgroup
    simp [hgroup]
  · rename_i hgroup
    simp [hgroup]

theorem mem_commits_of_lastCommitter? (h : w.lastCommitter? id = some k) :
    ∃ job, (k, job) ∈ w.commits ∧ job.portfolioId = id := by
  obtain ⟨⟨_, job⟩, hlast, rfl⟩ := Option.map_eq_some_iff.mp h
  have hmem := List.mem_filter.mp (List.mem_of_getLast? hlast)
  exact ⟨job, hmem.1, by simpa using hmem.2⟩

/-- What is still to come of the last commit on a portfolio, or has been sent. -/
def Owes (w : World) (id : Uuid) : Phase → Prop
  | .committed _ portfolio => ∃ row, portfolio? w.db id = some row ∧
      Numeric.writeDecimal portfolio.cashBalance = .ok row.cashBalance
  | .sending _ _ message => message.payload.view.Current w.db id
  | .done _ => ∃ payload, (w.payloadsTo id).getLast? = some payload ∧
      payload.view.Current w.db id
  | _ => False

end World

theorem View.Current.of_agreeOn {view : View} {db db' : Ledger} {id : Uuid}
    (h : view.Current db id) (hagree : AgreeOn id db' db) : view.Current db' id := by
  unfold View.Current
  rw [hagree.portfolio, hagree.positions]
  exact h

/-- Commits on other portfolios and messages to other groups change nothing. -/
theorem World.Owes.of_agreeOn {w w' : World} {id : Uuid} {phase : Phase} (h : w.Owes id phase)
    (hagree : AgreeOn id w'.db w.db) (hsent : w'.payloadsTo id = w.payloadsTo id) :
    w'.Owes id phase := by
  cases phase with
  | committed entry portfolio =>
      unfold Owes
      rw [hagree.portfolio]
      exact h
  | sending entry portfolio message => exact View.Current.of_agreeOn h hagree
  | done outcome =>
      obtain ⟨payload, hlast, hcurrent⟩ := h
      exact ⟨payload, hsent ▸ hlast, hcurrent.of_agreeOn hagree⟩
  | _ => exact h.elim

/-- The last commit on a portfolio is a request on that portfolio. -/
theorem Inv.portfolioId_of_lastCommitter? {py : Python} {start : Ledger} {w : World}
    (hinv : Inv py start w) {id : Uuid} {k : ℕ} (hlast : w.lastCommitter? id = some k) :
    ∃ call phase, w.At k call phase ∧ phase.Past ∧ call.request.portfolioId = id := by
  obtain ⟨job, hmem, rfl⟩ := World.mem_commits_of_lastCommitter? hlast
  obtain ⟨call, phase, here, hjob, hpast⟩ := hinv.committed _ hmem
  exact ⟨call, phase, here, hpast, (Call.job_eq_ok hjob).2.1.symm⟩

/-- The request stands between its commit and its message. -/
def Phase.Broadcasts : Phase → Prop
  | .committed _ _ => True
  | .sending _ _ _ => True
  | _ => False

theorem Call.lookup_not_broadcasts (py : Python) (db : Ledger) (call : Call) :
    ¬ (call.lookup py db).Broadcasts := by
  unfold Call.lookup
  split
  · exact id
  · split
    · exact id
    · exact id

/-- Every message is to the group of its request's portfolio, and the last commit on a portfolio is
current or still to be told. -/
structure TellInv (w : World) : Prop where
  committed : ∀ {i call entry portfolio}, w.At i call (.committed entry portfolio) →
    portfolio.id = call.request.portfolioId
  sending : ∀ {i call entry portfolio message}, w.At i call (.sending entry portfolio message) →
    message.group = portfolioGroupName call.request.portfolioId.str
  last : ∀ {id k}, w.lastCommitter? id = some k → ∀ {call phase}, w.At k call phase →
    w.Owes id phase

namespace TellInv

variable {py : Python} {start : Ledger} {w w' : World}

theorem initial (db : Ledger) : TellInv (.initial db) where
  committed here := by simp [World.At, World.initial] at here
  sending here := by simp [World.At, World.initial] at here
  last hlast := by simp [World.lastCommitter?, World.initial] at hlast

theorem arrive (hinv : Inv py start w) (h : TellInv w) (call : Call) :
    TellInv { w with requests := w.requests ++ [{ call, phase := .submitted }] } where
  committed there := by
    rcases World.at_arrive_cases there with there | ⟨-, hslot⟩
    · exact h.committed there
    · cases hslot
  sending there := by
    rcases World.at_arrive_cases there with there | ⟨-, hslot⟩
    · exact h.sending there
    · cases hslot
  last hlast call' phase there := by
    rcases World.at_arrive_cases there with there | ⟨hnew, -⟩
    · exact h.last hlast there
    · -- a new request has not committed
      obtain ⟨call'', phase', here, -⟩ := hinv.portfolioId_of_lastCommitter? hlast
      exact absurd here.lt_length (by omega)

/-- A request that moves on, with no commit and no message. -/
theorem put (h : TellInv w) {i : ℕ} {call : Call} {phase new : Phase} (here : w.At i call phase)
    (hcommitted : ∀ entry portfolio, new = .committed entry portfolio →
      portfolio.id = call.request.portfolioId)
    (hsending : ∀ entry portfolio message, new = .sending entry portfolio message →
      message.group = portfolioGroupName call.request.portfolioId.str)
    (hlast : ∀ id, w.lastCommitter? id = some i → w.Owes id new) : TellInv (w.put i new) where
  committed there := by
    rcases World.at_put_cases here there with ⟨rfl, rfl, hphase⟩ | ⟨-, there⟩
    · exact hcommitted _ _ hphase.symm
    · exact h.committed there
  sending there := by
    rcases World.at_put_cases here there with ⟨rfl, rfl, hphase⟩ | ⟨-, there⟩
    · exact hsending _ _ _ hphase.symm
    · exact h.sending there
  last hk call' phase' there := by
    rcases World.at_put_cases here there with ⟨rfl, rfl, rfl⟩ | ⟨-, there⟩
    · exact hlast _ hk
    · exact h.last hk there

/-- A request that has not committed and moves on with neither. -/
theorem moved (h : TellInv w) {i : ℕ} {call : Call} {phase new : Phase} (here : w.At i call phase)
    (hphase : ¬ phase.Past) (hnew : ¬ new.Broadcasts) : TellInv (w.put i new) := by
  refine h.put here ?_ ?_ ?_
  · rintro entry portfolio rfl
    exact absurd trivial hnew
  · rintro entry portfolio message rfl
    exact absurd trivial hnew
  · intro id hlast
    have howes := h.last hlast here
    cases phase with
    | committed _ _ => exact absurd trivial hphase
    | sending _ _ _ => exact absurd trivial hphase
    | done _ => exact absurd trivial hphase
    | _ => exact howes.elim

/-- A request whose message is dropped, and whose commit is not the last. -/
theorem dropped (h : TellInv w) (hinv : Inv py start w) {i : ℕ} {call : Call} {phase : Phase}
    {outcome : Except Exn (Result Entry)} (here : w.At i call phase)
    (hnot : w.lastCommitter? call.request.portfolioId ≠ some i) :
    TellInv (w.put i (.done outcome)) := by
  refine h.put here ?_ ?_ fun id hlast => ?_
  · rintro _ _ ⟨⟩
  · rintro _ _ _ ⟨⟩
  obtain ⟨call', phase', here', -, rfl⟩ := hinv.portfolioId_of_lastCommitter? hlast
  obtain ⟨rfl, -⟩ := here.unique here'
  exact absurd hlast hnot

theorem commit (hinv : Inv py start w) (h : TellInv w) {i : ℕ} {call : Call} {job : Job}
    {entry : Entry} {portfolio : PortfolioInstance} {ws : List Write}
    (here : w.At i call (.inTx job (.recorded entry portfolio) ws)) :
    TellInv { w.put i (.committed entry portfolio) with
      db := applyAll w.db ws, commits := w.commits ++ [(i, job)] } := by
  obtain ⟨c, -, rfl, hafter⟩ := hinv.commit_of_recorded here
  have hjob := (Call.job_eq_ok (hinv.running here).1).2.1
  constructor
  · intro j call' entry' portfolio' there
    rcases World.at_put_cases here there with ⟨rfl, rfl, hphase⟩ | ⟨-, there⟩
    · cases hphase
      exact c.portfolio_id.trans hjob
    · exact h.committed there
  · intro j call' entry' portfolio' message there
    rcases World.at_put_cases here there with ⟨-, -, hphase⟩ | ⟨-, there⟩
    · cases hphase
    · exact h.sending there
  · intro id k hlast call' phase' there
    rw [World.lastCommitter?_concat (w := w) rfl] at hlast
    split at hlast
    · -- this commit is the last one now
      rename_i hid
      obtain rfl := Option.some.inj hlast
      rcases World.at_put_cases here there with ⟨-, rfl, rfl⟩ | ⟨hne, -⟩
      · obtain ⟨row, hrow, -, hcash⟩ := c.portfolio_saved
        refine ⟨row, ?_, hcash⟩
        rw [← hid, hafter]
        exact hrow
      · exact absurd rfl hne
    · rename_i hid
      rcases World.at_put_cases here there with ⟨rfl, rfl, -⟩ | ⟨-, there⟩
      · exact (h.last hlast here).elim
      · refine (h.last hlast there).of_agreeOn ?_ rfl
        change AgreeOn id (applyAll w.db ws) w.db
        rw [hafter]
        exact c.agreeOn_after (Ne.symm hid)

theorem groupSend (hinv : Inv py start w) (h : TellInv w) {i : ℕ} {call : Call} {entry : Entry}
    {portfolio : PortfolioInstance} {message : Broadcast}
    (here : w.At i call (.sending entry portfolio message))
    (horderly : ¬ w.Overtaken i call.request.portfolioId) :
    TellInv { w.put i (.done (.ok (.committed entry portfolio))) with
      sent := w.sent ++ [(i, message)] } := by
  have hpayloads : ∀ id, World.payloadsTo { w.put i (.done (.ok (.committed entry portfolio))) with
      sent := w.sent ++ [(i, message)] } id =
        w.payloadsTo id ++ if call.request.portfolioId = id then [message.payload] else [] := by
    intro id
    rw [World.payloadsTo_concat (w := w) rfl, h.sending here]
    simp only [portfolioGroupName_str_inj]
  constructor
  · intro j call' entry' portfolio' there
    rcases World.at_put_cases here there with ⟨-, -, hphase⟩ | ⟨-, there⟩
    · cases hphase
    · exact h.committed there
  · intro j call' entry' portfolio' message' there
    rcases World.at_put_cases here there with ⟨-, -, hphase⟩ | ⟨-, there⟩
    · cases hphase
    · exact h.sending there
  · intro id k hlast call' phase' there
    specialize hpayloads id
    rcases World.at_put_cases here there with ⟨rfl, rfl, rfl⟩ | ⟨hne, there⟩
    · -- the last commit is told
      obtain ⟨call'', phase'', here', -, hid⟩ := hinv.portfolioId_of_lastCommitter? hlast
      obtain ⟨rfl, -⟩ := here.unique here'
      rw [if_pos hid] at hpayloads
      refine ⟨message.payload, ?_, h.last hlast here⟩
      rw [hpayloads, List.getLast?_concat]
    · by_cases hid : call.request.portfolioId = id
      · -- the last commit is still to be told
        cases phase' with
        | committed _ _ => exact h.last hlast there
        | sending _ _ _ => exact h.last hlast there
        | done outcome =>
            exact absurd ⟨k, call', outcome, hid ▸ hlast, Ne.symm hne, there⟩ horderly
        | _ => exact (h.last hlast there).elim
      · rw [if_neg hid, List.append_nil] at hpayloads
        exact (h.last hlast there).of_agreeOn (AgreeOn.refl id w.db) hpayloads

theorem step (hinv : Inv py start w) (h : TellInv w) {e : Event} (horderly : w.Orderly e)
    (hstep : step py w e = some w') : TellInv w' := by
  cases step_fires hstep with
  | arrive call => exact arrive hinv h call
  | lookup here => exact h.moved here id (Call.lookup_not_broadcasts py w.db _)
  | priced here opened => exact h.moved here id id
  | unpriced here refused => exact h.moved here id id
  | @ran i call job stage stage' ws vs here left free returned =>
      have hmoved : TellInv (w.put i (.inTx job stage' (ws ++ vs))) := h.moved here id id
      exact ⟨hmoved.committed, hmoved.sending, hmoved.last⟩
  | raised here free threw => exact h.moved here id id
  | commit here => exact commit hinv h here
  | fail here early =>
      refine h.moved here ?_ id
      rcases early with rfl | rfl | ⟨job, stage, ws, rfl⟩
      · exact id
      · exact id
      · exact id
  | skipBroadcast here => exact h.dropped hinv here (horderly _ _ here)
  | reread here =>
      refine h.put here ?_ ?_ ?_
      · rintro _ _ ⟨⟩
      · rintro _ _ _ ⟨⟩
        exact congrArg (fun id => portfolioGroupName (Uuid.str id)) (h.committed here)
      · intro id hlast
        obtain ⟨call', phase', here', -, hid⟩ := hinv.portfolioId_of_lastCommitter? hlast
        obtain ⟨rfl, -⟩ := here.unique here'
        rw [← h.committed here] at hid
        subst hid
        exact ⟨rfl, h.last hlast here, List.Perm.refl _⟩
  | rereadFails here => exact h.dropped hinv here (horderly _ _ here)
  | groupSend here => exact groupSend hinv h here (horderly _ _ here)
  | groupSendFails here => exact h.dropped hinv here (horderly _ _ here)

/-- Once a portfolio is quiet, its last commit has been told. -/
theorem converged (hinv : Inv py start w) (h : TellInv w) : Converged w := by
  rintro id hquiet ⟨⟨i, job⟩, hmem, hid⟩
  have hne : w.commits.filter (·.2.portfolioId = id) ≠ [] :=
    List.ne_nil_of_mem (List.mem_filter.mpr ⟨hmem, by simpa using hid⟩)
  obtain ⟨k, hlast⟩ : ∃ k, w.lastCommitter? id = some k :=
    ⟨_, by rw [World.lastCommitter?, List.getLast?_eq_some_getLast hne, Option.map_some]⟩
  obtain ⟨call, phase, here, -, hcall⟩ := hinv.portfolioId_of_lastCommitter? hlast
  have hfinished := hquiet k call phase here hcall
  cases phase with
  | done outcome =>
      obtain ⟨payload, hpayload, hcurrent⟩ := h.last hlast here
      refine ⟨payload, hpayload, hcurrent, ?_⟩
      rintro cache messages hsome ⟨missed, hreceived⟩
      rw [foldl_onMessage]
      rw [← hreceived, List.getLast?_append_of_ne_nil _ hsome] at hpayload
      rw [hpayload]
      rfl
  | _ => exact hfinished.elim

end TellInv

/-- **Subscribers converge.**  In a run in which no message is sent after that of a later commit on
its portfolio, and that of the last commit is not dropped, subscribers end with the rows. -/
theorem converged_of_orderly (py : Python) (start : Ledger) {es : List Event}
    (h : EveryStep (step py) (.initial start) es World.Orderly) :
    EveryState (step py) (.initial start) es fun _ w => Converged w := by
  intro pre w hpre hrun
  refine TellInv.converged (Inv.of_run hrun) ?_
  refine h.everyState (P := fun _ w => TellInv w) (TellInv.initial start) ?_ pre w hpre hrun
  intro pre w e w' hrun htell horderly hstep
  exact htell.step (Inv.of_run hrun) horderly hstep

instance : DecidablePred Phase.Finished
  | .done _ => isTrue trivial
  | .submitted | .missed | .inTx _ _ _ | .committed _ _ | .sending _ _ _ => isFalse id

/-- The step is no send after that of a later commit, and drops no message. -/
def World.inOrder (w : World) : Event → Bool
  | .groupSend i =>
      match w.requests[i]? with
      | some slot =>
          match w.lastCommitter? slot.call.request.portfolioId with
          | some k => k = i ∨ ∀ last ∈ w.requests[k]?, ¬ last.phase.Finished
          | none => true
      | none => true
  | .skipBroadcast _ | .rereadFails _ | .groupSendFails _ => false
  | _ => true

theorem World.orderly_of_inOrder (w : World) (e : Event) (h : w.inOrder e) : w.Orderly e := by
  cases e with
  | groupSend i =>
      rintro call phase here ⟨k, call', outcome, hlast, hne, there⟩
      unfold World.At at here there
      simp [inOrder, here, hlast, there, hne, Phase.Finished] at h
  | skipBroadcast i => cases h
  | rereadFails i => cases h
  | groupSendFails i => cases h
  | _ => trivial

/-- Two deposits and their broadcasts, in one order. -/
def depositsToldInOrder : List Event :=
  twoDeposits ++ [.reread 1, .groupSend 1, .reread 0, .groupSend 0]

theorem converged_of_orderly_depositsToldInOrder :
    EveryState (step .default) (.initial firstPortfolio) depositsToldInOrder
      fun _ w => Converged w :=
  converged_of_orderly .default firstPortfolio
    (everyStep_of_checkSteps World.orderly_of_inOrder (by decide +kernel))

/-- The two deposits, and their broadcasts in the other order. -/
def depositsToldOutOfOrder : List Event :=
  twoDeposits ++ [.reread 1, .reread 0, .groupSend 0, .groupSend 1]

/-- The balance is 3, and the last thing that subscribers hear is 2. -/
theorem not_converged_depositsToldOutOfOrder :
    ¬ EveryState (step .default) (.initial firstPortfolio) depositsToldOutOfOrder
      fun _ w => Converged w := by
  have hvalues : (exec (step .default) (.initial firstPortfolio) depositsToldOutOfOrder).map
      (fun w => (decide (∀ slot ∈ w.requests, slot.phase.Finished),
        decide (∃ x ∈ w.commits, x.2.portfolioId = 1),
        ((w.payloadsTo 1).getLast?).map fun payload =>
          decide (∃ row ∈ portfolio? w.db 1,
            Numeric.writeDecimal payload.view.cashBalance = .ok row.cashBalance))) =
        some (true, true, some false) := by
    decide +kernel
  intro h
  obtain ⟨w, hrun, hw⟩ := Option.map_eq_some_iff.mp hvalues
  simp only [Prod.mk.injEq, decide_eq_true_eq] at hw
  obtain ⟨hfinished, hcommit, hlast⟩ := hw
  have hquiet : w.Quiet 1 := fun i call phase here _ => hfinished _ (List.mem_of_getElem? here)
  obtain ⟨payload, hpayload, ⟨-, hcash, -⟩, -⟩ :=
    h _ w (List.prefix_refl _) hrun 1 hquiet hcommit
  rw [hpayload] at hlast
  exact absurd hcash (of_decide_eq_false (Option.some.inj hlast))

end DjasktTrading.Ledger
