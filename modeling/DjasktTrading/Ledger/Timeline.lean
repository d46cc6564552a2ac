import DjasktTrading.Ledger.Broadcasts
import DjasktTrading.Ledger.Serializability

/-!
# Timeline — timestamps read under a lock

`auto_now_add` reads the clock when an entry is about to be inserted, which is before the insert has
waited for anything and before the commit.  Many requests do so at once.  The portfolio row is locked
from before the reading until after the commit, so the entries of one portfolio are stored in the
order of their timestamps.
-/

open Reasoning

namespace DjasktTrading.Ledger

/-! ## 1. Requests that read the clock -/

def Job.fresh : Job → Fresh
  | .trade _ fresh => fresh
  | .transfer _ fresh => fresh

/-- The requests, the last reading of the clock, and the requests that have read it. -/
structure Clocked where
  world : World
  lastReading : Timestamp
  readers : List ℕ

inductive ClockedEvent where
  /-- `auto_now_add` fills in the timestamp of the entry that request `i` is about to insert -/
  | readClock (i : ℕ)
  | ledger (e : Event)

namespace Clocked

def initial (lastReading : Timestamp) (db : Ledger) : Clocked where
  world := .initial db
  lastReading := lastReading
  readers := []

/-- An entry is not inserted without a timestamp. -/
def ready (c : Clocked) : Event → Bool
  | .statement i =>
      match c.world.requests[i]? with
      | some ⟨_, .inTx _ (.saved _) _⟩ => decide (i ∈ c.readers)
      | _ => true
  | _ => true

end Clocked

/-- A clock never gives a reading twice, and never an earlier one. -/
def clockedStep (py : Python) (c : Clocked) : ClockedEvent → Option Clocked
  | .readClock i =>
      match c.world.requests[i]? with
      | some ⟨_, .inTx job (.saved _) _⟩ =>
          if i ∉ c.readers ∧ c.lastReading < job.fresh.now then
            some { c with lastReading := job.fresh.now, readers := i :: c.readers }
          else none
      | _ => none
  | .ledger e => if c.ready e then (step py c.world e).map fun world => { c with world } else none

theorem clockedStep_readClock {py : Python} {c c' : Clocked} {i : ℕ}
    (h : clockedStep py c (.readClock i) = some c') :
    ∃ call job portfolio ws, c.world.At i call (.inTx job (.saved portfolio) ws) ∧
      c.lastReading < job.fresh.now ∧
      c' = { c with lastReading := job.fresh.now, readers := i :: c.readers } := by
  simp only [clockedStep] at h
  split at h
  · rename_i call job portfolio ws here
    split at h
    · rename_i hnew
      exact ⟨call, job, portfolio, ws, here, hnew.2, (Option.some.inj h).symm⟩
    · cases h
  · cases h

theorem clockedStep_ledger {py : Python} {c c' : Clocked} {e : Event}
    (h : clockedStep py c (.ledger e) = some c') :
    c.ready e ∧ ∃ w, step py c.world e = some w ∧ c' = { c with world := w } := by
  simp only [clockedStep] at h
  split at h
  · rename_i hready
    obtain ⟨w, hw, rfl⟩ := Option.map_eq_some_iff.mp h
    exact ⟨hready, w, hw, rfl⟩
  · cases h

theorem Clocked.mem_readers_of_ready {c : Clocked} {i : ℕ} {call : Call} {job : Job}
    {portfolio : PortfolioInstance} {ws : List Write} (h : c.ready (.statement i))
    (here : c.world.At i call (.inTx job (.saved portfolio) ws)) : i ∈ c.readers := by
  simpa [ready, show c.world.requests[i]? = _ from here] using h

/-- Without the clock, a run of requests. -/
theorem Clocked.run_world {py : Python} {c c' : Clocked} {es : List ClockedEvent}
    (hrun : Run (clockedStep py) c es c') : ∃ fs, Run (step py) c.world fs c'.world := by
  refine hrun.project Clocked.world fun {d e d'} hstep => ?_
  cases e with
  | readClock i =>
      obtain ⟨_, _, _, _, -, -, rfl⟩ := clockedStep_readClock hstep
      exact .inl rfl
  | ledger e =>
      obtain ⟨-, w, hw, rfl⟩ := clockedStep_ledger hstep
      exact .inr ⟨e, hw⟩

/-! ## 2. What one step does to an open transaction -/

theorem Advances.ne_opened {py : Python} {job : Job} {db : Ledger} {stage stage' : Stage}
    {ws : List Write} (h : Advances py job db stage stage' ws) : stage' ≠ .opened := by
  cases h <;> nofun

/-- It stands where it stood, has just opened, or has run a statement. -/
theorem inTx_cases_of_step {py : Python} {w w' : World} {e : Event} {j : ℕ} {call : Call} {job : Job}
    {stage : Stage} {ws : List Write} (hstep : step py w e = some w')
    (there : w'.At j call (.inTx job stage ws)) :
    (w.At j call (.inTx job stage ws) ∧ e ≠ .commit j) ∨
      (e = .fetchPrice j ∧ w.At j call .missed ∧ stage = .opened) ∨
      ∃ before us vs, e = .statement j ∧ w.At j call (.inTx job before us) ∧ before.remaining ≠ 0 ∧
        Advances py job (applyAll w.db us) before stage vs := by
  cases step_fires hstep with
  | arrive call' =>
      rcases World.at_arrive_cases there with there | ⟨-, hslot⟩
      · exact .inl ⟨there, nofun⟩
      · cases hslot
  | @lookup i call' here =>
      rcases World.at_put_cases here there with ⟨-, -, hphase⟩ | ⟨-, there⟩
      · have houtside := Call.lookup_outside py w.db call'
        rw [← hphase] at houtside
        exact houtside.elim
      · exact .inl ⟨there, nofun⟩
  | priced here opened =>
      rcases World.at_put_cases here there with ⟨rfl, rfl, hphase⟩ | ⟨-, there⟩
      · cases hphase
        exact .inr (.inl ⟨rfl, here, rfl⟩)
      · exact .inl ⟨there, nofun⟩
  | ran here left free returned =>
      rcases World.at_put_cases here there with ⟨rfl, rfl, hphase⟩ | ⟨-, there⟩
      · cases hphase
        exact .inr (.inr ⟨_, _, _, rfl, here, left, Job.advance_eq_ok returned⟩)
      · exact .inl ⟨there, nofun⟩
  | commit here =>
      rcases World.at_put_cases here there with ⟨-, -, hphase⟩ | ⟨hne, there⟩
      · cases hphase
      · refine .inl ⟨there, fun heq => hne ?_⟩
        cases heq
        rfl
  | unpriced here refused => exact .inl ⟨here.of_put there nofun, nofun⟩
  | raised here free threw => exact .inl ⟨here.of_put there nofun, nofun⟩
  | fail here early => exact .inl ⟨here.of_put there nofun, nofun⟩
  | skipBroadcast here => exact .inl ⟨here.of_put there nofun, nofun⟩
  | reread here => exact .inl ⟨here.of_put there nofun, nofun⟩
  | rereadFails here => exact .inl ⟨here.of_put there nofun, nofun⟩
  | groupSend here => exact .inl ⟨here.of_put there nofun, nofun⟩
  | groupSendFails here => exact .inl ⟨here.of_put there nofun, nofun⟩

/-! ## 3. Timestamps of a portfolio -/

/-- Every timestamp among the entries of the portfolio satisfies `P`. -/
structure Stamped (db : Ledger) (id : Uuid) (P : Timestamp → Prop) : Prop where
  trades : ∀ t ∈ tradesOf db id, P t.timestamp
  cashTransactions : ∀ c ∈ cashTransactionsOf db id, P c.timestamp

/-- In either table the entries of the portfolio stand in the order of their timestamps. -/
structure InOrder (db : Ledger) (id : Uuid) : Prop where
  trades : (tradesOf db id).Pairwise fun t u => t.timestamp < u.timestamp
  cashTransactions : (cashTransactionsOf db id).Pairwise fun c d => c.timestamp < d.timestamp

theorem AgreeOn.stamped {id : Uuid} {db db' : Ledger} {P : Timestamp → Prop} (h : AgreeOn id db db')
    (hdb : Stamped db id P) : Stamped db' id P :=
  ⟨h.trades ▸ hdb.trades, h.cashTransactions ▸ hdb.cashTransactions⟩

theorem AgreeOn.inOrder {id : Uuid} {db db' : Ledger} (h : AgreeOn id db db') (hdb : InOrder db id) :
    InOrder db' id :=
  ⟨h.trades ▸ hdb.trades, h.cashTransactions ▸ hdb.cashTransactions⟩

namespace Job.Commit

variable {py : Python} {db : Ledger} {job : Job}

/-- A commit adds one entry to its portfolio, with its own timestamp. -/
theorem entries_after (c : job.Commit py db) :
    (∃ t, t.timestamp = job.fresh.now ∧
        tradesOf c.after job.portfolioId = tradesOf db job.portfolioId ++ [t] ∧
        cashTransactionsOf c.after job.portfolioId = cashTransactionsOf db job.portfolioId) ∨
      ∃ t, t.timestamp = job.fresh.now ∧
        tradesOf c.after job.portfolioId = tradesOf db job.portfolioId ∧
        cashTransactionsOf c.after job.portfolioId =
          cashTransactionsOf db job.portfolioId ++ [t] := by
  cases c with
  | trade fresh c =>
      refine .inl ⟨c.stored fresh, rfl, ?_, ?_⟩
      · change tradesOf (c.after fresh) _ = _
        simp [tradesOf, c.trades_after, TradeCommit.stored, Job.portfolioId]
      · change cashTransactionsOf (c.after fresh) _ = _
        simp [cashTransactionsOf, c.cashTransactions_after]
  | transfer fresh c =>
      refine .inr ⟨c.stored fresh, rfl, ?_, ?_⟩
      · change tradesOf (c.after fresh) _ = _
        simp [tradesOf, c.trades_after]
      · change cashTransactionsOf (c.after fresh) _ = _
        simp [cashTransactionsOf, c.cashTransactions_after, TransferCommit.stored, Job.portfolioId]

theorem stamped_after (c : job.Commit py db) {id : Uuid} {P : Timestamp → Prop}
    (h : Stamped db id P) (hnew : job.portfolioId = id → P job.fresh.now) : Stamped c.after id P := by
  by_cases hid : job.portfolioId = id
  · subst hid
    rcases c.entries_after with ⟨t, ht, htrades, hcash⟩ | ⟨t, ht, htrades, hcash⟩
    · constructor
      · rw [htrades]
        exact List.forall_mem_append.mpr ⟨h.trades, by simpa [ht] using hnew rfl⟩
      · exact hcash ▸ h.cashTransactions
    · constructor
      · exact htrades ▸ h.trades
      · rw [hcash]
        exact List.forall_mem_append.mpr ⟨h.cashTransactions, by simpa [ht] using hnew rfl⟩
  · exact (c.agreeOn_after (Ne.symm hid)).symm.stamped h

theorem inOrder_after (c : job.Commit py db) {id : Uuid} (h : InOrder db id)
    (hnew : job.portfolioId = id → Stamped db id (· < job.fresh.now)) : InOrder c.after id := by
  by_cases hid : job.portfolioId = id
  · subst hid
    rcases c.entries_after with ⟨t, ht, htrades, hcash⟩ | ⟨t, ht, htrades, hcash⟩
    · refine ⟨?_, hcash ▸ h.cashTransactions⟩
      rw [htrades, List.pairwise_append]
      exact ⟨h.trades, List.pairwise_singleton _ _, by simpa [ht] using (hnew rfl).trades⟩
    · refine ⟨htrades ▸ h.trades, ?_⟩
      rw [hcash, List.pairwise_append]
      exact ⟨h.cashTransactions, List.pairwise_singleton _ _,
        by simpa [ht] using (hnew rfl).cashTransactions⟩
  · exact (c.agreeOn_after (Ne.symm hid)).symm.inOrder h

end Job.Commit

/-! ## 4. The lock over the reading -/

/-- A request that has read the clock holds its portfolio, and nothing on it is newer. -/
structure ClockInv (py : Python) (start : Ledger) (c : Clocked) : Prop where
  inv : Inv py start c.world
  past : ∀ id, Stamped c.world.db id (· ≤ c.lastReading)
  ordered : ∀ id, InOrder c.world.db id
  started : ∀ i ∈ c.readers, ∃ call phase, c.world.At i call phase ∧ 2 ≤ phase.rank
  read : ∀ {i call job stage ws}, c.world.At i call (.inTx job stage ws) → i ∈ c.readers →
    stage ≠ .opened ∧ job.fresh.now ≤ c.lastReading ∧
      Stamped c.world.db job.portfolioId (· < job.fresh.now)
  recorded : ∀ {i call job entry portfolio ws},
    c.world.At i call (.inTx job (.recorded entry portfolio) ws) → i ∈ c.readers

theorem Stamped.imp {db : Ledger} {id : Uuid} {P Q : Timestamp → Prop} (h : Stamped db id P)
    (himp : ∀ now, P now → Q now) : Stamped db id Q :=
  ⟨fun t ht => himp _ (h.trades t ht), fun c hc => himp _ (h.cashTransactions c hc)⟩

namespace ClockInv

variable {py : Python} {start : Ledger} {c c' : Clocked}

theorem initial {lastReading : Timestamp} (hpast : ∀ id, Stamped start id (· ≤ lastReading))
    (hordered : ∀ id, InOrder start id) : ClockInv py start (.initial lastReading start) where
  inv := Inv.initial py start
  past := hpast
  ordered := hordered
  started i hi := by simp [Clocked.initial] at hi
  read here := by simp [Clocked.initial, World.At, World.initial] at here
  recorded here := by simp [Clocked.initial, World.At, World.initial] at here

theorem readClock (h : ClockInv py start c) {i : ℕ}
    (hstep : clockedStep py c (.readClock i) = some c') : ClockInv py start c' := by
  obtain ⟨call, job, portfolio, ws, here, hlater, rfl⟩ := clockedStep_readClock hstep
  constructor
  · exact h.inv
  · exact fun id => (h.past id).imp fun now hnow => hnow.trans hlater.le
  · exact h.ordered
  · intro j hj
    rcases List.mem_cons.mp hj with rfl | hj
    · exact ⟨call, _, here, le_rfl⟩
    · exact h.started j hj
  · intro j call' job' stage ws' there hj
    rcases List.mem_cons.mp hj with rfl | hj
    · -- what is stored was stamped before this reading
      obtain ⟨-, hphase⟩ := here.unique there
      cases hphase
      exact ⟨nofun, le_rfl, (h.past _).imp fun now hnow => lt_of_le_of_lt hnow hlater⟩
    · obtain ⟨hopened, hle, hstamped⟩ := h.read there hj
      exact ⟨hopened, hle.trans hlater.le, hstamped⟩
  · exact fun there => List.mem_cons_of_mem _ (h.recorded there)

/-- A reader that is in a transaction after a step was in it before. -/
theorem inTx_before (h : ClockInv py start c) {e : Event} {w : World}
    (hstep : Ledger.step py c.world e = some w) {j : ℕ} {call : Call} {job : Job} {stage : Stage}
    {ws : List Write} (there : w.At j call (.inTx job stage ws)) (hj : j ∈ c.readers) :
    stage ≠ .opened ∧ e ≠ .commit j ∧
      ∃ before us, c.world.At j call (.inTx job before us) ∧ before ≠ .opened := by
  rcases inTx_cases_of_step hstep there with ⟨before, hne⟩ | ⟨-, before, -⟩ |
    ⟨stage', us, vs, rfl, before, -, hadvances⟩
  · have hopened := (h.read before hj).1
    exact ⟨hopened, hne, stage, ws, before, hopened⟩
  · -- the request would have read the clock before its price
    obtain ⟨call', phase, there', hrank⟩ := h.started j hj
    obtain ⟨-, rfl⟩ := before.unique there'
    simp [Phase.rank] at hrank
  · have hne : Event.statement j ≠ .commit j := by simp
    exact ⟨hadvances.ne_opened, hne, stage', us, before, (h.read before hj).1⟩

theorem ledger (h : ClockInv py start c) {e : Event} {w : World} (hready : c.ready e)
    (hstep : Ledger.step py c.world e = some w) : ClockInv py start { c with world := w } := by
  have hstarted : ∀ i ∈ c.readers, ∃ call phase, w.At i call phase ∧ 2 ≤ phase.rank := by
    intro i hi
    obtain ⟨call, phase, hat, hrank⟩ := h.started i hi
    obtain ⟨phase', hat', hsame | ⟨-, hle⟩⟩ := step_rank hstep hat
    · exact ⟨call, phase', hat', hsame ▸ hrank⟩
    · exact ⟨call, phase', hat', hrank.trans hle⟩
  have hrecorded : ∀ {i call job entry portfolio ws},
      w.At i call (.inTx job (.recorded entry portfolio) ws) → i ∈ c.readers := by
    intro i call job entry portfolio ws there
    rcases inTx_cases_of_step hstep there with ⟨before, -⟩ | ⟨-, -, hopened⟩ |
      ⟨stage', us, vs, rfl, before, hleft, hadvances⟩
    · exact h.recorded before
    · cases hopened
    · cases hadvances with
      | create ran => exact Clocked.mem_readers_of_ready hready before
      | stay => exact absurd rfl hleft
  rcases db_of_step hstep with ⟨hdb, -⟩ | ⟨i, call, job, entry, portfolio, ws, rfl, here, hdb, -⟩
  · refine ⟨h.inv.step hstep, ?_, ?_, hstarted, ?_, hrecorded⟩
    · exact fun id => hdb.symm ▸ h.past id
    · exact fun id => hdb.symm ▸ h.ordered id
    · intro j call job stage ws there hj
      obtain ⟨hopened, -, stage', us, before, -⟩ := h.inTx_before hstep there hj
      exact ⟨hopened, hdb.symm ▸ (h.read before hj).2⟩
  · obtain ⟨commit, -, -, hafter⟩ := h.inv.commit_of_recorded here
    obtain ⟨-, hle, hstamped⟩ := h.read here (h.recorded here)
    rw [hafter] at hdb
    refine ⟨h.inv.step hstep, fun id => ?_, fun id => ?_, hstarted, ?_, hrecorded⟩
    · change Stamped w.db id _
      exact hdb ▸ commit.stamped_after (h.past id) fun _ => hle
    · change InOrder w.db id
      exact hdb ▸ commit.inOrder_after (h.ordered id) fun hid => hid ▸ hstamped
    · intro j call' job' stage ws' there hj
      obtain ⟨hopened, hne, stage', us, before, hbefore⟩ := h.inTx_before hstep there hj
      obtain ⟨-, hle', hstamped'⟩ := h.read before hj
      refine ⟨hopened, hle', ?_⟩
      -- both hold their portfolio's row, so it is not the same
      have hij : i ≠ j := fun heq => hne (heq ▸ rfl)
      have hid : job'.portfolioId ≠ job.portfolioId := by
        intro heq
        apply h.inv.exclusive here before hij _ (Job.portfolioRow_mem_holds nofun)
        rw [← heq]
        exact Job.portfolioRow_mem_holds hbefore
      change Stamped w.db job'.portfolioId _
      exact hdb ▸ (commit.agreeOn_after hid).symm.stamped hstamped'

theorem step (h : ClockInv py start c) {e : ClockedEvent} (hstep : clockedStep py c e = some c') :
    ClockInv py start c' := by
  cases e with
  | readClock i => exact h.readClock hstep
  | ledger e =>
      obtain ⟨hready, w, hw, rfl⟩ := clockedStep_ledger hstep
      exact h.ledger hready hw

theorem of_run {lastReading : Timestamp} (hpast : ∀ id, Stamped start id (· ≤ lastReading))
    (hordered : ∀ id, InOrder start id) {es : List ClockedEvent}
    (hrun : Run (clockedStep py) (.initial lastReading start) es c) : ClockInv py start c :=
  hrun.invariant (initial hpast hordered) fun _ _ _ hc hstep => hc.step hstep

end ClockInv

/-- **Entries are stored in the order of their timestamps.**  Each request reads the clock before its
insert, which may then have to wait, and commits later still; of any number of requests in any
interleaving, those on one portfolio commit in the order of their readings. -/
theorem entries_in_order (py : Python) {start : Ledger} {lastReading : Timestamp}
    (hpast : ∀ id, Stamped start id (· ≤ lastReading)) (hordered : ∀ id, InOrder start id)
    {c : Clocked} {es : List ClockedEvent}
    (hrun : Run (clockedStep py) (.initial lastReading start) es c) (id : Uuid) :
    InOrder c.world.db id ∧ Stamped c.world.db id (· ≤ c.lastReading) :=
  ⟨(ClockInv.of_run hpast hordered hrun).ordered id, (ClockInv.of_run hpast hordered hrun).past id⟩

/-- No entry has been stored yet. -/
theorem inOrder_of_no_entries {db : Ledger} (htrades : db.trades = [])
    (hcash : db.cashTransactions = []) (id : Uuid) :
    InOrder db id ∧ ∀ P, Stamped db id P := by
  refine ⟨⟨?_, ?_⟩, fun P => ⟨?_, ?_⟩⟩ <;> simp [tradesOf, cashTransactionsOf, htrades, hcash]

/-- Two deposits, of which the second to come in is the first to lock the portfolio. -/
def stampedDeposits : List ClockedEvent :=
  ([.arrive (transferCall 2 "CREDIT" 1), .arrive (transferCall 1 "CREDIT" 1), .lookup 0, .lookup 1,
    .fetchPrice 0, .fetchPrice 1, .statement 1, .statement 1, .statement 1] : List Event).map .ledger ++
  [.readClock 1, .ledger (.statement 1), .ledger (.commit 1)] ++
  ([.statement 0, .statement 0, .statement 0] : List Event).map .ledger ++
  [.readClock 0, .ledger (.statement 0), .ledger (.commit 0)]

theorem entries_in_order_stampedDeposits :
    ∃ c, Run (clockedStep .default) (.initial 0 firstPortfolio) stampedDeposits c ∧
      InOrder c.world.db 1 ∧ Stamped c.world.db 1 (· ≤ c.lastReading) := by
  obtain ⟨c, hrun⟩ : ∃ c, Run (clockedStep .default) (.initial 0 firstPortfolio) stampedDeposits c :=
    Option.isSome_iff_exists.mp (by decide +kernel)
  have hempty := @inOrder_of_no_entries firstPortfolio rfl rfl
  exact ⟨c, hrun, entries_in_order .default (fun id => (hempty id).2 _) (fun id => (hempty id).1) hrun 1⟩

end DjasktTrading.Ledger
