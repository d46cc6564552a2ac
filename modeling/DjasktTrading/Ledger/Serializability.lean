import DjasktTrading.Ledger.Interleaving
import DjasktTrading.Reasoning.Reordering

/-!
# Serializability — committed requests, one after another

Commits of different portfolios can be exchanged, so the database that the commits left in the order
they happened is also what they leave in the order in which they locked their portfolios.
-/

open Reasoning

namespace DjasktTrading.Ledger

/-! ## 1. Jobs by portfolio -/

/-- Jobs fall apart by portfolio; their keys can be used once. -/
def ledgerPartition (py : Python) : Partition (jobStep py) Job.portfolioId Job.key where
  agree := AgreeOn
  used db key := key ∈ keys db
  refl := AgreeOn.refl
  symm := AgreeOn.symm
  trans := AgreeOn.trans
  enabled h := by
    obtain ⟨c, -⟩ := jobStep_eq_some h
    exact c.key_free
  used_step h key := by
    obtain ⟨c, rfl⟩ := jobStep_eq_some h
    rw [c.keys_after.mem_iff, List.mem_append, List.mem_singleton]
  frame h id hne := by
    obtain ⟨c, rfl⟩ := jobStep_eq_some h
    exact c.agreeOn_after hne
  transfer := by
    intro db db' job after hagree hunused h
    unfold jobStep at h
    rcases hbody : job.body py db with ⟨e | ⟨entry, portfolio⟩, ws⟩
    · rw [hbody] at h
      cases h
    · rw [hbody] at h
      obtain rfl := Option.some.inj h
      obtain ⟨c, -⟩ := Job.body_eq_ok hbody
      -- it reads its own portfolio's rows and its own key, nothing else
      have hbody' := Job.body_transfer hbody hagree (sameKey_of_notMem c.key_free hunused)
      exact ⟨_, jobStep_of_body hbody', (AgreeOn.stable _).applyAll hagree ws⟩

/-- The same rows in each table. -/
structure SameRows (db db' : Ledger) : Prop where
  portfolios : db.portfolios.Perm db'.portfolios
  positions : db.positions.Perm db'.positions
  trades : db.trades.Perm db'.trades
  cashTransactions : db.cashTransactions.Perm db'.cashTransactions

theorem sameRows_of_agreeOn {db db' : Ledger} (h : ∀ id, AgreeOn id db db') : SameRows db db' where
  portfolios := perm_of_filter_eq Portfolio.id fun id => (h id).portfolios
  positions := perm_of_filter_eq Position.portfolio fun id => (h id).positions
  trades := perm_of_filter_eq Trade.portfolio fun id => (h id).trades
  cashTransactions := perm_of_filter_eq CashTransaction.portfolio fun id => (h id).cashTransactions

/-! ## 2. Calls in place of jobs -/

/-- Make one call on its own; enabled if it commits. -/
def commitCall (py : Python) (db : Ledger) (call : Call) : Option Ledger :=
  match (call.service py).run db with
  | (.ok (.committed _ _), db') => some db'
  | _ => none

theorem commitCall_of_jobStep {py : Python} {db db' : Ledger} {call : Call} {job : Job}
    (hjob : call.job py = .ok job) (h : jobStep py db job = some db') :
    commitCall py db call = some db' := by
  obtain ⟨c, -⟩ := jobStep_eq_some h
  have hnew : existing? db call.request.key = none :=
    existing?_eq_none_iff.mpr ((Call.job_eq_ok hjob).2.2 ▸ c.key_free)
  unfold jobStep at h
  rcases hbody : job.body py db with ⟨e | ⟨entry, portfolio⟩, ws⟩
  · rw [hbody] at h
    cases h
  · rw [hbody] at h
    simp only [commitCall, Call.service_of_body hjob hnew hbody]
    exact h

theorem run_commitCall {py : Python} {calls : List Call} {jobs : List Job}
    (hjobs : List.Forall₂ (fun call job => call.job py = .ok job) calls jobs) {s t : Ledger}
    (h : Run (jobStep py) s jobs t) : Run (commitCall py) s calls t := by
  induction hjobs generalizing s with
  | nil => exact run_nil_iff.mpr (run_nil_iff.mp h)
  | cons hjob _ ih =>
      obtain ⟨u, hstep, hrest⟩ := run_cons_iff.mp h
      exact run_cons_iff.mpr ⟨u, commitCall_of_jobStep hjob hstep, ih hrest⟩

/-! ## 3. Lock order -/

namespace World

/-- The committed transactions, in the order in which they locked their portfolio. -/
def serialOrder (w : World) : List (ℕ × Job) := w.lockOrder.filter (· ∈ w.commits)

/-- The locks taken on one portfolio, in order. -/
def locksOn (w : World) (id : Uuid) : List (ℕ × Job) :=
  w.lockOrder.filter (·.2.portfolioId = id)

/-- The calls behind a list of transactions. -/
def callsOf (w : World) (order : List (ℕ × Job)) : List Call :=
  order.filterMap fun x => (w.requests[x.1]?).map Slot.call

end World

/-- The request has its transaction of `job` open, past the lock of the portfolio. -/
def Phase.Locked (job : Job) : Phase → Prop
  | .inTx job' stage _ => job' = job ∧ stage ≠ .opened
  | _ => False

theorem Phase.early_opened {job job' : Job} {ws : List Write} :
    ¬ ((Phase.inTx job .opened ws).Past ∨ (Phase.inTx job .opened ws).Locked job') := by
  rintro (hpast | ⟨-, hopened⟩)
  · exact hpast
  · exact hopened rfl

/-- Where the transactions stand in the order of locks: an open one is the last to have locked its
portfolio, and the committed ones of a portfolio committed in that order. -/
structure LockInv (w : World) : Prop where
  seen : ∀ x ∈ w.lockOrder, ∃ call phase, w.At x.1 call phase ∧ (phase.Past ∨ phase.Locked x.2)
  latest : ∀ {i call phase job}, w.At i call phase → phase.Locked job →
    ∃ earlier, w.locksOn job.portfolioId = earlier ++ [(i, job)] ∧ (i, job) ∉ earlier
  inOrder : ∀ id, (w.locksOn id).filter (· ∈ w.commits) =
    w.commits.filter (·.2.portfolioId = id)

namespace LockInv

variable {py : Python} {start : Ledger} {w : World}

theorem initial (db : Ledger) : LockInv (.initial db) where
  seen x hx := by cases hx
  latest here := by simp [World.At, World.initial] at here
  inOrder id := rfl

/-- A request that moves on, other than by locking or committing. -/
theorem put (h : LockInv w) {i : ℕ} {call : Call} {phase new : Phase} (here : w.At i call phase)
    (hseen : ∀ job, phase.Past ∨ phase.Locked job → new.Past ∨ new.Locked job)
    (hlatest : ∀ job, new.Locked job → phase.Locked job) : LockInv (w.put i new) where
  seen x hx := by
    obtain ⟨call', phase', there, hphase⟩ := h.seen x hx
    by_cases hix : i = x.1
    · subst hix
      obtain ⟨rfl, rfl⟩ := here.unique there
      exact ⟨call, new, (World.at_put_self here).mpr ⟨rfl, rfl⟩, hseen x.2 hphase⟩
    · exact ⟨call', phase', (World.at_put_of_ne hix).mpr there, hphase⟩
  latest there hlocked := by
    rcases World.at_put_cases here there with ⟨rfl, rfl, rfl⟩ | ⟨-, there⟩
    · exact h.latest here (hlatest _ hlocked)
    · exact h.latest there hlocked
  inOrder := h.inOrder

/-- A request that is over has nothing locked any more. -/
theorem put_past (h : LockInv w) {i : ℕ} {call : Call} {phase new : Phase}
    (here : w.At i call phase) (hpast : new.Past) : LockInv (w.put i new) := by
  refine h.put here (fun _ _ => .inl hpast) fun job hlocked => ?_
  cases new with
  | inTx job' stage ws => exact hpast.elim
  | _ => exact hlocked.elim

/-- A request that has not locked anything yet. -/
theorem put_early (h : LockInv w) {i : ℕ} {call : Call} {phase new : Phase}
    (here : w.At i call phase) (hphase : ¬ phase.Past ∧ ∀ job, ¬ phase.Locked job)
    (hnew : ∀ job, ¬ new.Locked job) : LockInv (w.put i new) := by
  refine h.put here (fun job hold => ?_) fun job hlocked => absurd hlocked (hnew job)
  exact absurd hold (not_or.mpr ⟨hphase.1, hphase.2 job⟩)

theorem arrive (h : LockInv w) (call : Call) :
    LockInv { w with requests := w.requests ++ [{ call, phase := .submitted }] } where
  seen x hx := by
    obtain ⟨call', phase', there, hphase⟩ := h.seen x hx
    exact ⟨call', phase', (World.at_arrive there.lt_length).mpr there, hphase⟩
  latest there hlocked := by
    rcases World.at_arrive_cases there with there | ⟨-, hslot⟩
    · exact h.latest there hlocked
    · cases hslot
      exact hlocked.elim
  inOrder := h.inOrder

/-- Locking a portfolio: nobody else holds it, so the new lock comes last. -/
theorem lock (h : LockInv w) (hinv : Inv py start w) {i : ℕ} {call : Call} {job : Job}
    {stage : Stage} {ws ws' : List Write} (here : w.At i call (.inTx job .opened ws))
    (free : ¬ w.Blocked i (job.needs .opened)) (hstage : stage ≠ .opened) :
    LockInv { w.put i (.inTx job stage ws') with lockOrder := w.lockOrder ++ [(i, job)] } where
  seen x hx := by
    change ∃ call phase, (w.put i _).At x.1 call phase ∧ _
    rcases List.mem_append.mp hx with hx | hx
    · obtain ⟨call', phase', there, hphase⟩ := h.seen x hx
      have hstays : (w.put i (.inTx job stage ws')).At x.1 call' phase' :=
        there.put_of_not (P := fun p => p.Past ∨ p.Locked x.2) hphase here Phase.early_opened
      exact ⟨call', phase', hstays, hphase⟩
    · obtain rfl := List.mem_singleton.mp hx
      exact ⟨call, _, (World.at_put_self here).mpr ⟨rfl, rfl⟩, .inr ⟨rfl, hstage⟩⟩
  latest {_ _ phase' job'} there hlocked := by
    change ∃ earlier, (w.lockOrder ++ [(i, job)]).filter (·.2.portfolioId = job'.portfolioId) = _ ∧ _
    rcases World.at_put_cases here there with ⟨rfl, rfl, rfl⟩ | ⟨hij, there⟩
    · obtain ⟨rfl, -⟩ := hlocked
      refine ⟨w.locksOn job.portfolioId, by simp [World.locksOn], fun hmem => ?_⟩
      obtain ⟨call', phase', there', hphase⟩ := h.seen _ (List.mem_of_mem_filter hmem)
      obtain ⟨rfl, rfl⟩ := here.unique there'
      exact Phase.early_opened hphase
    · -- whoever has locked a portfolio has locked another one
      have hid : job.portfolioId ≠ job'.portfolioId := by
        intro heq
        cases phase' with
        | inTx job'' stage' vs =>
            obtain ⟨rfl, hstage'⟩ := hlocked
            apply World.notMem_of_not_blocked free there (Ne.symm hij)
              (List.mem_singleton_self (Resource.portfolioRow job.portfolioId))
            rw [heq]
            exact Job.portfolioRow_mem_holds hstage'
        | _ => exact hlocked
      obtain ⟨earlier, hlocks, hnew⟩ := h.latest there hlocked
      refine ⟨earlier, ?_, hnew⟩
      rw [List.filter_append, ← hlocks, World.locksOn]
      simp [hid]
  inOrder id := by
    change ((w.lockOrder ++ [(i, job)]).filter (·.2.portfolioId = id)).filter (· ∈ w.commits) =
      w.commits.filter (·.2.portfolioId = id)
    have hnew := hinv.notMem_commits here not_false job
    rw [List.filter_append, List.filter_append, ← h.inOrder id, World.locksOn]
    by_cases hid : job.portfolioId = id <;> simp [hid, hnew]

/-- Committing: the transaction was the last to lock its portfolio. -/
theorem commit (h : LockInv w) (hinv : Inv py start w) {i : ℕ} {call : Call} {job : Job}
    {entry : Entry} {portfolio : PortfolioInstance} {ws : List Write}
    (here : w.At i call (.inTx job (.recorded entry portfolio) ws)) (db : Ledger) :
    LockInv { w.put i (.committed entry portfolio) with
      db, commits := w.commits ++ [(i, job)] } where
  seen :=
    have hput : LockInv (w.put i (.committed entry portfolio)) := h.put_past here trivial
    hput.seen
  latest :=
    have hput : LockInv (w.put i (.committed entry portfolio)) := h.put_past here trivial
    hput.latest
  inOrder id := by
    change (w.locksOn id).filter (· ∈ w.commits ++ [(i, job)]) =
      (w.commits ++ [(i, job)]).filter (·.2.portfolioId = id)
    have hnew := hinv.notMem_commits here not_false job
    by_cases hid : job.portfolioId = id
    · -- on its own portfolio the new commit comes last in both orders
      subst hid
      obtain ⟨earlier, hlocks, hearlier⟩ := h.latest here ⟨rfl, nofun⟩
      have hold := h.inOrder job.portfolioId
      rw [hlocks, List.filter_append] at hold ⊢
      rw [List.filter_append (w.commits), ← hold]
      have hkeep : earlier.filter (· ∈ w.commits ++ [(i, job)]) =
          earlier.filter (· ∈ w.commits) := by
        apply List.filter_congr
        intro x hx
        have hne : x ≠ (i, job) := fun heq => hearlier (heq ▸ hx)
        simp [hne]
      rw [hkeep]
      simp [hnew]
    · -- on any other nothing changes
      rw [List.filter_append, ← h.inOrder id]
      have hnone : [(i, job)].filter (·.2.portfolioId = id) = [] := by simp [hid]
      rw [hnone, List.append_nil]
      apply List.filter_congr
      intro x hx
      have hne : x ≠ (i, job) := by
        rintro rfl
        exact hid (by simpa using (List.mem_filter.mp hx).2)
      simp [hne]

/-- A statement past the lock, or the lock itself. -/
theorem ran (h : LockInv w) (hinv : Inv py start w) {i : ℕ} {call : Call} {job : Job}
    {stage stage' : Stage} {ws vs : List Write} (here : w.At i call (.inTx job stage ws))
    (free : ¬ w.Blocked i (job.needs stage))
    (returned : job.advance py stage (applyAll w.db ws) = (.ok stage', vs)) :
    LockInv { w.put i (.inTx job stage' (ws ++ vs)) with
      lockOrder := w.lockOrder ++ if stage = .opened then [(i, job)] else [] } := by
  have hnext : stage' ≠ .opened := by
    rintro rfl
    cases Job.advance_eq_ok returned
  by_cases hopened : stage = .opened
  · subst hopened
    rw [if_pos rfl]
    exact h.lock hinv here free hnext
  · rw [if_neg hopened, List.append_nil]
    apply h.put here
    · rintro job' (hpast | ⟨rfl, -⟩)
      · exact hpast.elim
      · exact .inr ⟨rfl, hnext⟩
    · rintro job' ⟨rfl, -⟩
      exact ⟨rfl, hopened⟩

theorem step (h : LockInv w) (hinv : Inv py start w) {e : Event} {w' : World}
    (hstep : Ledger.step py w e = some w') : LockInv w' := by
  cases step_fires hstep with
  | arrive call => exact h.arrive call
  | @lookup i call here =>
      apply h.put_early here ⟨not_false, fun _ => not_false⟩
      have houtside := Call.lookup_outside py w.db call
      intro job hlocked
      cases hnew : call.lookup py w.db with
      | inTx job' stage ws => exact (hnew ▸ houtside).elim
      | _ => exact (hnew ▸ hlocked).elim
  | priced here opened =>
      exact h.put_early here ⟨not_false, fun _ => not_false⟩ fun _ hlocked => hlocked.2 rfl
  | unpriced here refused => exact h.put_past here trivial
  | ran here left free returned => exact h.ran hinv here free returned
  | raised here free threw => exact h.put_past here trivial
  | commit here => exact h.commit hinv here _
  | fail here early => exact h.put_past here trivial
  | skipBroadcast here => exact h.put_past here trivial
  | reread here => exact h.put_past here trivial
  | rereadFails here => exact h.put_past here trivial
  | @groupSend i call entry portfolio message here =>
      have hput : LockInv (w.put i (.done (.ok (.committed entry portfolio)))) :=
        h.put_past here trivial
      exact ⟨hput.seen, hput.latest, hput.inOrder⟩
  | groupSendFails here => exact h.put_past here trivial

theorem of_run {es : List Event} (hrun : Run (Ledger.step py) (.initial start) es w) :
    LockInv w :=
  (hrun.invariant (I := fun v => Inv py start v ∧ LockInv v) ⟨Inv.initial py start, initial start⟩
    fun _ _ _ hv hstep => ⟨hv.1.step hstep, hv.2.step hv.1 hstep⟩).2

/-- By portfolio, lock order and commit order are one. -/
theorem filter_serialOrder (h : LockInv w) (id : Uuid) :
    w.serialOrder.filter (·.2.portfolioId = id) = w.commits.filter (·.2.portfolioId = id) := by
  rw [← h.inOrder id, World.serialOrder, World.locksOn, List.filter_comm]

theorem serialOrder_perm (h : LockInv w) : w.serialOrder.Perm w.commits :=
  perm_of_filter_eq (fun x : ℕ × Job => x.2.portfolioId) h.filter_serialOrder

end LockInv

/-! ## 4. Runs -/

/-- The calls behind committed transactions are the calls that opened them. -/
theorem Inv.callsOf_jobs {py : Python} {start : Ledger} {w : World} (h : Inv py start w)
    {order : List (ℕ × Job)} (horder : ∀ x ∈ order, x ∈ w.commits) :
    List.Forall₂ (fun call job => call.job py = .ok job) (w.callsOf order) (order.map Prod.snd) := by
  induction order with
  | nil => exact .nil
  | cons x order ih =>
      obtain ⟨call, phase, there, hjob, -⟩ := h.committed x (horder x List.mem_cons_self)
      have hcalls : w.callsOf (x :: order) = call :: w.callsOf order := by
        unfold World.At at there
        simp [World.callsOf, there]
      rw [hcalls, List.map_cons]
      exact .cons hjob (ih fun y hy => horder y (List.mem_cons_of_mem x hy))

/-- **Serializability.**  Whatever the interleaving, the committed requests run on their own in the
order in which they locked their portfolios: each commits again, and together they leave the rows
that the interleaving left. -/
theorem serializable (py : Python) {start : Ledger} {es : List Event} {w : World}
    (hrun : Run (step py) (.initial start) es w) :
    w.serialOrder.Perm w.commits ∧
      ∃ db, Run (commitCall py) start (w.callsOf w.serialOrder) db ∧ SameRows w.db db := by
  have hinv := Inv.of_run hrun
  have hlock := LockInv.of_run hrun
  refine ⟨hlock.serialOrder_perm, ?_⟩
  -- on each portfolio the two orders agree
  have hfilter : ∀ id, (w.serialOrder.map Prod.snd).filter (·.portfolioId = id) =
      (w.commits.map Prod.snd).filter (·.portfolioId = id) := by
    intro id
    rw [List.filter_map, List.filter_map]
    exact congrArg (List.map Prod.snd) (hlock.filter_serialOrder id)
  obtain ⟨db, hdb, hagree⟩ := (ledgerPartition py).reorder hinv.serial hfilter
  refine ⟨db, run_commitCall (hinv.callsOf_jobs fun x hx => ?_) hdb, sameRows_of_agreeOn hagree⟩
  simpa using (List.mem_filter.mp hx).2

/-- Two deposits whose lookups both come first. -/
def twoDeposits : List Event :=
  [.arrive (transferCall 1 "CREDIT" 1), .arrive (transferCall 2 "CREDIT" 2), .lookup 0, .lookup 1,
   .fetchPrice 0, .fetchPrice 1, .statement 1, .statement 1, .statement 1, .statement 1, .commit 1,
   .statement 0, .statement 0, .statement 0, .statement 0, .commit 0]

theorem exists_run_twoDeposits :
    ∃ w, Run (step .default) (.initial firstPortfolio) twoDeposits w :=
  Option.isSome_iff_exists.mp (by decide +kernel)

theorem serializable_twoDeposits :
    ∃ w, Run (step .default) (.initial firstPortfolio) twoDeposits w ∧
      w.serialOrder.Perm w.commits ∧
        ∃ db, Run (commitCall .default) firstPortfolio (w.callsOf w.serialOrder) db ∧
          SameRows w.db db := by
  obtain ⟨w, hrun⟩ := exists_run_twoDeposits
  exact ⟨w, hrun, serializable .default hrun⟩

/-- **No overdraft, no overselling.**  Whatever the interleaving, no stored balance or quantity is
negative and no ticker has two position rows. -/
theorem solvent_of_run (py : Python) {start : Ledger} (hstart : ∀ id, Solvent start id)
    {es : List Event} {w : World} (hrun : Run (step py) (.initial start) es w) (id : Uuid) :
    Solvent w.db id := by
  have hinv := Inv.of_run hrun
  -- the commits, one after another, are a run of jobs that have passed their checks
  have hpositive : ∀ job ∈ w.commits.map Prod.snd, job.Positive := by
    intro job hjob
    obtain ⟨x, hx, rfl⟩ := List.mem_map.mp hjob
    obtain ⟨call, phase, -, hcall, -⟩ := hinv.committed x hx
    exact Call.job_positive hcall
  refine hinv.serial.induction
    (motive := fun jobs db => (∀ job ∈ jobs, job.Positive) → Solvent db id) ?_ ?_ hpositive
  · exact fun _ => hstart id
  · intro jobs db job db' _ ih hstep hjobs
    obtain ⟨c, rfl⟩ := jobStep_eq_some hstep
    exact c.solvent_after (hjobs job (by simp))
      (ih fun job' hjob' => hjobs job' (List.mem_append_left _ hjob'))

theorem solvent_of_run_twoDeposits :
    ∃ w, Run (step .default) (.initial firstPortfolio) twoDeposits w ∧ Solvent w.db 1 := by
  obtain ⟨w, hrun⟩ := exists_run_twoDeposits
  exact ⟨w, hrun, solvent_of_run .default firstPortfolio_solvent hrun 1⟩

end DjasktTrading.Ledger
