import DjasktTrading.Ledger.Concurrency
import DjasktTrading.Ledger.Solvency
import DjasktTrading.Reasoning.Slots

/-!
# Interleaving — every reachable database is the result of its commits, in commit order

The invariant: the committed rows are what running the committed jobs one after another gives; and
whatever an open transaction has done so far, it would have done the same way against the rows that
are committed now, because nobody else can have touched its portfolio or its key.
-/

open Reasoning

namespace DjasktTrading.Ledger

/-! ## 1. Requests of a world -/

namespace World

variable {w : World} {i j : ℕ} {call call' : Call} {phase phase' : Phase}

theorem at_put_self (here : w.At i call phase) {new : Phase} :
    (w.put i new).At i call' phase' ↔ call' = call ∧ phase' = new := by
  unfold At at here
  simp only [At, put, List.getElem?_modify, here, if_true, Option.map_eq_map, Option.map_some,
    Option.some.injEq, Slot.mk.injEq]
  constructor <;> rintro ⟨rfl, rfl⟩ <;> exact ⟨rfl, rfl⟩

theorem at_put_of_ne (hne : i ≠ j) {new : Phase} :
    (w.put i new).At j call' phase' ↔ w.At j call' phase' := by
  simp only [At, put, List.getElem?_modify, hne, if_false, Option.map_eq_map, Option.map_id']

/-- When request `i` has moved on, a request is that one, at its new phase, or it has not moved. -/
theorem at_put_cases (here : w.At i call phase) {new : Phase}
    (there : (w.put i new).At j call' phase') :
    (i = j ∧ call' = call ∧ phase' = new) ∨ (i ≠ j ∧ w.At j call' phase') := by
  by_cases hij : i = j
  · subst hij
    exact .inl ⟨rfl, (at_put_self here).mp there⟩
  · exact .inr ⟨hij, (at_put_of_ne hij).mp there⟩

theorem At.lt_length (here : w.At i call phase) : i < w.requests.length :=
  (List.getElem?_eq_some_iff.mp here).1

theorem At.unique (here : w.At i call phase) (here' : w.At i call' phase') :
    call = call' ∧ phase = phase' := by
  simpa [At] using here.symm.trans here'

/-- A request that something is true of, as it is not of request `i`, does not move with `i`. -/
theorem At.put_of_not {P : Phase → Prop} (there : w.At j call' phase') (hP : P phase')
    (here : w.At i call phase) (hnot : ¬ P phase) {new : Phase} :
    (w.put i new).At j call' phase' := by
  have hij : i ≠ j := by
    rintro rfl
    obtain ⟨rfl, rfl⟩ := here.unique there
    exact hnot hP
  exact (at_put_of_ne hij).mpr there

/-- A request at a phase that nobody has just moved to was there before. -/
theorem At.of_put (here : w.At i call phase) {new : Phase} (there : (w.put i new).At j call' phase')
    (hnew : new ≠ phase') : w.At j call' phase' := by
  rcases at_put_cases here there with ⟨-, -, hphase⟩ | ⟨-, there⟩
  · exact absurd hphase.symm hnew
  · exact there

theorem At.heldBy {job : Job} {stage : Stage} {ws : List Write}
    (here : w.At j call (.inTx job stage ws)) : w.heldBy j = job.holds stage := by
  unfold World.At at here
  simp only [World.heldBy, here, Option.map_some]

/-- A request that is not blocked needs nothing that another transaction holds. -/
theorem notMem_of_not_blocked {needs : List Resource} (free : ¬ w.Blocked i needs) {job : Job}
    {stage : Stage} {ws : List Write} (here : w.At j call (.inTx job stage ws)) (hne : j ≠ i)
    {r : Resource} (hr : r ∈ needs) : r ∉ job.holds stage := by
  intro hheld
  exact free ⟨j, here.lt_length, hne, r, hr, here.heldBy ▸ hheld⟩

/-- A request that arrives is none of those that are there. -/
theorem at_arrive (hne : i < w.requests.length) {slot : Slot} :
    World.At { w with requests := w.requests ++ [slot] } i call phase ↔ w.At i call phase := by
  unfold At
  rw [List.getElem?_append_left hne]

theorem at_arrive_cases {slot : Slot}
    (here : World.At { w with requests := w.requests ++ [slot] } i call phase) :
    w.At i call phase ∨ (i = w.requests.length ∧ slot = ⟨call, phase⟩) := by
  unfold At at here
  exact getElem?_append_singleton_cases here

end World

/-- The request has left its transaction, or will never have one. -/
def Phase.Past : Phase → Prop
  | .submitted => False
  | .missed => False
  | .inTx _ _ _ => False
  | .committed _ _ => True
  | .sending _ _ _ => True
  | .done _ => True

/-- The request holds no transaction. -/
def Phase.Outside : Phase → Prop
  | .inTx _ _ _ => False
  | _ => True

theorem Call.lookup_outside (py : Python) (db : Ledger) (call : Call) :
    (call.lookup py db).Outside := by
  unfold Call.lookup
  split
  · trivial
  · split <;> trivial

/-! ## 2. The invariant -/

theorem Job.portfolioRow_mem_holds {job : Job} {stage : Stage} (h : stage ≠ .opened) :
    Resource.portfolioRow job.portfolioId ∈ job.holds stage := by
  cases stage with
  | opened => exact absurd rfl h
  | locked row => exact List.mem_singleton_self _
  | adjusted portfolio position => exact List.mem_cons_self
  | saved portfolio => exact List.mem_cons_self
  | recorded entry portfolio => exact List.mem_cons_of_mem _ List.mem_cons_self

theorem Reaches.opened_writes {py : Python} {job : Job} {db : Ledger} {ws : List Write}
    (h : Reaches py job db .opened ws) : ws = [] := by
  cases h with
  | opened => rfl
  | step before ran => cases Job.advance_eq_ok ran

structure Inv (py : Python) (start : Ledger) (w : World) : Prop where
  serial : Run (jobStep py) start (w.commits.map Prod.snd) w.db
  running : ∀ {i call job stage ws}, w.At i call (.inTx job stage ws) →
    call.job py = .ok job ∧ Reaches py job w.db stage ws
  exclusive : ∀ {i j call call' job job' stage stage' ws ws'}, w.At i call (.inTx job stage ws) →
    w.At j call' (.inTx job' stage' ws') → i ≠ j → ∀ r ∈ job.holds stage, r ∉ job'.holds stage'
  committed : ∀ x ∈ w.commits, ∃ call phase, w.At x.1 call phase ∧ call.job py = .ok x.2 ∧
    phase.Past

namespace Inv

variable {py : Python} {start : Ledger} {w : World}

theorem initial (py : Python) (start : Ledger) : Inv py start (.initial start) where
  serial := run_nil_iff.mpr rfl
  running here := by simp [World.At, World.initial] at here
  exclusive here := by simp [World.At, World.initial] at here
  committed x hx := by simp [World.initial] at hx

/-- A request that moves on without a transaction. -/
theorem put (h : Inv py start w) {i : ℕ} {call : Call} {phase new : Phase}
    (here : w.At i call phase) (hnew : new.Outside)
    (hpast : phase.Past → new.Past) : Inv py start (w.put i new) where
  serial := h.serial
  running there := by
    rcases World.at_put_cases here there with ⟨rfl, rfl, rfl⟩ | ⟨-, there⟩
    · exact hnew.elim
    · exact h.running there
  exclusive hj hk hne := by
    rcases World.at_put_cases here hj with ⟨rfl, rfl, rfl⟩ | ⟨-, hj⟩
    · exact hnew.elim
    · rcases World.at_put_cases here hk with ⟨rfl, rfl, rfl⟩ | ⟨-, hk⟩
      · exact hnew.elim
      · exact h.exclusive hj hk hne
  committed x hx := by
    obtain ⟨call', phase', there, hjob, hended⟩ := h.committed x hx
    by_cases hix : i = x.1
    · subst hix
      obtain ⟨rfl, rfl⟩ := here.unique there
      exact ⟨call, new, (World.at_put_self here).mpr ⟨rfl, rfl⟩, hjob, hpast hended⟩
    · exact ⟨call', phase', (World.at_put_of_ne hix).mpr there, hjob, hended⟩

/-- An open transaction has not committed. -/
theorem notMem_commits (h : Inv py start w) {i : ℕ} {call : Call} {phase : Phase}
    (here : w.At i call phase) (hphase : ¬ phase.Past) (job : Job) : (i, job) ∉ w.commits := by
  intro hmem
  obtain ⟨call', phase', there, -, hpast⟩ := h.committed _ hmem
  obtain ⟨rfl, rfl⟩ := here.unique there
  exact hphase hpast

theorem arrive (h : Inv py start w) (call : Call) :
    Inv py start { w with requests := w.requests ++ [{ call, phase := .submitted }] } where
  serial := h.serial
  running there := by
    rcases World.at_arrive_cases there with there | ⟨-, hslot⟩
    · exact h.running there
    · cases hslot
  exclusive hj hk hne := by
    rcases World.at_arrive_cases hj with hj | ⟨-, hslot⟩
    · rcases World.at_arrive_cases hk with hk | ⟨-, hslot⟩
      · exact h.exclusive hj hk hne
      · cases hslot
    · cases hslot
  committed x hx := by
    obtain ⟨call', phase', there, hrest⟩ := h.committed x hx
    exact ⟨call', phase', (World.at_arrive there.lt_length).mpr there, hrest⟩

/-- A request that enters its transaction holds nothing yet. -/
theorem priced (h : Inv py start w) {i : ℕ} {call : Call} {job : Job} (here : w.At i call .missed)
    (hjob : call.job py = .ok job) : Inv py start (w.put i (.inTx job .opened [])) where
  serial := h.serial
  running there := by
    rcases World.at_put_cases here there with ⟨rfl, rfl, hphase⟩ | ⟨-, there⟩
    · cases hphase
      exact ⟨hjob, .opened⟩
    · exact h.running there
  exclusive hj hk hne r hr := by
    rcases World.at_put_cases here hj with ⟨rfl, rfl, hphase⟩ | ⟨-, hj⟩
    · cases hphase
      cases hr
    · rcases World.at_put_cases here hk with ⟨rfl, rfl, hphase⟩ | ⟨-, hk⟩
      · cases hphase
        nofun
      · exact h.exclusive hj hk hne r hr
  committed x hx := by
    obtain ⟨call', phase', there, hjob', hpast⟩ := h.committed x hx
    exact ⟨call', phase', there.put_of_not hpast here not_false, hjob', hpast⟩

/-- A statement runs on, and acquires only what nobody else holds. -/
theorem ran (h : Inv py start w) {i : ℕ} {call : Call} {job : Job} {stage stage' : Stage}
    {ws vs : List Write} (here : w.At i call (.inTx job stage ws))
    (free : ¬ w.Blocked i (job.needs stage))
    (returned : job.advance py stage (applyAll w.db ws) = (.ok stage', vs))
    (lockOrder : List (ℕ × Job)) :
    Inv py start { w.put i (.inTx job stage' (ws ++ vs)) with lockOrder } where
  serial := h.serial
  running there := by
    rcases World.at_put_cases here there with ⟨rfl, rfl, hphase⟩ | ⟨-, there⟩
    · cases hphase
      exact ⟨(h.running here).1, (h.running here).2.step returned⟩
    · exact h.running there
  exclusive hj hk hne r hr := by
    have hadvances := Job.advance_eq_ok returned
    -- what the mover holds now it has held before, or it has just waited for
    rcases World.at_put_cases here hj with ⟨rfl, rfl, hphase⟩ | ⟨hij, hj⟩
    · cases hphase
      have hk := (World.at_put_of_ne hne).mp hk
      rcases Job.holds_advance hadvances hr with hold | hneed
      · exact h.exclusive here hk hne r hold
      · exact World.notMem_of_not_blocked free hk hne.symm hneed
    · rcases World.at_put_cases here hk with ⟨rfl, rfl, hphase⟩ | ⟨-, hk⟩
      · cases hphase
        intro hr'
        rcases Job.holds_advance hadvances hr' with hold | hneed
        · exact h.exclusive hj here hne r hr hold
        · exact World.notMem_of_not_blocked free hj hne hneed hr
      · exact h.exclusive hj hk hne r hr
  committed x hx := by
    obtain ⟨call', phase', there, hjob', hpast⟩ := h.committed x hx
    exact ⟨call', phase', there.put_of_not hpast here not_false, hjob', hpast⟩

/-- Another transaction would have run the same way against what a commit leaves. -/
theorem reaches_commit (h : Inv py start w) {i j : ℕ} {call call' : Call} {job job' : Job}
    {entry : Entry} {portfolio : PortfolioInstance} {stage : Stage} {ws ws' : List Write}
    (here : w.At i call (.inTx job (.recorded entry portfolio) ws))
    (there : w.At j call' (.inTx job' stage ws')) (hne : i ≠ j) :
    Reaches py job' (applyAll w.db ws) stage ws' := by
  have hreaches := (h.running there).2
  obtain ⟨c, -, -, rfl⟩ := Job.body_eq_ok (h.running here).2.body_of_recorded
  by_cases hopened : stage = .opened
  · subst hopened
    rw [hreaches.opened_writes]
    exact .opened
  -- both have locked their portfolio, so it is not the same
  have hid : job'.portfolioId ≠ job.portfolioId := by
    intro heq
    apply h.exclusive here there hne _ (Job.portfolioRow_mem_holds nofun)
    rw [← heq]
    exact Job.portfolioRow_mem_holds hopened
  have hagree : AgreeOn job'.portfolioId w.db c.after := (c.agreeOn_after hid).symm
  by_cases hrecorded : ∃ entry portfolio, stage = .recorded entry portfolio
  · -- both keys are inserted, so they differ
    obtain ⟨entry', portfolio', rfl⟩ := hrecorded
    obtain ⟨c', -⟩ := Job.body_eq_ok hreaches.body_of_recorded
    have hkey : job'.key ≠ job.key := by
      intro heq
      apply h.exclusive here there hne (.uniqueKey job.key) List.mem_cons_self
      rw [← heq]
      exact List.mem_cons_self
    apply hreaches.transfer_of_sameKey hagree (sameKey_of_notMem c'.key_free _)
    rw [c.keys_after.mem_iff, List.mem_append, List.mem_singleton, not_or]
    exact ⟨c'.key_free, hkey⟩
  · exact hreaches.transfer hagree fun entry portfolio heq => hrecorded ⟨entry, portfolio, heq⟩

theorem commit (h : Inv py start w) {i : ℕ} {call : Call} {job : Job} {entry : Entry}
    {portfolio : PortfolioInstance} {ws : List Write}
    (here : w.At i call (.inTx job (.recorded entry portfolio) ws)) :
    Inv py start { w.put i (.committed entry portfolio) with
      db := applyAll w.db ws, commits := w.commits ++ [(i, job)] } where
  serial := by
    change Run _ _ ((w.commits ++ [(i, job)]).map Prod.snd) (applyAll w.db ws)
    rw [List.map_append]
    exact run_concat_iff.mpr ⟨w.db, h.serial, jobStep_of_body (h.running here).2.body_of_recorded⟩
  running there := by
    rcases World.at_put_cases here there with ⟨-, -, hphase⟩ | ⟨hij, there⟩
    · cases hphase
    · exact ⟨(h.running there).1, h.reaches_commit here there hij⟩
  exclusive hj hk hne := by
    rcases World.at_put_cases here hj with ⟨-, -, hphase⟩ | ⟨-, hj⟩
    · cases hphase
    · rcases World.at_put_cases here hk with ⟨-, -, hphase⟩ | ⟨-, hk⟩
      · cases hphase
      · exact h.exclusive hj hk hne
  committed x hx := by
    change ∃ call phase, (w.put i _).At x.1 call phase ∧ _
    rcases List.mem_append.mp hx with hx | hx
    · obtain ⟨call', phase', there, hjob', hpast⟩ := h.committed x hx
      exact ⟨call', phase', there.put_of_not hpast here not_false, hjob', hpast⟩
    · obtain rfl := List.mem_singleton.mp hx
      exact ⟨call, _, (World.at_put_self here).mpr ⟨rfl, rfl⟩, (h.running here).1, trivial⟩

/-- One step keeps the invariant. -/
theorem step (h : Inv py start w) {e : Event} {w' : World} (hstep : step py w e = some w') :
    Inv py start w' := by
  cases step_fires hstep with
  | arrive call => exact h.arrive call
  | lookup here => exact h.put here (Call.lookup_outside py w.db _) fun hpast => hpast.elim
  | priced here opened => exact h.priced here opened
  | unpriced here refused => exact h.put here trivial fun _ => trivial
  | ran here left free returned => exact h.ran here free returned _
  | raised here free threw => exact h.put here trivial fun _ => trivial
  | commit here => exact h.commit here
  | fail here early => exact h.put here trivial fun _ => trivial
  | skipBroadcast here => exact h.put here trivial fun _ => trivial
  | reread here => exact h.put here trivial fun _ => trivial
  | rereadFails here => exact h.put here trivial fun _ => trivial
  | @groupSend i call entry portfolio message here =>
      have hput : Inv py start (w.put i (.done (.ok (.committed entry portfolio)))) :=
        h.put here trivial fun _ => trivial
      exact ⟨hput.serial, hput.running, hput.exclusive, hput.committed⟩
  | groupSendFails here => exact h.put here trivial fun _ => trivial

/-- Every reachable world satisfies it. -/
theorem of_run {es : List Event} (hrun : Run (Ledger.step py) (.initial start) es w) :
    Inv py start w :=
  hrun.invariant (initial py start) fun _ _ _ ht hstep => ht.step hstep

end Inv

/-! ## 3. What a run keeps -/

section Keeps

variable {py : Python} {start : Ledger} {w w' : World} {e : Event} {es : List Event}

/-- How far a request has come. -/
def Phase.rank : Phase → ℕ
  | .submitted => 0
  | .missed => 1
  | .inTx _ _ _ => 2
  | .committed _ _ => 3
  | .sending _ _ _ => 4
  | .done _ => 5

/-- Every step moves at most one request, forward, and none that is over. -/
theorem step_rank {j : ℕ} {call : Call} {phase : Phase} (hstep : step py w e = some w')
    (there : w.At j call phase) :
    ∃ phase', w'.At j call phase' ∧
      (phase' = phase ∨ phase.rank < 5 ∧ phase.rank ≤ phase'.rank) := by
  have aux {i : ℕ} {call' : Call} {old new : Phase} (here : w.At i call' old)
      (hforward : old.rank < 5 ∧ old.rank ≤ new.rank) :
      ∃ phase', (w.put i new).At j call phase' ∧
        (phase' = phase ∨ phase.rank < 5 ∧ phase.rank ≤ phase'.rank) := by
    by_cases hij : i = j
    · subst hij
      obtain ⟨rfl, rfl⟩ := here.unique there
      exact ⟨new, (World.at_put_self here).mpr ⟨rfl, rfl⟩, .inr hforward⟩
    · exact ⟨phase, (World.at_put_of_ne hij).mpr there, .inl rfl⟩
  cases step_fires hstep with
  | arrive => exact ⟨phase, (World.at_arrive there.lt_length).mpr there, .inl rfl⟩
  | lookup here => exact aux here (by simp [Phase.rank])
  | priced here => exact aux here (by simp [Phase.rank])
  | unpriced here => exact aux here (by simp [Phase.rank])
  | ran here => exact aux here (by simp [Phase.rank])
  | raised here => exact aux here (by simp [Phase.rank])
  | commit here => exact aux here (by simp [Phase.rank])
  | fail here early =>
      apply aux here
      rcases early with rfl | rfl | ⟨job, stage, ws, rfl⟩ <;> simp [Phase.rank]
  | skipBroadcast here => exact aux here (by simp [Phase.rank])
  | reread here => exact aux here (by simp [Phase.rank])
  | rereadFails here => exact aux here (by simp [Phase.rank])
  | groupSend here => exact aux here (by simp [Phase.rank])
  | groupSendFails here => exact aux here (by simp [Phase.rank])

theorem step_at {j : ℕ} {call : Call} {phase : Phase} (hstep : step py w e = some w')
    (there : w.At j call phase) :
    ∃ phase', w'.At j call phase' ∧ ∀ outcome, phase = .done outcome → phase' = .done outcome := by
  obtain ⟨phase', hat, hrank⟩ := step_rank hstep there
  refine ⟨phase', hat, ?_⟩
  rintro outcome rfl
  rcases hrank with hsame | ⟨hlt, -⟩
  · exact hsame
  · exact absurd hlt (lt_irrefl 5)

theorem run_at (hrun : Run (step py) w es w') {j : ℕ} {call : Call} {phase : Phase}
    (there : w.At j call phase) :
    ∃ phase', w'.At j call phase' ∧ ∀ outcome, phase = .done outcome → phase' = .done outcome :=
  hrun.invariant
    (I := fun v => ∃ phase', v.At j call phase' ∧
      ∀ outcome, phase = .done outcome → phase' = .done outcome)
    ⟨phase, there, fun _ heq => heq⟩ fun _ _ _ ⟨_, hat, hdone⟩ hstep =>
      have ⟨phase'', hat', hdone'⟩ := step_at hstep hat
      ⟨phase'', hat', fun outcome heq => hdone' outcome (hdone outcome heq)⟩

/-- Commits are only ever added. -/
theorem run_commits (hrun : Run (step py) w es w') : w.commits <+: w'.commits := by
  refine hrun.invariant (I := fun v => w.commits <+: v.commits) (List.prefix_refl _) ?_
  intro v e u hv hstep
  cases step_fires hstep with
  | commit here => exact hv.trans (List.prefix_append _ _)
  | _ => exact hv

theorem find?_append_of_some {α : Type} {rows news : List α} {p : α → Bool} {row : α}
    (h : rows.find? p = some row) : (rows ++ news).find? p = some row := by
  rw [List.find?_append, h, Option.some_or]

theorem existing?_after {db : Ledger} {job : Job} (c : job.Commit py db) {key : Key} {row : Entry}
    (h : existing? db key = some row) : existing? c.after key = some row := by
  cases key with
  | trade key =>
      obtain ⟨t, ht, rfl⟩ := Option.map_eq_some_iff.mp h
      cases c with
      | trade fresh c =>
          have hafter : tradeByKey? (c.after fresh) key = some t := by
            rw [tradeByKey?, c.trades_after]
            exact find?_append_of_some ht
          exact congrArg (Option.map _) hafter
      | transfer fresh c => exact congrArg (Option.map _) ht
  | cashTransaction key =>
      obtain ⟨t, ht, rfl⟩ := Option.map_eq_some_iff.mp h
      cases c with
      | trade fresh c =>
          have hafter : cashTransactionByKey? (c.after fresh) key = some t := by
            rw [cashTransactionByKey?, c.cashTransactions_after]
            exact ht
          exact congrArg (Option.map _) hafter
      | transfer fresh c =>
          have hafter : cashTransactionByKey? (c.after fresh) key = some t := by
            rw [cashTransactionByKey?, c.cashTransactions_after]
            exact find?_append_of_some ht
          exact congrArg (Option.map _) hafter

/-- A stored entry stays the answer to its key. -/
theorem run_existing? (hinv : Inv py start w) (hrun : Run (step py) w es w') {key : Key}
    {row : Entry} (h : existing? w.db key = some row) : existing? w'.db key = some row := by
  refine (hrun.invariant (I := fun v => Inv py start v ∧ existing? v.db key = some row)
    ⟨hinv, h⟩ ?_).2
  rintro v e u ⟨hv, hrow⟩ hstep
  refine ⟨hv.step hstep, ?_⟩
  cases step_fires hstep with
  | commit here =>
      obtain ⟨c, -, -, rfl⟩ := Job.body_eq_ok (hv.running here).2.body_of_recorded
      exact existing?_after c hrow
  | _ => exact hrow

end Keeps

end DjasktTrading.Ledger
