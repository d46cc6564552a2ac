import DjasktTrading.Ledger.Interleaving

/-!
# Broadcasts — from a commit to the message about it

What one step can do to the rows, to the requests between commit and send, and to the messages; and
what a message in any reachable world is about.
-/

open Reasoning

namespace DjasktTrading.Ledger

/-! ## 1. What a step can do -/

section Step

variable {py : Python} {w w' : World} {e : Event} {j : ℕ} {call : Call} {entry : Entry}
  {portfolio : PortfolioInstance} {message : Broadcast}

/-- Only a commit changes rows. -/
theorem db_of_step (hstep : step py w e = some w') :
    (w'.db = w.db ∧ w'.commits = w.commits) ∨
      ∃ i call job entry portfolio ws, e = .commit i ∧
        w.At i call (.inTx job (.recorded entry portfolio) ws) ∧
        w'.db = applyAll w.db ws ∧ w'.commits = w.commits ++ [(i, job)] := by
  cases step_fires hstep with
  | commit here => exact .inr ⟨_, _, _, _, _, _, rfl, here, rfl, rfl⟩
  | _ => exact .inl ⟨rfl, rfl⟩

/-- A commit applies what its own transaction has written. -/
theorem db_of_commit {i : ℕ} {job : Job} {ws : List Write}
    (hstep : step py w (.commit i) = some w')
    (here : w.At i call (.inTx job (.recorded entry portfolio) ws)) :
    w'.db = applyAll w.db ws ∧ w'.commits = w.commits ++ [(i, job)] := by
  cases step_fires hstep with
  | commit here' =>
      obtain ⟨-, hphase⟩ := here.unique here'
      cases hphase
      exact ⟨rfl, rfl⟩

theorem sent_of_step (hstep : step py w e = some w') :
    w'.sent = w.sent ∨
      ∃ i call entry portfolio message, e = .groupSend i ∧
        w.At i call (.sending entry portfolio message) ∧ w'.sent = w.sent ++ [(i, message)] := by
  cases step_fires hstep with
  | groupSend here => exact .inr ⟨_, _, _, _, _, rfl, here, rfl⟩
  | _ => exact .inl rfl

theorem Call.lookup_ne_committed (py : Python) (db : Ledger) (call : Call) :
    call.lookup py db ≠ .committed entry portfolio := by
  unfold Call.lookup
  split
  · nofun
  · split <;> nofun

theorem Call.lookup_ne_sending (py : Python) (db : Ledger) (call : Call) :
    call.lookup py db ≠ .sending entry portfolio message := by
  unfold Call.lookup
  split
  · nofun
  · split <;> nofun

/-- A request between commit and re-read was there before, or has just committed. -/
theorem committed_of_step (hstep : step py w e = some w')
    (there : w'.At j call (.committed entry portfolio)) :
    w.At j call (.committed entry portfolio) ∨
      ∃ job ws, e = .commit j ∧ w.At j call (.inTx job (.recorded entry portfolio) ws) := by
  cases step_fires hstep with
  | arrive call' =>
      rcases World.at_arrive_cases there with there | ⟨-, hslot⟩
      · exact .inl there
      · cases hslot
  | lookup here => exact .inl (here.of_put there (Call.lookup_ne_committed py w.db _))
  | priced here opened => exact .inl (here.of_put there nofun)
  | unpriced here refused => exact .inl (here.of_put there nofun)
  | ran here left free returned => exact .inl (here.of_put there nofun)
  | raised here free threw => exact .inl (here.of_put there nofun)
  | commit here =>
      rcases World.at_put_cases here there with ⟨rfl, rfl, hphase⟩ | ⟨-, there⟩
      · cases hphase
        exact .inr ⟨_, _, rfl, here⟩
      · exact .inl there
  | fail here early => exact .inl (here.of_put there nofun)
  | skipBroadcast here => exact .inl (here.of_put there nofun)
  | reread here => exact .inl (here.of_put there nofun)
  | rereadFails here => exact .inl (here.of_put there nofun)
  | groupSend here => exact .inl (here.of_put there nofun)
  | groupSendFails here => exact .inl (here.of_put there nofun)

/-- A request about to send was so before, or has just re-read the positions. -/
theorem sending_of_step (hstep : step py w e = some w')
    (there : w'.At j call (.sending entry portfolio message)) :
    w.At j call (.sending entry portfolio message) ∨
      (e = .reread j ∧ w.At j call (.committed entry portfolio) ∧
        message = portfolioUpdate portfolio (positionsOf w.db portfolio.id) entry) := by
  cases step_fires hstep with
  | arrive call' =>
      rcases World.at_arrive_cases there with there | ⟨-, hslot⟩
      · exact .inl there
      · cases hslot
  | lookup here => exact .inl (here.of_put there (Call.lookup_ne_sending py w.db _))
  | priced here opened => exact .inl (here.of_put there nofun)
  | unpriced here refused => exact .inl (here.of_put there nofun)
  | ran here left free returned => exact .inl (here.of_put there nofun)
  | raised here free threw => exact .inl (here.of_put there nofun)
  | commit here => exact .inl (here.of_put there nofun)
  | fail here early => exact .inl (here.of_put there nofun)
  | skipBroadcast here => exact .inl (here.of_put there nofun)
  | reread here =>
      rcases World.at_put_cases here there with ⟨rfl, rfl, hphase⟩ | ⟨-, there⟩
      · cases hphase
        exact .inr ⟨rfl, here, rfl⟩
      · exact .inl there
  | rereadFails here => exact .inl (here.of_put there nofun)
  | groupSend here => exact .inl (here.of_put there nofun)
  | groupSendFails here => exact .inl (here.of_put there nofun)

end Step

/-! ## 2. What a commit leaves in memory -/

/-- The instance that a commit leaves behind is, at four decimals, the row it has saved. -/
theorem Job.Commit.portfolio_saved {py : Python} {db : Ledger} {job : Job} (c : job.Commit py db) :
    ∃ row, portfolio? c.after job.portfolioId = some row ∧ row.id = c.portfolio.id ∧
      Numeric.writeDecimal c.portfolio.cashBalance = .ok row.cashBalance := by
  cases c with
  | trade fresh c => exact ⟨c.newRow, c.portfolio?_after fresh, rfl, c.cash_written⟩
  | transfer fresh c => exact ⟨c.newRow, c.portfolio?_after fresh, rfl, c.cash_written⟩

/-- A transaction that commits leaves what its job's commit leaves. -/
theorem Inv.commit_of_recorded {py : Python} {start : Ledger} {w : World} (h : Inv py start w)
    {i : ℕ} {call : Call} {job : Job} {entry : Entry} {portfolio : PortfolioInstance}
    {ws : List Write} (here : w.At i call (.inTx job (.recorded entry portfolio) ws)) :
    ∃ c : job.Commit py w.db, entry = c.entry ∧ portfolio = c.portfolio ∧
      applyAll w.db ws = c.after := by
  obtain ⟨c, rfl, rfl, rfl⟩ := Job.body_eq_ok (h.running here).2.body_of_recorded
  exact ⟨c, rfl, rfl, rfl⟩

/-! ## 3. What a message is about -/

def Entry.key : Entry → Key
  | .trade t => .trade t.idempotencyKey
  | .cashTransaction c => .cashTransaction c.idempotencyKey

/-- A trade in memory has its row. -/
def Entry.Stored (db : Ledger) (portfolioId : Uuid) : Entry → Prop
  | .trade t => ∃ row ∈ db.trades, row.idempotencyKey = t.idempotencyKey ∧ row.id = t.id ∧
      row.portfolio = portfolioId
  | .cashTransaction _ => True

theorem Entry.Stored.mono {db db' : Ledger} {portfolioId : Uuid} {entry : Entry}
    (h : entry.Stored db portfolioId) (htrades : db.trades <+: db'.trades) :
    entry.Stored db' portfolioId := by
  cases entry with
  | trade t =>
      obtain ⟨row, hrow, hrest⟩ := h
      exact ⟨row, htrades.subset hrow, hrest⟩
  | cashTransaction c => trivial

theorem Job.Commit.trades_prefix {py : Python} {db : Ledger} {job : Job} (c : job.Commit py db) :
    db.trades <+: c.after.trades := by
  cases c with
  | trade fresh c => exact c.trades_after fresh ▸ List.prefix_append _ _
  | transfer fresh c => exact List.prefix_refl _

theorem Job.Commit.entry_key {py : Python} {db : Ledger} {job : Job} (c : job.Commit py db) :
    c.entry.key = job.key := by
  cases c with
  | trade fresh c => rfl
  | transfer fresh c => rfl

theorem Job.Commit.entry_stored {py : Python} {db : Ledger} {job : Job} (c : job.Commit py db) :
    c.entry.Stored c.after c.portfolio.id := by
  cases c with
  | trade fresh c =>
      refine ⟨c.stored fresh, ?_, rfl, rfl, c.row_id.symm⟩
      change _ ∈ (c.after fresh).trades
      rw [c.trades_after]
      exact List.mem_append_right _ (List.mem_singleton_self _)
  | transfer fresh c => trivial

/-- Trades are only ever added. -/
theorem trades_of_step {py : Python} {start : Ledger} {w w' : World} {e : Event}
    (hinv : Inv py start w) (hstep : step py w e = some w') : w.db.trades <+: w'.db.trades := by
  rcases db_of_step hstep with ⟨hdb, -⟩ | ⟨i, call, job, entry, portfolio, ws, -, here, hdb, -⟩
  · rw [hdb]
  · obtain ⟨c, -, -, hafter⟩ := hinv.commit_of_recorded here
    rw [hdb, hafter]
    exact c.trades_prefix

theorem run_trades {py : Python} {start : Ledger} {w w' : World} {es : List Event}
    (hinv : Inv py start w) (hrun : Run (step py) w es w') : w.db.trades <+: w'.db.trades := by
  refine (hrun.invariant (I := fun v => Inv py start v ∧ w.db.trades <+: v.db.trades)
    ⟨hinv, List.prefix_refl _⟩ ?_).2
  rintro v e u ⟨hv, htrades⟩ hstep
  exact ⟨hv.step hstep, htrades.trans (trades_of_step hv hstep)⟩

/-- Messages are only ever added. -/
theorem run_sent {py : Python} {w w' : World} {es : List Event} (hrun : Run (step py) w es w') :
    w.sent <+: w'.sent := by
  refine hrun.invariant (I := fun v => w.sent <+: v.sent) (List.prefix_refl _) ?_
  intro v e u hv hstep
  rcases sent_of_step hstep with hsent | ⟨i, call, entry, portfolio, message, -, -, hsent⟩
  · exact hsent ▸ hv
  · exact hsent ▸ hv.trans (List.prefix_append _ _)

/-- What is told, or about to be, is an entry of the request's key with its row. -/
structure MessageInv (w : World) : Prop where
  committed : ∀ {i call entry portfolio}, w.At i call (.committed entry portfolio) →
    entry.key = call.request.key ∧ entry.Stored w.db portfolio.id
  sending : ∀ {i call entry portfolio message}, w.At i call (.sending entry portfolio message) →
    entry.key = call.request.key ∧ entry.Stored w.db portfolio.id ∧
      ∃ positions, message = portfolioUpdate portfolio positions entry
  sent : ∀ x ∈ w.sent, ∃ call phase entry portfolio positions, w.At x.1 call phase ∧
    entry.key = call.request.key ∧ entry.Stored w.db portfolio.id ∧
      x.2 = portfolioUpdate portfolio positions entry

namespace MessageInv

variable {py : Python} {start : Ledger} {w w' : World} {e : Event}

theorem initial (db : Ledger) : MessageInv (.initial db) where
  committed here := by simp [World.At, World.initial] at here
  sending here := by simp [World.At, World.initial] at here
  sent x hx := by cases hx

theorem step (h : MessageInv w) (hinv : Inv py start w) (hstep : Ledger.step py w e = some w') :
    MessageInv w' := by
  have htrades := trades_of_step hinv hstep
  constructor
  · intro i call entry portfolio there
    rcases committed_of_step hstep there with here | ⟨job, ws, rfl, here⟩
    · obtain ⟨hkey, hstored⟩ := h.committed here
      exact ⟨hkey, hstored.mono htrades⟩
    · -- the commit has just stored it
      obtain ⟨c, rfl, rfl, hafter⟩ := hinv.commit_of_recorded here
      obtain ⟨hdb, -⟩ := db_of_commit hstep here
      rw [hdb, hafter]
      exact ⟨c.entry_key.trans (Call.job_eq_ok (hinv.running here).1).2.2, c.entry_stored⟩
  · intro i call entry portfolio message there
    rcases sending_of_step hstep there with here | ⟨-, here, rfl⟩
    · obtain ⟨hkey, hstored, hmessage⟩ := h.sending here
      exact ⟨hkey, hstored.mono htrades, hmessage⟩
    · obtain ⟨hkey, hstored⟩ := h.committed here
      exact ⟨hkey, hstored.mono htrades, _, rfl⟩
  · intro x hx
    have hold : x ∈ w.sent → ∃ call phase entry portfolio positions, w'.At x.1 call phase ∧
        entry.key = call.request.key ∧ entry.Stored w'.db portfolio.id ∧
          x.2 = portfolioUpdate portfolio positions entry := by
      intro hx
      obtain ⟨call, phase, entry, portfolio, positions, here, hkey, hstored, hmessage⟩ := h.sent x hx
      obtain ⟨phase', there, -⟩ := step_at hstep here
      exact ⟨call, phase', entry, portfolio, positions, there, hkey, hstored.mono htrades, hmessage⟩
    rcases sent_of_step hstep with hsent | ⟨i, call, entry, portfolio, message, -, here, hsent⟩
    · rw [hsent] at hx
      exact hold hx
    · rw [hsent] at hx
      rcases List.mem_append.mp hx with hx | hx
      · exact hold hx
      · obtain rfl := List.mem_singleton.mp hx
        obtain ⟨hkey, hstored, positions, hmessage⟩ := h.sending here
        obtain ⟨phase', there, -⟩ := step_at hstep here
        exact ⟨call, phase', entry, portfolio, positions, there, hkey, hstored.mono htrades, hmessage⟩

theorem of_run {es : List Event} (hrun : Run (Ledger.step py) (.initial start) es w) :
    MessageInv w :=
  (hrun.invariant (I := fun v => Inv py start v ∧ MessageInv v)
    ⟨Inv.initial py start, initial start⟩
    fun _ _ _ hv hstep => ⟨hv.1.step hstep, hv.2.step hv.1 hstep⟩).2

end MessageInv

end DjasktTrading.Ledger
