import DjasktTrading.Ledger.Isolation
import DjasktTrading.Ledger.Serializability

/-!
# History — what a run leaves of what was there

Entries are inserted and never written again, and a portfolio changes by its own commits only.  Both
hold between any two moments of any run, whoever else is in flight.
-/

open Reasoning

namespace DjasktTrading.Ledger

/-! ## 1. What writes leave -/

/-- Every entry of `db` stands in `db'` as it was, in its place; every portfolio has its owner; and
every position row is there. -/
structure Extends (db db' : Ledger) : Prop where
  trades : db.trades <+: db'.trades
  cashTransactions : db.cashTransactions <+: db'.cashTransactions
  owners : db'.portfolios.map (fun p => (p.id, p.user)) =
    db.portfolios.map fun p => (p.id, p.user)
  holdings : db.positions.map (fun p => (p.portfolio, p.ticker)) <+:
    db'.positions.map fun p => (p.portfolio, p.ticker)

namespace Extends

theorem refl (db : Ledger) : Extends db db :=
  ⟨List.prefix_refl _, List.prefix_refl _, rfl, List.prefix_refl _⟩

theorem trans {db db' db'' : Ledger} (h : Extends db db') (h' : Extends db' db'') :
    Extends db db'' where
  trades := h.trades.trans h'.trades
  cashTransactions := h.cashTransactions.trans h'.cashTransactions
  owners := h'.owners.trans h.owners
  holdings := h.holdings.trans h'.holdings

theorem apply {db : Ledger} {w : Write} (hw : KeepsOwners db w) :
    Extends db (Writable.apply db w) := by
  cases w with
  | insertPosition row =>
      refine { refl db with holdings := ?_ }
      change _ <+: (db.positions ++ [row]).map _
      rw [List.map_append]
      exact List.prefix_append _ _
  | updatePosition row =>
      -- the row that is replaced has the portfolio and the ticker of the new one
      refine { refl db with holdings := ?_ }
      change _ <+: (db.positions.map _).map _
      rw [List.map_map]
      refine (List.map_congr_left fun p _ => ?_) ▸ List.prefix_refl _
      by_cases hp : p.portfolio = row.portfolio ∧ p.ticker = row.ticker
      · simp [hp]
      · simp [hp]
  | updatePortfolio row =>
      refine { refl db with owners := ?_ }
      change (db.portfolios.map _).map _ = _
      rw [List.map_map]
      refine List.map_congr_left fun p hp => ?_
      by_cases hid : p.id = row.id
      · simp [hid, hw row rfl p hp hid]
      · simp [hid]
  | insertTrade row => exact { refl db with trades := List.prefix_append _ _ }
  | insertCashTransaction row => exact { refl db with cashTransactions := List.prefix_append _ _ }

theorem applyAll {db : Ledger} {ws : List Write} (hws : ∀ w ∈ ws, KeepsOwners db w) :
    Extends db (applyAll db ws) := by
  induction ws generalizing db with
  | nil => exact refl db
  | cons w ws ih =>
      have hw := hws w List.mem_cons_self
      exact (apply hw).trans
        (ih fun v hv => hw.apply (hws v (List.mem_cons_of_mem w hv)))

theorem ids {db db' : Ledger} (h : Extends db db') :
    db'.portfolios.map (·.id) = db.portfolios.map (·.id) := by
  have hfst := congrArg (List.map Prod.fst) h.owners
  rwa [List.map_map, List.map_map] at hfst

theorem portfolioOf? {db db' : Ledger} (h : Extends db db') (user : UserId) :
    (Ledger.portfolioOf? db' user).map (·.id) = (Ledger.portfolioOf? db user).map (·.id) := by
  have hfind (db : Ledger) : (Ledger.portfolioOf? db user).map (·.id) =
      ((db.portfolios.map fun p => (p.id, p.user)).find? (·.2 = user)).map Prod.fst := by
    rw [List.find?_map, Option.map_map]
    rfl
  rw [hfind, hfind, h.owners]

end Extends

/-! ## 2. What commits leave -/

/-- What a sequence of commits leaves: one entry more for each, and the portfolios that none of them
is about. -/
structure Grows (db : Ledger) (jobs : List Job) (db' : Ledger) : Prop where
  rows : Extends db db'
  keys : List.Perm (keys db') (keys db ++ jobs.map Job.key)
  untouched : ∀ id, (∀ job ∈ jobs, job.portfolioId ≠ id) → AgreeOn id db db'

theorem grows_of_run {py : Python} {db db' : Ledger} {jobs : List Job}
    (hids : (db.portfolios.map (·.id)).Nodup) (hrun : Run (jobStep py) db jobs db') :
    Grows db jobs db' := by
  refine hrun.induction (motive := fun jobs db' => Grows db jobs db') ?_ ?_
  · exact ⟨.refl db, by simp, fun id _ => .refl id db⟩
  · intro jobs db₁ job db₂ _ ih hstep
    obtain ⟨c, rfl⟩ := jobStep_eq_some hstep
    have hkeeps := c.keepsOwners (ih.rows.ids ▸ hids)
    refine ⟨ih.rows.trans (.applyAll hkeeps), ?_, fun id hnot => ?_⟩
    · calc keys c.after
        List.Perm _ (keys db₁ ++ [job.key]) := c.keys_after
        List.Perm _ (keys db ++ jobs.map Job.key ++ [job.key]) := ih.keys.append_right _
        _ = keys db ++ (jobs ++ [job]).map Job.key := by simp
    · have hearlier := ih.untouched id fun j hj => hnot j (List.mem_append_left _ hj)
      have hown : id ≠ job.portfolioId := (hnot job (by simp)).symm
      exact hearlier.trans (c.agreeOn_after hown).symm

/-- The jobs committed between two moments of a run are those that lead from the rows of the one to
the rows of the other. -/
theorem exists_run_between {py : Python} {start : Ledger} {v w : World} {es fs : List Event}
    (hbefore : Run (step py) (.initial start) es v) (hrun : Run (step py) v fs w) :
    ∃ later, w.commits = v.commits ++ later ∧
      Run (jobStep py) v.db (later.map Prod.snd) w.db := by
  obtain ⟨later, hlater⟩ := run_commits hrun
  have hthere := (Inv.of_run hbefore).serial
  have hhere := (Inv.of_run (run_append_iff.mpr ⟨v, hbefore, hrun⟩)).serial
  rw [← hlater, List.map_append] at hhere
  obtain ⟨db, hdb, hrest⟩ := run_append_iff.mp hhere
  exact ⟨later, hlater.symm, hdb.unique hthere ▸ hrest⟩

/-- **The ledger is append-only.**  Between any two moments of any interleaving, every stored trade and
cash transaction stays what and where it is, one entry is added for each commit under the key of its
request, no position row and no portfolio goes, and a portfolio that nothing is committed on keeps all
its rows. -/
theorem append_only (py : Python) {start : Ledger} (hids : (start.portfolios.map (·.id)).Nodup)
    {v w : World} {es fs : List Event} (hbefore : Run (step py) (.initial start) es v)
    (hrun : Run (step py) v fs w) :
    ∃ later, w.commits = v.commits ++ later ∧ Grows v.db (later.map Prod.snd) w.db := by
  obtain ⟨later, hlater, hjobs⟩ := exists_run_between hbefore hrun
  refine ⟨later, hlater, grows_of_run ?_ hjobs⟩
  have hstart := grows_of_run hids (Inv.of_run hbefore).serial
  exact hstart.rows.ids ▸ hids

theorem append_only_twoDeposits :
    ∃ v w, Run (step .default) (.initial firstPortfolio) (twoDeposits.take 11) v ∧
      Run (step .default) v (twoDeposits.drop 11) w ∧
        ∃ later, w.commits = v.commits ++ later ∧ Grows v.db (later.map Prod.snd) w.db := by
  obtain ⟨w, hrun⟩ := exists_run_twoDeposits
  rw [← List.take_append_drop 11 twoDeposits] at hrun
  obtain ⟨v, hbefore, hafter⟩ := run_append_iff.mp hrun
  exact ⟨v, w, hbefore, hafter, append_only .default (by decide) hbefore hafter⟩

/-! ## 3. One portfolio among others -/

/-- What has been committed on a portfolio, in order. -/
def World.commitsOn (w : World) (id : Uuid) : List Job :=
  (w.commits.map Prod.snd).filter (·.portfolioId = id)

/-- **A portfolio depends on its own commits only.**  Two runs may start from ledgers that agree on the
portfolio alone, with other tenants, other requests and another interleaving: if what they commit on
the portfolio is the same, they leave it with the same rows. -/
theorem agreeOn_of_commitsOn (py : Python) {id : Uuid} {start start' : Ledger}
    (hstart : AgreeOn id start start') {w w' : World} {es es' : List Event}
    (hrun : Run (step py) (.initial start) es w) (hrun' : Run (step py) (.initial start') es' w')
    (hcommits : w.commitsOn id = w'.commitsOn id) : AgreeOn id w.db w'.db := by
  obtain ⟨db, hown, hagree⟩ := (ledgerPartition py).run_filter (Inv.of_run hrun).serial id
  obtain ⟨db', hown', hagree'⟩ := (ledgerPartition py).run_filter (Inv.of_run hrun').serial id
  change Run (jobStep py) start (w.commitsOn id) db at hown
  change Run (jobStep py) start' (w'.commitsOn id) db' at hown'
  rw [← hcommits] at hown'
  have hsame := (ledgerPartition py).agree_of_runs hstart hown hown' fun job hjob => by
    simpa using (List.mem_filter.mp hjob).2
  exact hagree.trans (hsame.trans hagree'.symm)

/-- A deposit of the second tenant. -/
def secondTenantCall : Call where
  request := .transfer { portfolioId := 2, direction := "CREDIT", amount := 5, idempotencyKey := 7 }
  cache := .always 1
  fresh := ⟨7, 7⟩

/-- A deposit of the first tenant, with the second tenant's in between. -/
def besideSecondTenant : List Event :=
  [.arrive (transferCall 1 "CREDIT" 1), .arrive secondTenantCall, .lookup 1, .lookup 0, .fetchPrice 0,
   .fetchPrice 1, .statement 1, .statement 0, .statement 0, .statement 1, .statement 1, .statement 1,
   .commit 1, .statement 0, .statement 0, .commit 0]

/-- The first tenant's deposit alone. -/
def withoutSecondTenant : List Event :=
  [.arrive (transferCall 1 "CREDIT" 1), .lookup 0, .fetchPrice 0, .statement 0, .statement 0,
   .statement 0, .statement 0, .commit 0]

theorem agreeOn_of_commitsOn_tenants :
    ∃ w w', Run (step .default) (.initial twoTenants) besideSecondTenant w ∧
      Run (step .default) (.initial firstPortfolio) withoutSecondTenant w' ∧
        AgreeOn 1 w.db w'.db := by
  have hbeside : (exec (step .default) (.initial twoTenants) besideSecondTenant).map
      (·.commitsOn 1) = some [.transfer ⟨1, .credit, 1, 1⟩ ⟨1, 1⟩] := by decide +kernel
  have halone : (exec (step .default) (.initial firstPortfolio) withoutSecondTenant).map
      (·.commitsOn 1) = some [.transfer ⟨1, .credit, 1, 1⟩ ⟨1, 1⟩] := by decide +kernel
  obtain ⟨w, hrun, hw⟩ := Option.map_eq_some_iff.mp hbeside
  obtain ⟨w', hrun', hw'⟩ := Option.map_eq_some_iff.mp halone
  have hstart : AgreeOn 1 twoTenants firstPortfolio := by decide +kernel
  exact ⟨w, w', hrun, hrun', agreeOn_of_commitsOn .default hstart hrun hrun' (hw.trans hw'.symm)⟩

end DjasktTrading.Ledger
