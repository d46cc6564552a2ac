import DjasktTrading.Ledger.MainService

/-!
# Statements — a transaction one statement at a time

The body of a job cut at its statements, each of which sees the committed rows and the
transaction's own writes.  A transaction that has run up to some stage against one database has run
the same way against every database that agrees on its portfolio; only the last statement, the
insert under the unique constraint, also looks at other portfolios' rows.
-/

open Reasoning

namespace DjasktTrading.Ledger

/-! ## 1. Stages -/

/-- Where an open transaction stands. -/
inductive Stage where
  /-- the block is entered -/
  | opened
  /-- the portfolio row is locked and read -/
  | locked (row : Portfolio)
  /-- the branch is taken; a position instance may still have to be saved -/
  | adjusted (portfolio : PortfolioInstance) (position : Option PositionInstance)
  /-- `portfolio.save()` is done -/
  | saved (portfolio : PortfolioInstance)
  /-- the ledger entry is inserted -/
  | recorded (entry : Entry) (portfolio : PortfolioInstance)
deriving DecidableEq

namespace Job

/-- The branch of a job. -/
def adjust (py : Python) (row : Portfolio) :
    Job → LedgerTx (PortfolioInstance × Option PositionInstance)
  | .trade order _ => do
      let (portfolio, position) ← takePosition py order row
      pure (portfolio, some position)
  | .transfer order _ => do
      let portfolio ← moveCash py order row
      pure (portfolio, none)

/-- The insert of a job. -/
def create (portfolio : PortfolioInstance) : Job → LedgerTx Entry
  | .trade order fresh => do
      let entry ← createTrade order fresh portfolio
      pure (.trade entry)
  | .transfer order fresh => do
      let entry ← createCashTransaction order fresh portfolio
      pure (.cashTransaction entry)

/-- The next statement. -/
def advance (py : Python) (job : Job) : Stage → LedgerTx Stage
  | .opened => do
      let row ← lockPortfolio job.portfolioId
      pure (.locked row)
  | .locked row => do
      let (portfolio, position) ← job.adjust py row
      pure (.adjusted portfolio position)
  | .adjusted portfolio (some position) => do
      savePosition position
      pure (.adjusted portfolio none)
  | .adjusted portfolio none => do
      savePortfolio portfolio
      pure (.saved portfolio)
  | .saved portfolio => do
      let entry ← job.create portfolio
      pure (.recorded entry portfolio)
  | .recorded entry portfolio => pure (.recorded entry portfolio)

/-- All the statements that are left. -/
def rest (py : Python) (job : Job) : Stage → LedgerTx (Entry × PortfolioInstance)
  | .opened => job.body py
  | .locked row => do
      match ← job.adjust py row with
      | (portfolio, some position) =>
          savePosition position
          savePortfolio portfolio
          let entry ← job.create portfolio
          pure (entry, portfolio)
      | (portfolio, none) =>
          savePortfolio portfolio
          let entry ← job.create portfolio
          pure (entry, portfolio)
  | .adjusted portfolio (some position) => do
      savePosition position
      savePortfolio portfolio
      let entry ← job.create portfolio
      pure (entry, portfolio)
  | .adjusted portfolio none => do
      savePortfolio portfolio
      let entry ← job.create portfolio
      pure (entry, portfolio)
  | .saved portfolio => do
      let entry ← job.create portfolio
      pure (entry, portfolio)
  | .recorded entry portfolio => pure (entry, portfolio)

/-- The statements in turn are the body. -/
theorem rest_eq (py : Python) (job : Job) (stage : Stage) :
    job.rest py stage = job.advance py stage >>= job.rest py := by
  cases stage with
  | opened =>
      cases job with
      | trade order fresh =>
          simp only [rest, advance, body, tradeBody, adjust, create, portfolioId, bind_assoc,
            pure_bind]
      | transfer order fresh =>
          simp only [rest, advance, body, transferBody, adjust, create, portfolioId, bind_assoc,
            pure_bind]
  | locked row =>
      cases job with
      | trade order fresh => simp only [rest, advance, adjust, bind_assoc, pure_bind]
      | transfer order fresh => simp only [rest, advance, adjust, bind_assoc, pure_bind]
  | adjusted portfolio position =>
      cases position <;> simp only [rest, advance, bind_assoc, pure_bind]
  | saved portfolio => simp only [rest, advance, bind_assoc, pure_bind]
  | recorded entry portfolio => simp only [rest, advance, pure_bind]

end Job

/-- What a statement that returns has done. -/
inductive Advances (py : Python) (job : Job) (db : Ledger) : Stage → Stage → List Write → Prop where
  | lock {row : Portfolio} {ws : List Write} (ran : lockPortfolio job.portfolioId db = (.ok row, ws)) :
      Advances py job db .opened (.locked row) ws
  | adjust {row : Portfolio} {portfolio : PortfolioInstance} {position : Option PositionInstance}
      {ws : List Write} (ran : job.adjust py row db = (.ok (portfolio, position), ws)) :
      Advances py job db (.locked row) (.adjusted portfolio position) ws
  | savePosition {portfolio : PortfolioInstance} {position : PositionInstance} {ws : List Write}
      (ran : savePosition position db = (.ok (), ws)) :
      Advances py job db (.adjusted portfolio (some position)) (.adjusted portfolio none) ws
  | savePortfolio {portfolio : PortfolioInstance} {ws : List Write}
      (ran : savePortfolio portfolio db = (.ok (), ws)) :
      Advances py job db (.adjusted portfolio none) (.saved portfolio) ws
  | create {portfolio : PortfolioInstance} {entry : Entry} {ws : List Write}
      (ran : job.create portfolio db = (.ok entry, ws)) :
      Advances py job db (.saved portfolio) (.recorded entry portfolio) ws
  | stay {entry : Entry} {portfolio : PortfolioInstance} :
      Advances py job db (.recorded entry portfolio) (.recorded entry portfolio) []

/-- How many statements are left, at most. -/
def Stage.remaining : Stage → ℕ
  | .opened => 5
  | .locked _ => 4
  | .adjusted _ (some _) => 3
  | .adjusted _ none => 2
  | .saved _ => 1
  | .recorded _ _ => 0

theorem Advances.remaining_lt {py : Python} {job : Job} {db : Ledger} {stage stage' : Stage}
    {ws : List Write} (h : Advances py job db stage stage' ws) (hleft : stage.remaining ≠ 0) :
    stage'.remaining < stage.remaining := by
  cases h with
  | lock => exact Nat.lt_succ_self 4
  | @adjust row portfolio position => cases position <;> simp [Stage.remaining]
  | savePosition => exact Nat.lt_succ_self 2
  | savePortfolio => exact Nat.lt_succ_self 1
  | create => exact Nat.lt_succ_self 0
  | stay => exact absurd rfl hleft

theorem Stage.remaining_eq_zero_iff {stage : Stage} :
    stage.remaining = 0 ↔ ∃ entry portfolio, stage = .recorded entry portfolio := by
  cases stage with
  | adjusted portfolio position => cases position <;> simp [Stage.remaining]
  | opened => simp [Stage.remaining]
  | locked row => simp [Stage.remaining]
  | saved portfolio => simp [Stage.remaining]
  | recorded entry portfolio => simp [Stage.remaining]

theorem Job.advance_eq_ok {py : Python} {job : Job} {db : Ledger} {stage stage' : Stage}
    {ws : List Write} (h : job.advance py stage db = (.ok stage', ws)) :
    Advances py job db stage stage' ws := by
  cases stage with
  | opened =>
      obtain ⟨row, vs, us, hran, hpure, rfl⟩ := Tx.bind_eq_ok_iff.mp h
      obtain ⟨rfl, rfl⟩ := Tx.pure_eq_ok_iff.mp hpure
      rw [List.append_nil]
      exact .lock hran
  | locked row =>
      obtain ⟨⟨portfolio, position⟩, vs, us, hran, hpure, rfl⟩ := Tx.bind_eq_ok_iff.mp h
      obtain ⟨rfl, rfl⟩ := Tx.pure_eq_ok_iff.mp hpure
      rw [List.append_nil]
      exact .adjust hran
  | adjusted portfolio position =>
      cases position with
      | none =>
          obtain ⟨_, vs, us, hran, hpure, rfl⟩ := Tx.bind_eq_ok_iff.mp h
          obtain ⟨rfl, rfl⟩ := Tx.pure_eq_ok_iff.mp hpure
          rw [List.append_nil]
          exact .savePortfolio hran
      | some position =>
          obtain ⟨_, vs, us, hran, hpure, rfl⟩ := Tx.bind_eq_ok_iff.mp h
          obtain ⟨rfl, rfl⟩ := Tx.pure_eq_ok_iff.mp hpure
          rw [List.append_nil]
          exact .savePosition hran
  | saved portfolio =>
      obtain ⟨entry, vs, us, hran, hpure, rfl⟩ := Tx.bind_eq_ok_iff.mp h
      obtain ⟨rfl, rfl⟩ := Tx.pure_eq_ok_iff.mp hpure
      rw [List.append_nil]
      exact .create hran
  | recorded entry portfolio =>
      obtain ⟨rfl, rfl⟩ := Tx.pure_eq_ok_iff.mp h
      exact .stay

/-! ## 2. How far a transaction has run -/

/-- Run against `db`, the transaction of `job` gets to a stage and leaves these writes. -/
inductive Reaches (py : Python) (job : Job) (db : Ledger) : Stage → List Write → Prop where
  | opened : Reaches py job db .opened []
  | step {stage stage' : Stage} {ws vs : List Write} (before : Reaches py job db stage ws)
      (ran : job.advance py stage (applyAll db ws) = (.ok stage', vs)) :
      Reaches py job db stage' (ws ++ vs)

namespace Reaches

variable {py : Python} {job : Job} {db : Ledger}

/-- The body, from where the transaction stands. -/
theorem body_eq {stage : Stage} {ws : List Write} (h : Reaches py job db stage ws) :
    job.body py db =
      ((job.rest py stage (applyAll db ws)).1, ws ++ (job.rest py stage (applyAll db ws)).2) := by
  induction h with
  | opened => rfl
  | step before ran ih => rw [ih, Job.rest_eq, Tx.bind_apply_of_ok ran, applyAll_append,
      List.append_assoc]

/-- A transaction that has recorded its entry has run the whole body. -/
theorem body_of_recorded {entry : Entry} {portfolio : PortfolioInstance} {ws : List Write}
    (h : Reaches py job db (.recorded entry portfolio) ws) :
    job.body py db = (.ok (entry, portfolio), ws) := by
  rw [h.body_eq]
  exact Prod.ext rfl (List.append_nil ws)

theorem row_eq {row : Portfolio} {ws : List Write} (h : Reaches py job db (.locked row) ws) :
    portfolio? db job.portfolioId = some row ∧ ws = [] := by
  cases h with
  | step before ran =>
      cases Job.advance_eq_ok ran with
      | lock hlock =>
          obtain ⟨hrow, rfl⟩ := lockPortfolio_eq_ok_iff.mp hlock
          cases before with
          | opened => exact ⟨hrow, rfl⟩
          | step before' ran' => cases Job.advance_eq_ok ran'

end Reaches

/-! ## 3. What a transaction depends on -/

/-- Two databases answer the lookup of a key alike. -/
def SameKey (key : Key) (db db' : Ledger) : Prop :=
  match key with
  | .trade key => tradeByKey? db key = tradeByKey? db' key
  | .cashTransaction key => cashTransactionByKey? db key = cashTransactionByKey? db' key

theorem sameKey_stable (key : Key) : Tx.Stable (SameKey key) := by
  intro db db' w h
  -- only an insert into the key's own table shows in the lookup
  cases key with
  | trade key =>
      change tradeByKey? db key = tradeByKey? db' key at h
      cases w with
      | insertTrade row =>
          change tradeByKey? (Writable.apply db (Write.insertTrade row)) key =
            tradeByKey? (Writable.apply db' (Write.insertTrade row)) key
          rw [tradeByKey?_insertTrade, tradeByKey?_insertTrade, h]
      | insertPosition row => exact h
      | updatePosition row => exact h
      | updatePortfolio row => exact h
      | insertCashTransaction row => exact h
  | cashTransaction key =>
      change cashTransactionByKey? db key = cashTransactionByKey? db' key at h
      cases w with
      | insertCashTransaction row =>
          change cashTransactionByKey? (Writable.apply db (Write.insertCashTransaction row)) key =
            cashTransactionByKey? (Writable.apply db' (Write.insertCashTransaction row)) key
          rw [cashTransactionByKey?_insertCashTransaction,
            cashTransactionByKey?_insertCashTransaction, h]
      | insertPosition row => exact h
      | updatePosition row => exact h
      | updatePortfolio row => exact h
      | insertTrade row => exact h

theorem sameKey_of_notMem {key : Key} {db db' : Ledger} (h : key ∉ keys db) (h' : key ∉ keys db') :
    SameKey key db db' := by
  rw [← existing?_eq_none_iff] at h h'
  cases key with
  | trade key =>
      simp only [existing?, Option.map_eq_none_iff] at h h'
      exact h.trans h'.symm
  | cashTransaction key =>
      simp only [existing?, Option.map_eq_none_iff] at h h'
      exact h.trans h'.symm

theorem existing?_of_sameKey {key : Key} {db db' : Ledger} (h : SameKey key db db') :
    existing? db key = existing? db' key := by
  cases key with
  | trade key => exact congrArg (Option.map _) h
  | cashTransaction key => exact congrArg (Option.map _) h

section Dependence

variable (py : Python)

theorem lockPortfolio_dependsOn (id : Uuid) :
    Tx.DependsOn (AgreeOn id) (lockPortfolio id) := by
  apply Tx.DependsOn.bind (AgreeOn.stable id)
  · exact Tx.dependsOn_read fun _ _ h => h.portfolio
  · intro row
    cases row with
    | some row => exact Tx.dependsOn_pure row
    | none => exact Tx.dependsOn_raise _

theorem getOrCreatePosition_dependsOn (id : Uuid) (ticker : String) :
    Tx.DependsOn (AgreeOn id) (getOrCreatePosition id ticker) := by
  apply Tx.DependsOn.bind (AgreeOn.stable id)
  · exact Tx.dependsOn_read fun _ _ h => h.positionsAt ticker
  · intro rows
    split
    · apply Tx.DependsOn.bind (AgreeOn.stable id) (Tx.dependsOn_ofExcept _)
      intro _
      exact Tx.DependsOn.bind (AgreeOn.stable id) (Tx.dependsOn_write _)
        fun _ => Tx.dependsOn_pure _
    · exact Tx.dependsOn_pure _
    · exact Tx.dependsOn_raise _

theorem takePosition_dependsOn (order : TradeOrder) (row : Portfolio) :
    Tx.DependsOn (AgreeOn row.id) (takePosition py order row) := by
  unfold takePosition
  cases order.tradeType with
  | buy =>
      unfold buy
      dsimp only
      cases order.totalValue with
      | infinity => exact Tx.dependsOn_raise _
      | finite totalValue =>
          dsimp only
          split
          · exact Tx.dependsOn_raise _
          · exact Tx.DependsOn.bind (AgreeOn.stable row.id)
              (getOrCreatePosition_dependsOn row.id order.ticker) fun _ => Tx.dependsOn_pure _
  | sell =>
      unfold sell
      apply Tx.DependsOn.bind (AgreeOn.stable row.id)
      · exact Tx.dependsOn_read fun _ _ h => by rw [h.positionsAt order.ticker]
      · intro position
        cases position with
        | none => exact Tx.dependsOn_raise _
        | some position =>
            dsimp only
            split
            · exact Tx.dependsOn_raise _
            · exact Tx.dependsOn_pure _

theorem moveCash_dependsOn {R : Ledger → Ledger → Prop} (order : TransferOrder) (row : Portfolio) :
    Tx.DependsOn R (moveCash py order row) := by
  unfold moveCash
  cases order.direction with
  | credit => exact Tx.dependsOn_pure _
  | debit =>
      dsimp only
      split
      · exact Tx.dependsOn_raise _
      · exact Tx.dependsOn_pure _

theorem adjust_dependsOn (job : Job) (row : Portfolio) :
    Tx.DependsOn (AgreeOn row.id) (job.adjust py row) := by
  cases job with
  | trade order fresh =>
      exact Tx.DependsOn.bind (AgreeOn.stable row.id) (takePosition_dependsOn py order row)
        fun _ => Tx.dependsOn_pure _
  | transfer order fresh =>
      exact Tx.DependsOn.bind (AgreeOn.stable row.id) (moveCash_dependsOn py order row)
        fun _ => Tx.dependsOn_pure _

/-- Saves look at nothing. -/
theorem savePosition_dependsOn {R : Ledger → Ledger → Prop} (hR : Tx.Stable R)
    (position : PositionInstance) : Tx.DependsOn R (savePosition position) :=
  Tx.DependsOn.bind hR (Tx.dependsOn_ofExcept _) fun _ => Tx.dependsOn_write _

theorem savePortfolio_dependsOn {R : Ledger → Ledger → Prop} (hR : Tx.Stable R)
    (portfolio : PortfolioInstance) : Tx.DependsOn R (savePortfolio portfolio) :=
  Tx.DependsOn.bind hR (Tx.dependsOn_ofExcept _) fun _ => Tx.dependsOn_write _

/-- The insert looks at its own key and nothing else. -/
theorem create_dependsOn (job : Job) (portfolio : PortfolioInstance) :
    Tx.DependsOn (SameKey job.key) (job.create portfolio) := by
  have hstable := sameKey_stable job.key
  cases job with
  | trade order fresh =>
      apply Tx.DependsOn.bind hstable _ fun _ => Tx.dependsOn_pure _
      apply Tx.DependsOn.bind hstable (Tx.dependsOn_ofExcept _) fun _ => ?_
      apply Tx.DependsOn.bind hstable (Tx.dependsOn_ofExcept _) fun _ => ?_
      apply Tx.DependsOn.bind hstable (Tx.dependsOn_ofExcept _) fun _ => ?_
      apply Tx.DependsOn.bind hstable (Tx.dependsOn_ofExcept _) fun _ => ?_
      apply Tx.DependsOn.bind hstable (Tx.dependsOn_read fun _ _ h => h) fun row => ?_
      cases row with
      | some row => exact Tx.dependsOn_raise _
      | none => exact Tx.DependsOn.bind hstable (Tx.dependsOn_write _) fun _ => Tx.dependsOn_pure _
  | transfer order fresh =>
      apply Tx.DependsOn.bind hstable _ fun _ => Tx.dependsOn_pure _
      apply Tx.DependsOn.bind hstable (Tx.dependsOn_ofExcept _) fun _ => ?_
      apply Tx.DependsOn.bind hstable (Tx.dependsOn_ofExcept _) fun _ => ?_
      apply Tx.DependsOn.bind hstable (Tx.dependsOn_read fun _ _ h => h) fun row => ?_
      cases row with
      | some row => exact Tx.dependsOn_raise _
      | none => exact Tx.DependsOn.bind hstable (Tx.dependsOn_write _) fun _ => Tx.dependsOn_pure _

/-- Any statement but the insert looks at the job's portfolio. -/
theorem advance_dependsOn (job : Job) {stage : Stage}
    (hrow : ∀ row, stage = .locked row → row.id = job.portfolioId)
    (hsaved : ∀ portfolio, stage ≠ .saved portfolio) :
    Tx.DependsOn (AgreeOn job.portfolioId) (job.advance py stage) := by
  have hstable := AgreeOn.stable job.portfolioId
  cases stage with
  | opened =>
      exact Tx.DependsOn.bind hstable (lockPortfolio_dependsOn _) fun _ => Tx.dependsOn_pure _
  | locked row =>
      have hadjust := adjust_dependsOn py job row
      rw [hrow row rfl] at hadjust
      exact Tx.DependsOn.bind hstable hadjust fun _ => Tx.dependsOn_pure _
  | adjusted portfolio position =>
      cases position with
      | none =>
          exact Tx.DependsOn.bind hstable (savePortfolio_dependsOn hstable portfolio)
            fun _ => Tx.dependsOn_pure _
      | some position =>
          exact Tx.DependsOn.bind hstable (savePosition_dependsOn hstable position)
            fun _ => Tx.dependsOn_pure _
  | saved portfolio => exact absurd rfl (hsaved portfolio)
  | recorded entry portfolio => exact Tx.dependsOn_pure _

theorem advance_saved_dependsOn (job : Job) (portfolio : PortfolioInstance) :
    Tx.DependsOn (SameKey job.key) (job.advance py (.saved portfolio)) :=
  Tx.DependsOn.bind (sameKey_stable job.key) (create_dependsOn job portfolio)
    fun _ => Tx.dependsOn_pure _

/-- What a job can see of a database: its portfolio, and who has its key. -/
def Job.SeesSame (job : Job) (db db' : Ledger) : Prop :=
  AgreeOn job.portfolioId db db' ∧ SameKey job.key db db'

theorem seesSame_stable (job : Job) : Tx.Stable job.SeesSame :=
  fun db db' w h => ⟨AgreeOn.stable _ db db' w h.1, sameKey_stable _ db db' w h.2⟩

/-- What is left of a transaction, errors included. -/
theorem rest_dependsOn (job : Job) {stage : Stage}
    (hrow : ∀ row, stage = .locked row → row.id = job.portfolioId) :
    Tx.DependsOn job.SeesSame (job.rest py stage) := by
  -- on the number of statements left
  induction hn : stage.remaining using Nat.strong_induction_on generalizing stage with
  | h n ih =>
      have hadvance : Tx.DependsOn job.SeesSame (job.advance py stage) := by
        by_cases hsaved : ∃ portfolio, stage = .saved portfolio
        · obtain ⟨portfolio, rfl⟩ := hsaved
          exact (advance_saved_dependsOn py job portfolio).mono fun _ _ h => h.2
        · exact (advance_dependsOn py job hrow (not_exists.mp hsaved)).mono fun _ _ h => h.1
      rw [job.rest_eq py stage]
      refine hadvance.bind_of_returns (seesSame_stable job) fun db stage' ws hran => ?_
      have hadvances := Job.advance_eq_ok hran
      by_cases hleft : stage.remaining = 0
      · obtain ⟨entry, portfolio, rfl⟩ := Stage.remaining_eq_zero_iff.mp hleft
        cases hadvances
        exact Tx.dependsOn_pure _
      · refine ih stage'.remaining (hn ▸ hadvances.remaining_lt hleft) ?_ rfl
        rintro row rfl
        cases hadvances with
        | lock hlock => exact portfolio?_id (lockPortfolio_eq_ok_iff.mp hlock).1

theorem body_dependsOn (job : Job) : Tx.DependsOn job.SeesSame (job.body py) :=
  by
  have h := rest_dependsOn py job (fun row (h : Stage.opened = .locked row) => nomatch h)
  exact h

end Dependence

namespace Reaches

variable {py : Python} {job : Job} {db db' : Ledger}

/-- Up to the insert, a transaction sees its portfolio only. -/
theorem transfer (hagree : AgreeOn job.portfolioId db db') {stage : Stage} {ws : List Write}
    (h : Reaches py job db stage ws) (hstage : ∀ entry portfolio, stage ≠ .recorded entry portfolio) :
    Reaches py job db' stage ws := by
  induction h with
  | opened => exact .opened
  | @step stage stage' ws vs before ran ih =>
      -- the insert would have led to the stage that is excluded
      have hsaved : ∀ portfolio, stage ≠ .saved portfolio := by
        rintro portfolio rfl
        cases Job.advance_eq_ok ran
        exact hstage _ _ rfl
      have hrecorded : ∀ entry portfolio, stage ≠ .recorded entry portfolio := by
        rintro entry portfolio rfl
        cases Job.advance_eq_ok ran
        exact hstage _ _ rfl
      have hrow : ∀ row, stage = .locked row → row.id = job.portfolioId := by
        rintro row rfl
        exact portfolio?_id before.row_eq.1
      have hsame := advance_dependsOn py job hrow hsaved _ _
        ((AgreeOn.stable job.portfolioId).applyAll hagree ws)
      exact .step (ih hrecorded) (hsame ▸ ran)

/-- With the insert, it also sees its key. -/
theorem transfer_of_sameKey (hagree : AgreeOn job.portfolioId db db')
    (hkey : SameKey job.key db db') {stage : Stage} {ws : List Write}
    (h : Reaches py job db stage ws) : Reaches py job db' stage ws := by
  induction h with
  | opened => exact .opened
  | @step stage stage' ws vs before ran ih =>
      by_cases hsaved : ∃ portfolio, stage = .saved portfolio
      · obtain ⟨portfolio, rfl⟩ := hsaved
        have hsame := advance_saved_dependsOn py job portfolio _ _
          ((sameKey_stable job.key).applyAll hkey ws)
        exact .step ih (hsame ▸ ran)
      · have hrow : ∀ row, stage = .locked row → row.id = job.portfolioId := by
          rintro row rfl
          exact portfolio?_id before.row_eq.1
        have hsame := advance_dependsOn py job hrow (not_exists.mp hsaved) _ _
          ((AgreeOn.stable job.portfolioId).applyAll hagree ws)
        exact .step ih (hsame ▸ ran)

end Reaches

theorem SameKey.symm {key : Key} {db db' : Ledger} (h : SameKey key db db') :
    SameKey key db' db := by
  cases key with
  | trade key => exact Eq.symm h
  | cashTransaction key => exact Eq.symm h

theorem Job.SeesSame.symm {job : Job} {db db' : Ledger} (h : job.SeesSame db db') :
    job.SeesSame db' db :=
  ⟨h.1.symm, h.2.symm⟩

/-- A body that returns, returns the same on a database with the same rows of its portfolio and the
same answer for its key. -/
theorem Job.body_transfer {py : Python} {job : Job} {db db' : Ledger} {entry : Entry}
    {portfolio : PortfolioInstance} {ws : List Write}
    (h : job.body py db = (.ok (entry, portfolio), ws)) (hagree : AgreeOn job.portfolioId db db')
    (hkey : SameKey job.key db db') : job.body py db' = (.ok (entry, portfolio), ws) :=
  (body_dependsOn py job db db' ⟨hagree, hkey⟩).symm.trans h

/-- A job that can commit can do so wherever it sees the same. -/
theorem Job.Commit.of_seesSame {py : Python} {job : Job} {db db' : Ledger} (c : job.Commit py db)
    (h : job.SeesSame db db') : Nonempty (job.Commit py db') := by
  obtain ⟨c', -⟩ := Job.body_eq_ok (Job.body_transfer c.body_eq h.1 h.2)
  exact ⟨c'⟩

end DjasktTrading.Ledger
