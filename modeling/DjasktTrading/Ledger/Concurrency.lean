import DjasktTrading.Ledger.Statements

/-!
# Concurrency — requests interleaved step by step

Any number of submissions in flight over one database.  A step is one key lookup, one price fetch,
one statement, a commit, or one step of the broadcast that follows it.  Statements read what is
committed and what their own transaction wrote; locks and uncommitted unique keys are held until the
transaction ends.
-/

open Reasoning

namespace DjasktTrading.Ledger

/-! ## 1. Locks -/

/-- What a transaction holds exclusively until it ends: rows it has locked or inserted, and the
unique key of the entry it has inserted. -/
inductive Resource where
  | portfolioRow (id : Uuid)
  | positionRow (portfolio : Uuid) (ticker : String)
  | uniqueKey (key : Key)
deriving DecidableEq

namespace Job

def positionLocks : Job → List Resource
  | .trade order _ => [.positionRow order.portfolioId order.ticker]
  | .transfer _ _ => []

/-- What the next statement has to wait for. -/
def needs (job : Job) : Stage → List Resource
  | .opened => [.portfolioRow job.portfolioId]
  | .locked _ => job.positionLocks
  | .adjusted _ _ => []
  | .saved _ => [.uniqueKey job.key]
  | .recorded _ _ => []

/-- What the statements so far have acquired. -/
def holds (job : Job) : Stage → List Resource
  | .opened => []
  | .locked _ => [.portfolioRow job.portfolioId]
  | .adjusted _ _ => .portfolioRow job.portfolioId :: job.positionLocks
  | .saved _ => .portfolioRow job.portfolioId :: job.positionLocks
  | .recorded _ _ => .uniqueKey job.key :: .portfolioRow job.portfolioId :: job.positionLocks

/-- A statement acquires what it has waited for. -/
theorem holds_advance {py : Python} {job : Job} {db : Ledger} {stage stage' : Stage}
    {ws : List Write} (h : Advances py job db stage stage' ws) {r : Resource}
    (hr : r ∈ job.holds stage') : r ∈ job.holds stage ∨ r ∈ job.needs stage := by
  cases h with
  | lock => exact .inr hr
  | adjust =>
      rcases List.mem_cons.mp hr with rfl | hr
      · exact .inl (List.mem_singleton_self _)
      · exact .inr hr
  | savePosition => exact .inl hr
  | savePortfolio => exact .inl hr
  | create =>
      rcases List.mem_cons.mp hr with rfl | hr
      · exact .inr (List.mem_singleton_self _)
      · exact .inl hr
  | stay => exact .inl hr

end Job

/-! ## 2. Worlds -/

/-- Where a request stands. -/
inductive Phase where
  | submitted
  /-- the key lookup found nothing -/
  | missed
  | inTx (job : Job) (stage : Stage) (writes : List Write)
  /-- the transaction has committed, the broadcast is still to come -/
  | committed (entry : Entry) (portfolio : PortfolioInstance)
  /-- the positions are re-read, the message is about to be sent -/
  | sending (entry : Entry) (portfolio : PortfolioInstance) (message : Broadcast)
  | done (outcome : Except Exn (Result Entry))

structure Slot where
  call : Call
  phase : Phase

/-- The database, the requests, and the messages sent so far, each with the request that sent it.
`lockOrder` and `commits` record the order in which transactions locked their portfolio and
committed; no step reads them. -/
structure World where
  db : Ledger
  requests : List Slot
  sent : List (ℕ × Broadcast)
  lockOrder : List (ℕ × Job)
  commits : List (ℕ × Job)

namespace World

def initial (db : Ledger) : World where
  db := db
  requests := []
  sent := []
  lockOrder := []
  commits := []

/-- Request `i` is in flight with this call and stands at this phase. -/
def At (w : World) (i : ℕ) (call : Call) (phase : Phase) : Prop :=
  w.requests[i]? = some ⟨call, phase⟩

def put (w : World) (i : ℕ) (phase : Phase) : World :=
  { w with requests := w.requests.modify i fun slot => { slot with phase } }

/-- What request `j` holds. -/
def heldBy (w : World) (j : ℕ) : List Resource :=
  match (w.requests[j]?).map Slot.phase with
  | some (.inTx job stage _) => job.holds stage
  | _ => []

/-- Another request holds something that the next statement of request `i` needs. -/
def Blocked (w : World) (i : ℕ) (needs : List Resource) : Prop :=
  ∃ j < w.requests.length, j ≠ i ∧ ∃ r ∈ needs, r ∈ w.heldBy j

instance (w : World) (i : ℕ) (needs : List Resource) : Decidable (w.Blocked i needs) :=
  inferInstanceAs (Decidable (∃ j < w.requests.length, _))

end World

/-! ## 3. Steps -/

/-- The argument checks and the key lookup. -/
def Call.lookup (py : Python) (db : Ledger) (call : Call) : Phase :=
  match call.check py with
  | .error e => .done (.error e)
  | .ok _ =>
      match existing? db call.request.key with
      | some entry => .done (.ok (.replay entry))
      | none => .missed

inductive Event where
  | arrive (call : Call)
  | lookup (i : ℕ)
  | fetchPrice (i : ℕ)
  | statement (i : ℕ)
  | commit (i : ℕ)
  /-- the database fails a request that has not committed -/
  | fail (i : ℕ)
  /-- there is no channel layer -/
  | skipBroadcast (i : ℕ)
  | reread (i : ℕ)
  | rereadFails (i : ℕ)
  | groupSend (i : ℕ)
  | groupSendFails (i : ℕ)

def step (py : Python) (w : World) : Event → Option World
  | .arrive call => some { w with requests := w.requests ++ [{ call, phase := .submitted }] }
  | .lookup i =>
      match w.requests[i]? with
      | some ⟨call, .submitted⟩ => some (w.put i (call.lookup py w.db))
      | _ => none
  | .fetchPrice i =>
      match w.requests[i]? with
      | some ⟨call, .missed⟩ =>
          match call.job py with
          | .ok job => some (w.put i (.inTx job .opened []))
          | .error e => some (w.put i (.done (.error e)))
      | _ => none
  | .statement i =>
      match w.requests[i]? with
      -- nothing is left but the commit
      | some ⟨_, .inTx _ (.recorded _ _) _⟩ => none
      | some ⟨_, .inTx job stage ws⟩ =>
          -- a statement that has to wait for a lock is not enabled
          if w.Blocked i (job.needs stage) then none
          else
            match job.advance py stage (applyAll w.db ws) with
            | (.ok stage', vs) => some { w.put i (.inTx job stage' (ws ++ vs)) with
                lockOrder := w.lockOrder ++ if stage = .opened then [(i, job)] else [] }
            -- the exception leaves the block, which discards its writes
            | (.error e, _) => some (w.put i (.done (.error e)))
      | _ => none
  | .commit i =>
      match w.requests[i]? with
      | some ⟨_, .inTx job (.recorded entry portfolio) ws⟩ =>
          some { w.put i (.committed entry portfolio) with
            db := applyAll w.db ws, commits := w.commits ++ [(i, job)] }
      | _ => none
  | .fail i =>
      match w.requests[i]? with
      | some ⟨_, .submitted⟩ => some (w.put i (.done (.error .operationalError)))
      | some ⟨_, .missed⟩ => some (w.put i (.done (.error .operationalError)))
      | some ⟨_, .inTx _ _ _⟩ => some (w.put i (.done (.error .operationalError)))
      | _ => none
  | .skipBroadcast i =>
      match w.requests[i]? with
      | some ⟨_, .committed entry portfolio⟩ =>
          some (w.put i (.done (.ok (.committed entry portfolio))))
      | _ => none
  | .reread i =>
      match w.requests[i]? with
      | some ⟨_, .committed entry portfolio⟩ =>
          some (w.put i (.sending entry portfolio
            (portfolioUpdate portfolio (positionsOf w.db portfolio.id) entry)))
      | _ => none
  | .rereadFails i =>
      match w.requests[i]? with
      | some ⟨_, .committed _ _⟩ => some (w.put i (.done (.error .operationalError)))
      | _ => none
  | .groupSend i =>
      match w.requests[i]? with
      | some ⟨_, .sending entry portfolio message⟩ =>
          some { w.put i (.done (.ok (.committed entry portfolio))) with
            sent := w.sent ++ [(i, message)] }
      | _ => none
  | .groupSendFails i =>
      match w.requests[i]? with
      | some ⟨_, .sending _ _ _⟩ => some (w.put i (.done (.error .channelLayerError)))
      | _ => none

/-- Everything a step can do. -/
inductive Fires (py : Python) (w : World) : Event → World → Prop where
  | arrive (call : Call) :
      Fires py w (.arrive call) { w with requests := w.requests ++ [{ call, phase := .submitted }] }
  | lookup {i : ℕ} {call : Call} (here : w.At i call .submitted) :
      Fires py w (.lookup i) (w.put i (call.lookup py w.db))
  | priced {i : ℕ} {call : Call} {job : Job} (here : w.At i call .missed)
      (opened : call.job py = .ok job) :
      Fires py w (.fetchPrice i) (w.put i (.inTx job .opened []))
  | unpriced {i : ℕ} {call : Call} {e : Exn} (here : w.At i call .missed)
      (refused : call.job py = .error e) :
      Fires py w (.fetchPrice i) (w.put i (.done (.error e)))
  | ran {i : ℕ} {call : Call} {job : Job} {stage stage' : Stage} {ws vs : List Write}
      (here : w.At i call (.inTx job stage ws)) (left : stage.remaining ≠ 0)
      (free : ¬ w.Blocked i (job.needs stage))
      (returned : job.advance py stage (applyAll w.db ws) = (.ok stage', vs)) :
      Fires py w (.statement i) { w.put i (.inTx job stage' (ws ++ vs)) with
        lockOrder := w.lockOrder ++ if stage = .opened then [(i, job)] else [] }
  | raised {i : ℕ} {call : Call} {job : Job} {stage : Stage} {ws vs : List Write} {e : Exn}
      (here : w.At i call (.inTx job stage ws)) (free : ¬ w.Blocked i (job.needs stage))
      (threw : job.advance py stage (applyAll w.db ws) = (.error e, vs)) :
      Fires py w (.statement i) (w.put i (.done (.error e)))
  | commit {i : ℕ} {call : Call} {job : Job} {entry : Entry} {portfolio : PortfolioInstance}
      {ws : List Write} (here : w.At i call (.inTx job (.recorded entry portfolio) ws)) :
      Fires py w (.commit i) { w.put i (.committed entry portfolio) with
        db := applyAll w.db ws, commits := w.commits ++ [(i, job)] }
  | fail {i : ℕ} {call : Call} {phase : Phase} (here : w.At i call phase)
      (early : phase = .submitted ∨ phase = .missed ∨ ∃ job stage ws, phase = .inTx job stage ws) :
      Fires py w (.fail i) (w.put i (.done (.error .operationalError)))
  | skipBroadcast {i : ℕ} {call : Call} {entry : Entry} {portfolio : PortfolioInstance}
      (here : w.At i call (.committed entry portfolio)) :
      Fires py w (.skipBroadcast i) (w.put i (.done (.ok (.committed entry portfolio))))
  | reread {i : ℕ} {call : Call} {entry : Entry} {portfolio : PortfolioInstance}
      (here : w.At i call (.committed entry portfolio)) :
      Fires py w (.reread i) (w.put i (.sending entry portfolio
        (portfolioUpdate portfolio (positionsOf w.db portfolio.id) entry)))
  | rereadFails {i : ℕ} {call : Call} {entry : Entry} {portfolio : PortfolioInstance}
      (here : w.At i call (.committed entry portfolio)) :
      Fires py w (.rereadFails i) (w.put i (.done (.error .operationalError)))
  | groupSend {i : ℕ} {call : Call} {entry : Entry} {portfolio : PortfolioInstance}
      {message : Broadcast} (here : w.At i call (.sending entry portfolio message)) :
      Fires py w (.groupSend i) { w.put i (.done (.ok (.committed entry portfolio))) with
        sent := w.sent ++ [(i, message)] }
  | groupSendFails {i : ℕ} {call : Call} {entry : Entry} {portfolio : PortfolioInstance}
      {message : Broadcast} (here : w.At i call (.sending entry portfolio message)) :
      Fires py w (.groupSendFails i) (w.put i (.done (.error .channelLayerError)))

theorem step_fires {py : Python} {w w' : World} {e : Event} (h : step py w e = some w') :
    Fires py w e w' := by
  -- an event is enabled at one phase of its request; elsewhere the step is `none`
  cases e with
  | arrive call =>
      obtain rfl := Option.some.inj h
      exact .arrive call
  | lookup i =>
      simp only [step] at h
      split at h
      · rename_i call here
        obtain rfl := Option.some.inj h
        exact .lookup here
      · cases h
  | fetchPrice i =>
      simp only [step] at h
      split at h
      · rename_i call here
        split at h
        · rename_i job hjob
          obtain rfl := Option.some.inj h
          exact .priced here hjob
        · rename_i e hjob
          obtain rfl := Option.some.inj h
          exact .unpriced here hjob
      · cases h
  | statement i =>
      simp only [step] at h
      split at h
      · cases h
      · rename_i call job stage ws hleft here
        split at h
        · cases h
        · rename_i hfree
          split at h
          · rename_i stage' vs hran
            obtain rfl := Option.some.inj h
            refine .ran here ?_ hfree hran
            -- a transaction that has recorded its entry has no statement left
            rw [ne_eq, Stage.remaining_eq_zero_iff]
            rintro ⟨entry, portfolio, rfl⟩
            exact hleft _ _ rfl
          · rename_i e vs hran
            obtain rfl := Option.some.inj h
            exact .raised here hfree hran
      · cases h
  | commit i =>
      simp only [step] at h
      split at h
      · rename_i call job entry portfolio ws here
        obtain rfl := Option.some.inj h
        exact .commit here
      · cases h
  | fail i =>
      simp only [step] at h
      split at h
      · rename_i call here
        obtain rfl := Option.some.inj h
        exact .fail here (.inl rfl)
      · rename_i call here
        obtain rfl := Option.some.inj h
        exact .fail here (.inr (.inl rfl))
      · rename_i call job stage ws here
        obtain rfl := Option.some.inj h
        exact .fail here (.inr (.inr ⟨job, stage, ws, rfl⟩))
      · cases h
  | skipBroadcast i =>
      simp only [step] at h
      split at h
      · rename_i call entry portfolio here
        obtain rfl := Option.some.inj h
        exact .skipBroadcast here
      · cases h
  | reread i =>
      simp only [step] at h
      split at h
      · rename_i call entry portfolio here
        obtain rfl := Option.some.inj h
        exact .reread here
      · cases h
  | rereadFails i =>
      simp only [step] at h
      split at h
      · rename_i call entry portfolio here
        obtain rfl := Option.some.inj h
        exact .rereadFails here
      · cases h
  | groupSend i =>
      simp only [step] at h
      split at h
      · rename_i call entry portfolio message here
        obtain rfl := Option.some.inj h
        exact .groupSend here
      · cases h
  | groupSendFails i =>
      simp only [step] at h
      split at h
      · rename_i call entry portfolio message here
        obtain rfl := Option.some.inj h
        exact .groupSendFails here
      · cases h

end DjasktTrading.Ledger
