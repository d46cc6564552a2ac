import DjasktTrading.Ledger.Serializability

/-!
# Atomicity — a call that raises leaves the ledger as it was

All writes of the two services are made inside their `atomic()` blocks, and nothing raises after
those.  Between other requests, where the final insert can meet a key that has been taken since the
lookup, only a commit changes the stored rows.
-/

open Reasoning

namespace DjasktTrading.Ledger

/-! ## 1. The services -/

theorem executeTrade_clean (py : Python) (cache : PriceCache) (fresh : Fresh) (req : TradeRequest) :
    Tx.Clean (executeTrade py cache fresh req) := by
  unfold executeTrade
  refine (Tx.silent_ofExcept _).bind_clean fun tradeType => ?_
  refine (Tx.silent_read _).bind_clean fun existing => ?_
  cases existing with
  | some trade => exact Tx.clean_pure _
  | none =>
      refine (Tx.silent_ofExcept _).bind_clean fun order => ?_
      exact (Tx.clean_atomic _).bind_pure
        fun r : TradeInstance × PortfolioInstance => Result.committed r.1 r.2

theorem applyTransfer_clean (py : Python) (fresh : Fresh) (req : TransferRequest) :
    Tx.Clean (applyTransfer py fresh req) := by
  unfold applyTransfer
  refine (Tx.silent_ofExcept _).bind_clean fun order => ?_
  refine (Tx.silent_read _).bind_clean fun existing => ?_
  cases existing with
  | some cashTransaction => exact Tx.clean_pure _
  | none =>
      exact (Tx.clean_atomic _).bind_pure
        fun r : CashTransactionInstance × PortfolioInstance => Result.committed r.1 r.2

/-! ## 2. Requests in flight -/

/-- The request that an event moves. -/
def Event.request? : Event → Option ℕ
  | .arrive _ => none
  | .lookup i => some i
  | .fetchPrice i => some i
  | .statement i => some i
  | .commit i => some i
  | .fail i => some i
  | .skipBroadcast i => some i
  | .reread i => some i
  | .rereadFails i => some i
  | .groupSend i => some i
  | .groupSendFails i => some i

/-- The rows change with the commit of the request that moves, or not at all. -/
theorem step_db {py : Python} {w w' : World} {e : Event} {i : ℕ} (hstep : step py w e = some w')
    (hmoves : e.request? = some i) : w'.db = w.db ∨ ∃ job, (i, job) ∈ w'.commits := by
  cases step_fires hstep with
  | @commit j _ job _ _ _ here =>
      obtain rfl := Option.some.inj hmoves
      exact .inr ⟨job, List.mem_append_right _ (List.mem_singleton_self _)⟩
  | _ => exact .inl rfl

/-- A request that has not committed by the end of a run has not changed the rows. -/
theorem run_db_of_not_committed {py : Python} {start : Ledger} {es : List Event} {w : World}
    (hrun : Run (step py) (.initial start) es w) {i : ℕ} (hnever : ∀ job, (i, job) ∉ w.commits)
    {earlier : List Event} {e : Event} {v v' : World} (hearlier : earlier ++ [e] <+: es)
    (hv : Run (step py) (.initial start) earlier v) (hstep : step py v e = some v')
    (hmoves : e.request? = some i) : v'.db = v.db := by
  obtain ⟨later, rfl⟩ := hearlier
  obtain ⟨u, hu, hlater⟩ := run_append_iff.mp hrun
  obtain rfl : v' = u := Run.unique (run_concat_iff.mpr ⟨v, hv, hstep⟩) hu
  rcases step_db hstep hmoves with hsame | ⟨job, hcommitted⟩
  · exact hsame
  · exact absurd ((run_commits hlater).subset hcommitted) (hnever job)

/-- The step with which a service raises is not a commit. -/
theorem step_db_of_raised {py : Python} {w w' : World} {event : Event} {i : ℕ} {call : Call}
    {phase : Phase} {e : Exn} (hstep : step py w event = some w') (here : w.At i call phase)
    (hinside : ¬ phase.Past) (hraised : w'.At i call (.done (.error e))) : w'.db = w.db := by
  cases step_fires hstep with
  | commit there =>
      rcases World.at_put_cases there hraised with ⟨-, -, hphase⟩ | ⟨-, hsame⟩
      · cases hphase
      · obtain ⟨-, rfl⟩ := here.unique hsame
        exact absurd trivial hinside
  | _ => rfl

/-- **Atomicity on failure.**  A call of either service that raises leaves every stored row as it was.
Where other requests run between its steps, the step that raises and all its steps before leave the
rows as they find them. -/
theorem services_atomic (py : Python) (cache : PriceCache) (fresh : Fresh) :
    (∀ (req : TradeRequest) (db : Ledger) (e : Exn),
        ((executeTrade py cache fresh req).run db).1 = .error e →
          ((executeTrade py cache fresh req).run db).2 = db) ∧
      (∀ (req : TransferRequest) (db : Ledger) (e : Exn),
        ((applyTransfer py fresh req).run db).1 = .error e →
          ((applyTransfer py fresh req).run db).2 = db) ∧
      ∀ (start : Ledger) (es : List Event) (event : Event) (w w' : World) (i : ℕ) (call : Call)
        (phase : Phase) (e : Exn), Run (step py) (.initial start) es w → w.At i call phase →
          ¬ phase.Past → step py w event = some w' → w'.At i call (.done (.error e)) →
            w'.db = w.db ∧ ∀ earlier before v v', earlier ++ [before] <+: es →
              Run (step py) (.initial start) earlier v → step py v before = some v' →
                before.request? = some i → v'.db = v.db := by
  refine ⟨fun req db e h => ?_, fun req db e h => ?_, ?_⟩
  · exact (executeTrade_clean py cache fresh req).run_of_error h
  · exact (applyTransfer_clean py fresh req).run_of_error h
  · intro start es event w w' i call phase e hrun here hinside hstep hraised
    refine ⟨step_db_of_raised hstep here hinside hraised, fun earlier before v v' hearlier => ?_⟩
    exact run_db_of_not_committed hrun ((Inv.of_run hrun).notMem_commits here hinside) hearlier

/-- A purchase of a quantity that no column holds: its position row is inserted before the overflow. -/
def unholdablePurchase : TradeRequest where
  portfolioId := 1
  ticker := "TCS"
  tradeType := "BUY"
  quantity := 10 ^ 16
  idempotencyKey := 5

/-- The first portfolio with a credit of 1. -/
def oneRupee : Ledger := { firstPortfolio with portfolios := [⟨1, 1, ⟨10000, by decide⟩⟩] }

theorem services_atomic_sample :
    ((executeTrade .default (.always (1 / 10 ^ 16)) ⟨1, 0⟩ unholdablePurchase).run oneRupee).2 =
      oneRupee := by
  have hraised : ((executeTrade .default (.always (1 / 10 ^ 16)) ⟨1, 0⟩ unholdablePurchase).run
      oneRupee).1 = .error .dataError := by
    decide +kernel
  exact (services_atomic .default (.always (1 / 10 ^ 16)) ⟨1, 0⟩).1 unholdablePurchase oneRupee
    .dataError hraised

/-- The body alone has written by then. -/
example : ((priceTrade .default (.always (1 / 10 ^ 16)) unholdablePurchase .buy).toOption.map
    fun order => (tradeBody .default order ⟨1, 0⟩ oneRupee).2) =
      some [.insertPosition ⟨1, "TCS", .zero⟩] := by
  decide +kernel

end DjasktTrading.Ledger
