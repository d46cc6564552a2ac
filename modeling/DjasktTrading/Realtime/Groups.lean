import DjasktTrading.Realtime.Ownership

/-!
# Groups — the name that is joined and the name that is sent to

The consumer formats the text of the URL, the orchestrator the id of the row.  Every text that is read
as the id passes the ownership check; the two names agree for the canonical one alone.
-/

open Reasoning

namespace DjasktTrading.Realtime

open Ledger

theorem portfolioGroupName_inj {a b : String} :
    portfolioGroupName a = portfolioGroupName b ↔ a = b := String.append_right_inj _

/-- Two spellings of one id name two groups, unless they are letter for letter the same. -/
theorem portfolioGroupName_eq_str_iff {text : String} {id : Uuid}
    (h : Uuid.ofHex? text = some id) :
    portfolioGroupName text = portfolioGroupName id.str ↔ Uuid.Canonical text := by
  rw [portfolioGroupName_inj]
  exact Uuid.eq_str_iff_canonical h

/-- **The group that is broadcast to.**  When the ownership check finds the portfolio, the consumer
names its group; the updates of the portfolio go to that group exactly when the URL has the canonical
text of the id. -/
theorem groupName_eq_group_iff_canonical (wire : Wire) (ledger : Ledger.World) (conn : Connection)
    {user : UserId} {portfolio : Portfolio} (hchecking : conn.handler = .checkingOwner user)
    (howner : getOwnedPortfolioOrNone ledger.db user conn.path.text = some (some portfolio)) :
    ∃ conn', conn.step wire ledger .ownerChecked = some conn' ∧
      ∀ saved positions entry, saved.id = portfolio.id →
        (conn'.groupName = some (portfolioUpdate saved positions entry).group ↔
          Uuid.Canonical conn.path.text) := by
  obtain ⟨hparsed, -, -⟩ := getOwned_found howner
  have hstep : conn.step wire ledger .ownerChecked = some { conn with
      authenticated := true
      timer := false
      groupName := some (portfolioGroupName conn.path.text)
      userId := some user
      handler := .joining } := by
    simp only [Connection.step, hchecking, howner]
  refine ⟨_, hstep, ?_⟩
  intro saved positions entry hsaved
  have hgroup : (portfolioUpdate saved positions entry).group =
      portfolioGroupName portfolio.id.str := by
    rw [← hsaved]
    rfl
  rw [hgroup, Option.some_inj]
  exact portfolioGroupName_eq_str_iff hparsed

theorem groupName_eq_group_iff_canonical_sample :
    ∃ conn', ({ Connection.connect firstPath (.initial firstPortfolio) with
        handler := .checkingOwner 1 }).step authWire (.initial firstPortfolio) .ownerChecked =
          some conn' ∧
      ∀ saved positions entry, saved.id = 1 →
        (conn'.groupName = some (portfolioUpdate saved positions entry).group ↔
          Uuid.Canonical firstPath.text) := by
  have howner : getOwnedPortfolioOrNone firstPortfolio 1 firstPath.text =
      some (some ⟨1, 1, .zero⟩) := rfl
  exact groupName_eq_group_iff_canonical authWire (.initial firstPortfolio)
    { Connection.connect firstPath (.initial firstPortfolio) with handler := .checkingOwner 1 }
    rfl howner

/-- An id with a letter in it, asked for in upper case. -/
def upperPath : PortfolioPath where
  text := "00000000-0000-0000-0000-00000000000A"
  matched := ⟨rfl, @of_decide_eq_true _ (List.decidableBAll _ _) rfl⟩

def tenthPortfolio : Ledger := { firstPortfolio with portfolios := [⟨10, 1, .zero⟩] }

/-- The owner is in a group that nothing is sent to. -/
theorem not_groupName_eq_group_sample : ∃ w conn,
    Run (step authWire .default) (.initial tenthPortfolio)
      (.connect upperPath :: joinsGroup.tail) w ∧
    w.connections = [conn] ∧ conn.member = true ∧
    getOwnedPortfolioOrNone w.ledger.db 1 conn.path.text = some (some ⟨10, 1, .zero⟩) ∧
    ∀ saved positions entry, saved.id = 10 →
      conn.groupName ≠ some (portfolioUpdate saved positions entry).group := by
  have hexec : (exec (step authWire .default) (.initial tenthPortfolio)
      (.connect upperPath :: joinsGroup.tail)).map
      (fun w => (w.ledger.db, w.connections.map fun conn => (conn.path, conn.member, conn.groupName))) =
        some (tenthPortfolio, [(upperPath, true, some (portfolioGroupName upperPath.text))]) := rfl
  obtain ⟨w, hrun, hvalues⟩ := Option.map_eq_some_iff.mp hexec
  obtain ⟨hdb, hconns⟩ := Prod.mk.inj hvalues
  obtain ⟨conn, hw, hconn⟩ := List.map_eq_singleton_iff.mp hconns
  obtain ⟨hpath, hmember, hname⟩ : conn.path = upperPath ∧ conn.member = true ∧
      conn.groupName = some (portfolioGroupName upperPath.text) := by
    simpa only [Prod.mk.injEq] using hconn
  refine ⟨w, conn, hrun, hw, hmember, ?_, ?_⟩
  · rw [hdb, hpath]
    rfl
  · intro saved positions entry hsaved
    have hgroup : (portfolioUpdate saved positions entry).group =
        portfolioGroupName (Uuid.str 10) := by
      rw [← hsaved]
      rfl
    rw [hname, hgroup, ne_eq, Option.some_inj, portfolioGroupName_inj]
    decide

section

variable {wire : Wire} {py : Python} {start : Ledger} {es : List Event} {w : World}

/-- What is handed to a channel names its portfolio by the canonical text. -/
theorem canonical_of_inbox (hrun : Run (step wire py) (.initial start) es w) :
    ∀ conn ∈ w.connections, ∀ payload ∈ conn.inbox, Uuid.Canonical payload.portfolioId := by
  refine connection_invariant
    (P := fun _ conn => ∀ payload ∈ conn.inbox, Uuid.Canonical payload.portfolioId) ?_ ?_ ?_ hrun
  · intro fs l path hfs payload hpayload
    cases hpayload
  · -- a step of the connection takes messages out at most
    intro fs l conn e conn' hfs h hstep
    cases Connection.step_moves hstep with
    | @dispatchUpdate payload inbox idle next =>
        exact fun payload hpayload => h payload (next ▸ List.mem_cons_of_mem _ hpayload)
    | _ => exact h
  · intro fs l conn e l' hfs h hstep
    unfold Connection.deliver
    split
    · intro payload hpayload
      rcases List.mem_append.mp hpayload with hold | hnew
      · exact h payload hold
      · obtain ⟨x, hx, rfl⟩ := List.mem_map.mp hnew
        obtain ⟨hmem, -⟩ := List.mem_filter.mp hx
        obtain ⟨-, -, entry, portfolio, positions, -, -, -, hmessage⟩ :=
          (MessageInv.of_run (run_concat_iff.mpr ⟨l, hfs, hstep⟩)).sent x (List.mem_of_mem_drop hmem)
        rw [hmessage]
        exact Uuid.canonical_str portfolio.id
    · exact h

/-- Whoever connects under another spelling is never handed an update, in no run. -/
theorem inbox_eq_nil_of_not_canonical (hids : (start.portfolios.map (·.id)).Nodup)
    (hrun : Run (step wire py) (.initial start) es w) {conn : Connection}
    (hconn : conn ∈ w.connections) (hspelling : ¬ Uuid.Canonical conn.path.text) :
    conn.inbox = [] := by
  apply List.eq_nil_iff_forall_not_mem.mpr
  intro payload hpayload
  obtain ⟨-, htext⟩ := (OwnerInv.of_run hids hrun conn hconn).inbox payload hpayload
  exact hspelling (htext ▸ canonical_of_inbox hrun conn hconn payload hpayload)

end

end DjasktTrading.Realtime
