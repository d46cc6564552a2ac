import DjasktTrading.Ledger.Views

/-!
# Recency — nothing is shown that is older than the asking

A view takes the balance at one moment and the positions at another.  Between the two anything may
commit; but neither of them is older than what called for the view, an answer than its request and a
message than its own commit.  So whoever asks after a commit sees it.
-/

open Reasoning

namespace DjasktTrading.Ledger

/-! ## 1. Answers -/

namespace ViewWorld

variable {v : ViewWorld} {n m : ℕ} {user : UserId} {phase phase' : ReadPhase}

theorem reads_putReader_self (here : v.Reads n user phase) (new : ReadPhase) :
    (v.putReader n new).Reads n user new := by
  unfold Reads putReader at *
  rw [List.getElem?_modify_eq, here]
  rfl

theorem reads_putReader_of_ne (hne : m ≠ n) (here : v.Reads n user phase) (new : ReadPhase) :
    (v.putReader m new).Reads n user phase := by
  unfold Reads putReader at *
  rw [List.getElem?_modify_ne _ _ hne]
  exact here

end ViewWorld

section

variable {py : Python} {start : Ledger} {v v' : ViewWorld} {n : ℕ} {user : UserId}
  {es : List ViewEvent} {e : ViewEvent} {portfolio : Portfolio} {view : View}

/-- The user had this portfolio row at a moment of the run from `v`. -/
def Loaded (py : Python) (v : ViewWorld) (es : List ViewEvent) (user : UserId)
    (portfolio : Portfolio) : Prop :=
  ∃ before u, before <+: es ∧ Run (viewStep py) v before u ∧
    portfolioOf? u.world.db user = some portfolio

/-- The view shows the balance of the user's portfolio at a moment of the run from `v`, and its
positions at a moment that is not earlier. -/
def Dated (py : Python) (v : ViewWorld) (es : List ViewEvent) (user : UserId) (view : View) : Prop :=
  ∃ first u later r portfolio, first ++ later <+: es ∧ Run (viewStep py) v first u ∧
    Run (viewStep py) u later r ∧ portfolioOf? u.world.db user = some portfolio ∧
    view = ⟨portfolio.id.str, .finite portfolio.cashBalance.value,
      (positionsOf r.world.db portfolio.id).map Position.item⟩

theorem Loaded.concat (h : Loaded py v es user portfolio) (e : ViewEvent) :
    Loaded py v (es ++ [e]) user portfolio := by
  obtain ⟨before, u, hbefore, hrest⟩ := h
  exact ⟨before, u, hbefore.trans (List.prefix_append es [e]), hrest⟩

theorem Dated.concat (h : Dated py v es user view) (e : ViewEvent) :
    Dated py v (es ++ [e]) user view := by
  obtain ⟨first, u, later, r, portfolio, hmoments, hrest⟩ := h
  exact ⟨first, u, later, r, portfolio, hmoments.trans (List.prefix_append es [e]), hrest⟩

/-- What reader `n` has read since `v`. -/
def HasRead (py : Python) (v : ViewWorld) (n : ℕ) (user : UserId) (es : List ViewEvent)
    (w : ViewWorld) : Prop :=
  ∃ phase, w.Reads n user phase ∧
    match phase with
    | .asked => True
    | .loaded portfolio => Loaded py v es user portfolio
    | .answered response => ∀ view, response.view? = some view → Dated py v es user view

theorem HasRead.still {w w' : ViewWorld} (h : HasRead py v n user es w) (e : ViewEvent)
    (hstill : ∀ phase, w.Reads n user phase → w'.Reads n user phase) :
    HasRead py v n user (es ++ [e]) w' := by
  obtain ⟨phase, hreads, hphase⟩ := h
  refine ⟨phase, hstill phase hreads, ?_⟩
  cases phase with
  | asked => trivial
  | loaded portfolio => exact Loaded.concat hphase e
  | answered response => exact fun view hview => (hphase view hview).concat e

/-- What another reader does is nothing to this one. -/
theorem HasRead.other {w : ViewWorld} (h : HasRead py v n user es w) {m : ℕ} (hm : m ≠ n)
    (phase : ReadPhase) (e : ViewEvent) :
    HasRead py v n user (es ++ [e]) (w.putReader m phase) :=
  h.still _ fun _ hreads => ViewWorld.reads_putReader_of_ne hm hreads _

theorem HasRead.fails {w : ViewWorld} (h : HasRead py v n user es w) (m : ℕ) {response : Response}
    (hnone : response.view? = none) (e : ViewEvent) :
    HasRead py v n user (es ++ [e]) (w.putReader m (.answered response)) := by
  by_cases hm : m = n
  · subst hm
    obtain ⟨phase, hreads, -⟩ := h
    refine ⟨_, ViewWorld.reads_putReader_self hreads _, fun view hview => ?_⟩
    rw [hnone] at hview
    cases hview
  · exact h.other hm _ e

theorem HasRead.step {w w' : ViewWorld} (h : HasRead py v n user es w)
    (hrun : Run (viewStep py) v es w) (hstep : viewStep py w e = some w') :
    HasRead py v n user (es ++ [e]) w' := by
  cases e with
  | ledger e =>
      obtain ⟨world, -, rfl⟩ := Option.map_eq_some_iff.mp hstep
      exact h.still _ fun _ hreads => hreads
  | get other =>
      cases hstep
      refine h.still _ fun phase hreads => ?_
      unfold ViewWorld.Reads at *
      rw [List.getElem?_append_left (List.getElem?_eq_some_iff.mp hreads).1]
      exact hreads
  | loadPortfolio m =>
      simp only [viewStep] at hstep
      split at hstep
      · rename_i other here
        by_cases hm : m = n
        · subst hm
          obtain ⟨phase, hreads, -⟩ := h
          obtain ⟨rfl, rfl⟩ : other = user ∧ .asked = phase := by
            simpa [ViewWorld.Reads] using here.symm.trans hreads
          split at hstep
          · cases hstep
            refine ⟨_, ViewWorld.reads_putReader_self hreads _, fun view hview => ?_⟩
            cases hview
          · rename_i portfolio hrow
            cases hstep
            exact ⟨_, ViewWorld.reads_putReader_self hreads _, es, w, List.prefix_append _ _, hrun,
              hrow⟩
        · split at hstep
          · cases hstep
            exact h.other hm _ _
          · cases hstep
            exact h.other hm _ _
      · cases hstep
  | loadPositions m =>
      simp only [viewStep] at hstep
      split at hstep
      · rename_i other portfolio here
        cases hstep
        by_cases hm : m = n
        · subst hm
          obtain ⟨phase, hreads, hphase⟩ := h
          obtain ⟨rfl, rfl⟩ : other = user ∧ .loaded portfolio = phase := by
            simpa [ViewWorld.Reads] using here.symm.trans hreads
          refine ⟨_, ViewWorld.reads_putReader_self hreads _, fun view hview => ?_⟩
          obtain rfl := Option.some.inj hview
          -- the balance was read before, the positions are read now
          obtain ⟨first, u, hfirst, hu, hrow⟩ := hphase
          obtain ⟨later, rfl⟩ := hfirst
          obtain ⟨u', hu', hlater⟩ := run_append_iff.mp hrun
          obtain rfl := hu.unique hu'
          exact ⟨first, u, later, w, portfolio, List.prefix_append _ _, hu, hlater, hrow, rfl⟩
        · exact h.other hm _ _
      · cases hstep
  | readFails m =>
      simp only [viewStep] at hstep
      split at hstep
      · cases hstep
        exact h.fails m rfl _
      · cases hstep
        exact h.fails m rfl _
      · cases hstep

/-- **An answer is no older than its request.**  Whatever commits while a `GET /portfolio/` is
answered, the balance it shows is that of the user's portfolio at a moment since the request came in,
and the positions are those of that portfolio at a moment since then: every commit that was there when
it came in is in both. -/
theorem get_dated {post : List ViewEvent} {w : ViewWorld} {response : Response}
    (hrun : Run (viewStep py) v (.get user :: post) w)
    (hanswered : w.Reads v.readers.length user (.answered response))
    (hview : response.view? = some view) : Dated py v (.get user :: post) user view := by
  obtain ⟨v₀, harrives, hrest⟩ := run_cons_iff.mp hrun
  have hread : HasRead py v₀ v.readers.length user post w := by
    refine hrest.induction (motive := fun es w => HasRead py v₀ v.readers.length user es w) ?_ ?_
    · cases harrives
      exact ⟨.asked, List.getElem?_concat_length, trivial⟩
    · exact fun es u e u' hes h hstep => h.step hes hstep
  obtain ⟨phase, hreads, hphase⟩ := hread
  obtain rfl : .answered response = phase := by
    simpa [ViewWorld.Reads] using hanswered.symm.trans hreads
  obtain ⟨first, u, later, r, portfolio, hmoments, hu, hrest⟩ := hphase view hview
  exact ⟨.get user :: first, u, later, r, portfolio, List.cons_prefix_cons.mpr ⟨rfl, hmoments⟩,
    run_cons_iff.mpr ⟨v₀, harrives, hu⟩, hrest⟩

end

/-- Two deposits commit between the two reads of a `GET`. -/
def getAroundDeposits : List ViewEvent :=
  .get 1 :: .loadPortfolio 0 :: twoDeposits.map .ledger ++ [.loadPositions 0]

theorem get_dated_getAroundDeposits : ∃ w view,
    Run (viewStep .default) (.initial firstPortfolio) getAroundDeposits w ∧
      view ∈ w.views ∧ view.cashBalance = .finite 0 ∧
      Dated .default (.initial firstPortfolio) getAroundDeposits 1 view := by
  have hvalues : (exec (viewStep .default) (.initial firstPortfolio) getAroundDeposits).map
      (fun w => w.readers) = some [⟨1, .answered (portfolioResponse ⟨1, 1, .zero⟩ [])⟩] := by
    decide +kernel
  obtain ⟨w, hrun, hw⟩ := Option.map_eq_some_iff.mp hvalues
  have hanswered : w.Reads 0 1 (.answered (portfolioResponse ⟨1, 1, .zero⟩ [])) := by
    rw [ViewWorld.Reads, hw]
    rfl
  let view : View := ⟨Uuid.str 1, .finite (Numeric.zero).value, []⟩
  have hview : Response.view? (portfolioResponse ⟨1, 1, .zero⟩ []) = some view := rfl
  refine ⟨w, view, hrun, ?_, ?_, get_dated hrun hanswered hview⟩
  · refine List.mem_append_right _ (List.mem_filterMap.mpr ⟨_, List.mem_of_getElem? hanswered, ?_⟩)
    exact hview
  · simp [view, Numeric.zero, Numeric.value]

/-! ## 2. Messages -/

section

variable {py : Python} {start : Ledger} {u w w' : World} {i : ℕ} {es : List Event} {call : Call}
  {job : Job} {entry : Entry} {portfolio : PortfolioInstance}

/-- Who has sent a message is over and has sent no other. -/
structure ToldOnce (w : World) : Prop where
  nodup : (w.sent.map Prod.fst).Nodup
  ended : ∀ x ∈ w.sent, ∃ call outcome, w.At x.1 call (.done outcome)

theorem ToldOnce.step (h : ToldOnce w) {e : Event} (hstep : step py w e = some w') :
    ToldOnce w' := by
  have hstays : ∀ x ∈ w.sent, ∃ call outcome, w'.At x.1 call (.done outcome) := by
    intro x hx
    obtain ⟨call, outcome, hat⟩ := h.ended x hx
    obtain ⟨phase, hat', hdone⟩ := step_at hstep hat
    exact ⟨call, outcome, hdone outcome rfl ▸ hat'⟩
  rcases sent_of_step hstep with hsent | ⟨i, call, entry, portfolio, message, rfl, hat, hsent⟩
  · exact ⟨hsent ▸ h.nodup, hsent ▸ hstays⟩
  · constructor
    case nodup =>
      rw [hsent]
      refine nodup_map_append_singleton h.nodup ?_
      rintro x hx rfl
      -- the sender was about to send, so it was not over
      obtain ⟨call', outcome, hended⟩ := h.ended x hx
      cases (hat.unique hended).2
    case ended =>
      intro x hx
      rw [hsent] at hx
      rcases List.mem_append.mp hx with hold | hnew
      · exact hstays x hold
      · rw [List.mem_singleton.mp hnew]
        cases step_fires hstep with
        | groupSend here => exact ⟨_, _, (World.at_put_self here).mpr ⟨rfl, rfl⟩⟩

theorem ToldOnce.of_run {es : List Event}
    (hrun : Run (Ledger.step py) (.initial start) es w) : ToldOnce w :=
  hrun.invariant ⟨List.nodup_nil, fun _ hmem => absurd hmem List.not_mem_nil⟩
    fun _ _ _ h hstep => h.step hstep

/-- The message has the positions of a moment of the run from `u`. -/
def Reread (py : Python) (u : World) (portfolio : PortfolioInstance) (entry : Entry)
    (es : List Event) (message : Broadcast) : Prop :=
  ∃ before r, before <+: es ∧ Run (step py) u before r ∧
    message = portfolioUpdate portfolio (positionsOf r.db portfolio.id) entry

/-- What a request tells, once it has committed at `u`. -/
structure Tells (py : Python) (u : World) (i : ℕ) (job : Job) (portfolio : PortfolioInstance)
    (entry : Entry) (es : List Event) (w : World) : Prop where
  commits : (i, job) ∈ w.commits
  committed : ∀ call entry' portfolio', w.At i call (.committed entry' portfolio') →
    entry' = entry ∧ portfolio' = portfolio
  sending : ∀ call entry' portfolio' message, w.At i call (.sending entry' portfolio' message) →
    Reread py u portfolio entry es message
  sent : ∀ message, (i, message) ∈ w.sent → Reread py u portfolio entry es message

theorem Reread.concat {message : Broadcast} (h : Reread py u portfolio entry es message) (e : Event) :
    Reread py u portfolio entry (es ++ [e]) message := by
  obtain ⟨before, r, hbefore, hrest⟩ := h
  exact ⟨before, r, hbefore.trans (List.prefix_append es [e]), hrest⟩

theorem Tells.step (h : Tells py u i job portfolio entry es w) (hinv : Inv py start w)
    (hrun : Run (step py) u es w) {e : Event} (hstep : step py w e = some w') :
    Tells py u i job portfolio entry (es ++ [e]) w' := by
  constructor
  case commits =>
    have hone : Run (Ledger.step py) w [e] w' := run_cons_iff.mpr ⟨w', hstep, run_nil_iff.mpr rfl⟩
    exact (run_commits hone).subset h.commits
  case committed =>
    intro call entry' portfolio' there
    rcases committed_of_step hstep there with here | ⟨job', ws, -, here⟩
    · exact h.committed call entry' portfolio' here
    · -- it has committed, so its transaction is not open
      exact absurd h.commits (hinv.notMem_commits here (by simp [Phase.Past]) job)
  case sending =>
    intro call entry' portfolio' message there
    rcases sending_of_step hstep there with here | ⟨-, here, rfl⟩
    · exact (h.sending call entry' portfolio' message here).concat e
    · obtain ⟨rfl, rfl⟩ := h.committed call entry' portfolio' here
      exact ⟨es, w, List.prefix_append _ _, hrun, rfl⟩
  case sent =>
    intro message hmem
    rcases sent_of_step hstep with hsent | ⟨j, call, entry', portfolio', message', -, here, hsent⟩
    · exact (h.sent message (hsent ▸ hmem)).concat e
    · rw [hsent] at hmem
      rcases List.mem_append.mp hmem with hold | hnew
      · exact (h.sent message hold).concat e
      · obtain ⟨rfl, rfl⟩ := Prod.mk.inj (List.mem_singleton.mp hnew)
        exact (h.sending call entry' portfolio' message here).concat e

/-- Right after its commit a request has told nothing. -/
theorem Tells.of_commit {v : World} {ws : List Write} (htold : ToldOnce v)
    (here : v.At i call (.inTx job (.recorded entry portfolio) ws))
    (hu : u = { v.put i (.committed entry portfolio) with
      db := applyAll v.db ws, commits := v.commits ++ [(i, job)] }) :
    Tells py u i job portfolio entry [] u := by
  subst hu
  have hput {call' : Call} {phase : Phase}
      (there : (v.put i (.committed entry portfolio)).At i call' phase) :
      phase = .committed entry portfolio := ((World.at_put_self here).mp there).2
  constructor
  case commits => exact List.mem_append_right _ (List.mem_singleton_self _)
  case committed =>
    intro call' entry' portfolio' there
    cases hput there
    exact ⟨rfl, rfl⟩
  case sending =>
    intro call' entry' portfolio' message there
    cases hput there
  case sent =>
    -- it is not over, so it has sent nothing
    intro message hmem
    obtain ⟨call', outcome, hended⟩ := htold.ended _ hmem
    cases (here.unique hended).2

/-- **A message is no older than its commit.**  Whatever commits before it is sent, the balance in it
is the one that its own commit has left, and the positions are those of the portfolio at a moment
since that commit, which are in it with all that was committed before. -/
theorem broadcast_dated {pre post : List Event}
    (hcommit : Run (step py) (.initial start) (pre ++ [.commit i]) u)
    (hrest : Run (step py) u post w) {message : Broadcast} (hsent : (i, message) ∈ w.sent) :
    ∃ row ∈ u.db.portfolios, ∃ before r, before <+: post ∧ Run (step py) u before r ∧
      row.id.str = message.payload.portfolioId ∧
        Numeric.writeDecimal message.payload.cashBalance = .ok row.cashBalance ∧
          message.payload.positions = (positionsOf r.db row.id).map Position.item := by
  obtain ⟨v, hv, hstep⟩ := run_concat_iff.mp hcommit
  have hinv := Inv.of_run hv
  obtain ⟨call, job, entry, portfolio, ws, here, hu⟩ : ∃ call job entry portfolio ws,
      v.At i call (.inTx job (.recorded entry portfolio) ws) ∧
        u = { v.put i (.committed entry portfolio) with
          db := applyAll v.db ws, commits := v.commits ++ [(i, job)] } := by
    cases step_fires hstep with
    | commit here => exact ⟨_, _, _, _, _, here, rfl⟩
  obtain ⟨c, rfl, rfl, hafter⟩ := hinv.commit_of_recorded here
  obtain ⟨row, hrow, hid, hcash⟩ := c.portfolio_saved
  have hstart : Tells py u i job c.portfolio c.entry [] u :=
    .of_commit (ToldOnce.of_run hv) here hu
  have htells := hrest.induction
    (motive := fun es w => Inv py start w ∧ Tells py u i job c.portfolio c.entry es w)
    ⟨hinv.step hstep, hstart⟩
    fun es t e t' ht ih hstep' => ⟨ih.1.step hstep', ih.2.step ih.1 ht hstep'⟩
  obtain ⟨before, r, hbefore, hr, rfl⟩ := htells.2.sent message hsent
  refine ⟨row, ?_, before, r, hbefore, hr, congrArg Uuid.str hid, hcash, ?_⟩
  · rw [hu]
    change row ∈ (applyAll v.db ws).portfolios
    rw [hafter]
    exact List.mem_of_find?_eq_some hrow
  · rw [hid]
    rfl

end

/-- The first of the two deposits to commit tells after the second has committed. -/
theorem broadcast_dated_twoDeposits : ∃ u w message,
    Run (step .default) (.initial firstPortfolio) (twoDeposits.take 10 ++ [.commit 1]) u ∧
      Run (step .default) u (twoDeposits.drop 11 ++ [.reread 1, .groupSend 1]) w ∧
        (1, message) ∈ w.sent ∧ ∃ row ∈ u.db.portfolios,
          Numeric.writeDecimal message.payload.cashBalance = .ok row.cashBalance := by
  have hvalues : ((exec (step .default) (.initial firstPortfolio)
      (twoDeposits.take 10 ++ [.commit 1])).bind fun u =>
        exec (step .default) u (twoDeposits.drop 11 ++ [.reread 1, .groupSend 1])).map
          (fun w => w.sent.map Prod.fst) = some [1] := by decide +kernel
  obtain ⟨w, hruns, hw⟩ := Option.map_eq_some_iff.mp hvalues
  obtain ⟨u, hcommit, hrest⟩ := Option.bind_eq_some_iff.mp hruns
  obtain ⟨⟨i, message⟩, hsent, rfl⟩ := List.map_eq_singleton_iff.mp hw
  have hmem : (1, message) ∈ w.sent := hsent ▸ List.mem_singleton_self _
  obtain ⟨row, hrow, -, -, -, -, -, hcash, -⟩ := broadcast_dated hcommit hrest hmem
  exact ⟨u, w, message, hcommit, hrest, hmem, row, hrow, hcash⟩

end DjasktTrading.Ledger
