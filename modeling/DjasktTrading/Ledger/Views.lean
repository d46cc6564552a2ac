import DjasktTrading.Ledger.Router
import DjasktTrading.Ledger.Broadcasts
import DjasktTrading.Ledger.Serializability

/-!
# Views — what the server shows of a portfolio

Two things show a balance together with positions: the answer to `GET /portfolio/`, which reads them
in two queries, and the broadcast after a commit, which takes the balance from the instance in memory
and reads the positions.  Other requests commit in between.
-/

open Reasoning

namespace DjasktTrading.Ledger

/-! ## 1. `GET /portfolio/`, one query at a time -/

/-- Where a `GET /portfolio/` stands. -/
inductive ReadPhase where
  | asked
  /-- `get_portfolio_for_user` has returned -/
  | loaded (portfolio : Portfolio)
  | answered (response : Response)
deriving DecidableEq

structure Reader where
  user : UserId
  phase : ReadPhase
deriving DecidableEq

/-- The mutating requests of a world, and the reading ones. -/
structure ViewWorld where
  world : World
  readers : List Reader

namespace ViewWorld

def initial (db : Ledger) : ViewWorld where
  world := .initial db
  readers := []

/-- Reader `n` asks for this user and stands at this phase. -/
def Reads (v : ViewWorld) (n : ℕ) (user : UserId) (phase : ReadPhase) : Prop :=
  v.readers[n]? = some ⟨user, phase⟩

def putReader (v : ViewWorld) (n : ℕ) (phase : ReadPhase) : ViewWorld :=
  { v with readers := v.readers.modify n fun reader => { reader with phase } }

end ViewWorld

inductive ViewEvent where
  | ledger (e : Event)
  | get (user : UserId)
  | loadPortfolio (n : ℕ)
  | loadPositions (n : ℕ)
  /-- the database fails a query -/
  | readFails (n : ℕ)

/-- The answer of `get_portfolio` once both queries have returned. -/
def portfolioResponse (portfolio : Portfolio) (positions : List Position) : Response :=
  ⟨200, .portfolio {
    portfolioId := portfolio.id
    cashBalance := portfolio.cashBalance.value
    positions := positions.map fun p => { ticker := p.ticker, quantity := p.quantity.value } }⟩

/-- With nothing in between, the two queries answer as the action does. -/
theorem getPortfolioAction_eq (user : UserId) (db : Ledger) :
    getPortfolioAction user db =
      match portfolioOf? db user with
      | none => noPortfolio
      | some portfolio => portfolioResponse portfolio (positionsOf db portfolio.id) := rfl

/-- A read that is answered shows the user's row. -/
theorem getPortfolioAction_eq_ok {user : UserId} {db : Ledger} {response : PortfolioResponse}
    (h : getPortfolioAction user db = ⟨200, .portfolio response⟩) :
    ∃ row, portfolioOf? db user = some row ∧
      portfolioResponse row (positionsOf db row.id) = ⟨200, .portfolio response⟩ := by
  rw [getPortfolioAction_eq] at h
  cases hrow : portfolioOf? db user with
  | none => simp [hrow, noPortfolio] at h
  | some row =>
      rw [hrow] at h
      exact ⟨row, rfl, h⟩

def viewStep (py : Python) (v : ViewWorld) : ViewEvent → Option ViewWorld
  | .ledger e => (step py v.world e).map fun world => { v with world }
  | .get user => some { v with readers := v.readers ++ [{ user, phase := .asked }] }
  | .loadPortfolio n =>
      match v.readers[n]? with
      | some ⟨user, .asked⟩ =>
          match portfolioOf? v.world.db user with
          | none => some (v.putReader n (.answered noPortfolio))
          | some portfolio => some (v.putReader n (.loaded portfolio))
      | _ => none
  | .loadPositions n =>
      match v.readers[n]? with
      | some ⟨_, .loaded portfolio⟩ => some (v.putReader n (.answered
          (portfolioResponse portfolio (positionsOf v.world.db portfolio.id))))
      | _ => none
  | .readFails n =>
      match v.readers[n]? with
      | some ⟨_, .asked⟩ => some (v.putReader n (.answered (errorResponse .operationalError)))
      | some ⟨_, .loaded _⟩ => some (v.putReader n (.answered (errorResponse .operationalError)))
      | _ => none

namespace ViewWorld

variable {v : ViewWorld} {n m : ℕ} {user : UserId} {phase phase' : ReadPhase}

/-- When reader `n` has moved on, a reader is at its new phase, or it has not moved. -/
theorem reads_putReader_cases (h : (v.putReader n phase).Reads m user phase') :
    phase' = phase ∨ v.Reads m user phase' := by
  unfold Reads putReader at *
  rw [List.getElem?_modify] at h
  split at h
  · obtain ⟨reader, -, heq⟩ := Option.map_eq_some_iff.mp h
    cases heq
    exact .inl rfl
  · exact .inr (by simpa using h)

end ViewWorld

/-! ## 2. Views -/

/-- A balance and positions shown together. -/
structure View where
  portfolioId : String
  cashBalance : Decimal
  positions : List PositionItem
deriving DecidableEq

def Payload.view (payload : Payload) : View where
  portfolioId := payload.portfolioId
  cashBalance := payload.cashBalance
  positions := payload.positions

def Response.view? : Response → Option View
  | ⟨_, .portfolio p⟩ => some {
      portfolioId := p.portfolioId.str
      cashBalance := .finite p.cashBalance
      positions := p.positions }
  | _ => none

def Reader.view? (reader : Reader) : Option View :=
  match reader.phase with
  | .answered response => response.view?
  | _ => none

/-- What has been sent to a group or answered. -/
def ViewWorld.views (v : ViewWorld) : List View :=
  v.world.sent.map (·.2.payload.view) ++ v.readers.filterMap Reader.view?

theorem ViewWorld.mem_views_putReader {v : ViewWorld} {n : ℕ} {phase : ReadPhase} {view : View}
    (h : view ∈ (v.putReader n phase).views) :
    view ∈ v.views ∨ ∃ user, Reader.view? ⟨user, phase⟩ = some view := by
  rcases List.mem_append.mp h with h | h
  · exact .inl (List.mem_append_left _ h)
  · obtain ⟨⟨user, phase'⟩, hreader, hview⟩ := List.mem_filterMap.mp h
    obtain ⟨m, hm⟩ := List.mem_iff_getElem?.mp hreader
    have hreads : (v.putReader n phase).Reads m user phase' := hm
    rcases reads_putReader_cases hreads with rfl | hm
    · exact .inr ⟨user, hview⟩
    · have hold : view ∈ v.readers.filterMap Reader.view? :=
        List.mem_filterMap.mpr ⟨_, List.mem_of_getElem? hm, hview⟩
      exact .inl (List.mem_append_right _ hold)

/-- A position as a view shows it. -/
def Position.item (p : Position) : PositionItem :=
  { ticker := p.ticker, quantity := p.quantity.value }

/-- The view shows, at four decimals, the balance and the positions that its portfolio has in `db`. -/
def View.Shows (view : View) (db : Ledger) : Prop :=
  ∃ row ∈ db.portfolios, row.id.str = view.portfolioId ∧
    Numeric.writeDecimal view.cashBalance = .ok row.cashBalance ∧
    view.positions.Perm ((positionsOf db row.id).map Position.item)

instance (view : View) (db : Ledger) : Decidable (view.Shows db) :=
  inferInstanceAs (Decidable (∃ row ∈ db.portfolios, _))

/-- The view shows the rows of some state that the run has committed. -/
def Shown (py : Python) (start : Ledger) (es : List ViewEvent) (view : View) : Prop :=
  ∃ earlier u, earlier <+: es ∧ Run (viewStep py) (.initial start) earlier u ∧
    view.Shows u.world.db

/-- Every view is a snapshot. -/
def Snapshots (py : Python) (start : Ledger) (es : List ViewEvent) (v : ViewWorld) : Prop :=
  ∀ view ∈ v.views, Shown py start es view

/-- A broadcast or a `GET` of the portfolio has its balance, and reads the positions later. -/
def ViewWorld.Between (later : List ViewEvent) (v : ViewWorld) (id : Uuid) : Prop :=
  (∃ i call entry portfolio, v.world.At i call (.committed entry portfolio) ∧ portfolio.id = id ∧
      .ledger (.reread i) ∈ later) ∨
    ∃ n user portfolio, v.Reads n user (.loaded portfolio) ∧ portfolio.id = id ∧
      .loadPositions n ∈ later

/-- The step is no commit that changes positions in the middle of a view of them. -/
def ViewWorld.Uncut (later : List ViewEvent) (v : ViewWorld) (e : ViewEvent) : Prop :=
  ∀ i call job entry portfolio ws, e = .ledger (.commit i) →
    v.world.At i call (.inTx job (.recorded entry portfolio) ws) → v.Between later job.portfolioId →
      positionsOf (applyAll v.world.db ws) job.portfolioId = positionsOf v.world.db job.portfolioId

/-- No step of the run cuts a view that the rest of the run completes. -/
def Uncut (py : Python) (start : Ledger) (es : List ViewEvent) : Prop :=
  ∀ earlier e later v, es = earlier ++ e :: later → Run (viewStep py) (.initial start) earlier v →
    v.Uncut later e

/-! ## 3. Runs whose views are not cut -/

section

variable {py : Python} {start : Ledger} {es : List ViewEvent} {v v' : ViewWorld} {e : ViewEvent}
  {id : Uuid} {cash : Decimal} {view : View}

/-- The portfolio has had this balance, together with the positions it has now. -/
def Had (py : Python) (start : Ledger) (es : List ViewEvent) (db : Ledger) (id : Uuid)
    (cash : Decimal) : Prop :=
  ∃ earlier u, earlier <+: es ∧ Run (viewStep py) (.initial start) earlier u ∧
    ∃ row ∈ u.world.db.portfolios, row.id = id ∧
      Numeric.writeDecimal cash = .ok row.cashBalance ∧
      positionsOf u.world.db id = positionsOf db id

theorem Shown.concat (h : Shown py start es view) (e : ViewEvent) :
    Shown py start (es ++ [e]) view := by
  obtain ⟨earlier, u, hearlier, hrest⟩ := h
  exact ⟨earlier, u, hearlier.trans (List.prefix_append es [e]), hrest⟩

theorem Had.concat {db db' : Ledger} (h : Had py start es db id cash) (e : ViewEvent)
    (hsame : positionsOf db' id = positionsOf db id) : Had py start (es ++ [e]) db' id cash := by
  obtain ⟨earlier, u, hearlier, hrun, row, hrow, hid, hcash, hpositions⟩ := h
  exact ⟨earlier, u, hearlier.trans (List.prefix_append es [e]), hrun, row, hrow, hid, hcash,
    hpositions.trans hsame.symm⟩

/-- The positions that are read now go with the balance. -/
theorem Had.shown {db : Ledger} (h : Had py start es db id cash) :
    Shown py start es ⟨id.str, cash, (positionsOf db id).map Position.item⟩ := by
  obtain ⟨earlier, u, hearlier, hrun, row, hrow, rfl, hcash, hpositions⟩ := h
  refine ⟨earlier, u, hearlier, hrun, row, hrow, rfl, hcash, ?_⟩
  rw [hpositions]

theorem portfolioUpdate_view (portfolio : PortfolioInstance) (positions : List Position)
    (entry : Entry) :
    (portfolioUpdate portfolio positions entry).payload.view =
      ⟨portfolio.id.str, portfolio.cashBalance, positions.map Position.item⟩ := rfl

/-- What has been read so far, and what is completed later, goes together. -/
structure ViewInv (py : Python) (start : Ledger) (es later : List ViewEvent) (v : ViewWorld) :
    Prop where
  inv : Inv py start v.world
  committed : ∀ {i call entry portfolio}, v.world.At i call (.committed entry portfolio) →
    .ledger (.reread i) ∈ later → Had py start es v.world.db portfolio.id portfolio.cashBalance
  loaded : ∀ {n user portfolio}, v.Reads n user (.loaded portfolio) → .loadPositions n ∈ later →
    Had py start es v.world.db portfolio.id (.finite portfolio.cashBalance.value)
  sending : ∀ {i call entry portfolio message},
    v.world.At i call (.sending entry portfolio message) → Shown py start es message.payload.view
  snapshots : Snapshots py start es v

/-- A ledger step that is not in the way of a view keeps the positions that views still have to
read. -/
theorem positionsOf_of_step {w w' : World} {e : Event} (hinv : Inv py start w)
    (hstep : step py w e = some w')
    (hkept : ∀ i call job entry portfolio ws, e = .commit i →
      w.At i call (.inTx job (.recorded entry portfolio) ws) → job.portfolioId = id →
        positionsOf (applyAll w.db ws) id = positionsOf w.db id) :
    positionsOf w'.db id = positionsOf w.db id := by
  rcases db_of_step hstep with ⟨hdb, -⟩ | ⟨i, call, job, entry, portfolio, ws, rfl, here, hdb, -⟩
  · rw [hdb]
  rw [hdb]
  by_cases hid : job.portfolioId = id
  · exact hkept i call job entry portfolio ws rfl here hid
  · obtain ⟨c, -, -, hafter⟩ := hinv.commit_of_recorded here
    rw [hafter]
    exact (c.agreeOn_after (Ne.symm hid)).positions

namespace ViewInv

variable {later : List ViewEvent}

theorem initial (py : Python) (start : Ledger) (later : List ViewEvent) :
    ViewInv py start [] later (.initial start) where
  inv := Inv.initial py start
  committed here := by simp [ViewWorld.initial, World.At, World.initial] at here
  loaded here := by simp [ViewWorld.initial, ViewWorld.Reads] at here
  sending here := by simp [ViewWorld.initial, World.At, World.initial] at here
  snapshots view hview := by simp [ViewWorld.initial, ViewWorld.views, World.initial] at hview

/-- The database has read one more thing for a reader. -/
theorem putReader {e : ViewEvent} (h : ViewInv py start es (e :: later) v) {n : ℕ}
    {phase : ReadPhase}
    (hloaded : ∀ portfolio, phase = .loaded portfolio →
      Had py start (es ++ [e]) v.world.db portfolio.id (.finite portfolio.cashBalance.value))
    (hview : ∀ view user, Reader.view? ⟨user, phase⟩ = some view → Shown py start es view) :
    ViewInv py start (es ++ [e]) later (v.putReader n phase) where
  inv := h.inv
  committed here hlater := (h.committed here (List.mem_cons_of_mem e hlater)).concat e rfl
  loaded there hlater := by
    rcases ViewWorld.reads_putReader_cases there with rfl | there
    · exact hloaded _ rfl
    · exact (h.loaded there (List.mem_cons_of_mem e hlater)).concat e rfl
  sending here := (h.sending here).concat e
  snapshots view hmem := by
    rcases ViewWorld.mem_views_putReader hmem with hmem | ⟨user, hsome⟩
    · exact (h.snapshots view hmem).concat e
    · exact (hview view user hsome).concat e

/-- A ledger step between, before or after the reads of views. -/
theorem ledger {e : Event} (h : ViewInv py start es (.ledger e :: later) v)
    (hrun : Run (viewStep py) (.initial start) es v) (huncut : v.Uncut later (.ledger e)) {w : World}
    (hstep : step py v.world e = some w) :
    ViewInv py start (es ++ [.ledger e]) later { v with world := w } := by
  have hpositions {id : Uuid} (hbetween : v.Between later id) :
      positionsOf w.db id = positionsOf v.world.db id := by
    refine positionsOf_of_step h.inv hstep ?_
    rintro i call job entry portfolio ws rfl here rfl
    exact huncut i call job entry portfolio ws rfl here hbetween
  have hrun' : Run (viewStep py) (.initial start) (es ++ [.ledger e]) { v with world := w } := by
    refine run_concat_iff.mpr ⟨v, hrun, ?_⟩
    simp only [viewStep, hstep, Option.map_some]
  constructor
  · exact h.inv.step hstep
  · intro j call entry portfolio there hlater
    rcases committed_of_step hstep there with there | ⟨job, ws, rfl, here⟩
    · have hbetween : v.Between later portfolio.id :=
        .inl ⟨j, call, entry, portfolio, there, rfl, hlater⟩
      exact (h.committed there (List.mem_cons_of_mem _ hlater)).concat _ (hpositions hbetween)
    · -- the state it has just committed is the one it shows
      obtain ⟨c, -, rfl, hafter⟩ := h.inv.commit_of_recorded here
      obtain ⟨row, hrow, hid, hcash⟩ := c.portfolio_saved
      refine ⟨_, _, List.prefix_refl _, hrun', row, ?_, hid, hcash, rfl⟩
      change row ∈ w.db.portfolios
      rw [(db_of_commit hstep here).1, hafter]
      exact List.mem_of_find?_eq_some hrow
  · intro n user portfolio there hlater
    have hbetween : v.Between later portfolio.id := .inr ⟨n, user, portfolio, there, rfl, hlater⟩
    exact (h.loaded there (List.mem_cons_of_mem _ hlater)).concat _ (hpositions hbetween)
  · intro j call entry portfolio message there
    rcases sending_of_step hstep there with there | ⟨rfl, here, rfl⟩
    · exact (h.sending there).concat _
    · exact (h.committed here (List.mem_cons_self ..)).shown.concat _
  · intro view hmem
    rcases List.mem_append.mp hmem with hmem | hmem
    · rcases sent_of_step hstep with hsent | ⟨i, call, entry, portfolio, message, -, here, hsent⟩
      · rw [hsent] at hmem
        exact (h.snapshots view (List.mem_append_left _ hmem)).concat _
      · rw [hsent, List.map_append] at hmem
        rcases List.mem_append.mp hmem with hmem | hmem
        · exact (h.snapshots view (List.mem_append_left _ hmem)).concat _
        · obtain rfl := List.mem_singleton.mp hmem
          exact (h.sending here).concat _
    · exact (h.snapshots view (List.mem_append_right _ hmem)).concat _

/-- Reader `n` has read the portfolio's row: the balance goes with the positions of now. -/
theorem had_of_portfolioOf? (hrun : Run (viewStep py) (.initial start) es v) {user : UserId}
    {portfolio : Portfolio} (h : portfolioOf? v.world.db user = some portfolio) :
    Had py start es v.world.db portfolio.id (.finite portfolio.cashBalance.value) :=
  ⟨es, v, List.prefix_refl _, hrun, portfolio, List.mem_of_find?_eq_some h, rfl,
    Numeric.write_value _, rfl⟩

/-- A request that has just come in has read nothing. -/
theorem get {e : ViewEvent} (h : ViewInv py start es (e :: later) v) (user : UserId) :
    ViewInv py start (es ++ [e]) later { v with readers := v.readers ++ [⟨user, .asked⟩] } where
  inv := h.inv
  committed here hlater := (h.committed here (List.mem_cons_of_mem e hlater)).concat e rfl
  loaded {n user' portfolio} there hlater := by
    have hbefore : v.Reads n user' (.loaded portfolio) := by
      unfold ViewWorld.Reads at there ⊢
      rw [List.getElem?_append] at there
      split at there
      · exact there
      · cases List.mem_singleton.mp (List.mem_of_getElem? there)
    exact (h.loaded hbefore (List.mem_cons_of_mem e hlater)).concat e rfl
  sending here := (h.sending here).concat e
  snapshots view hmem := by
    have hold : view ∈ v.views := by
      simpa [ViewWorld.views, Reader.view?, List.filterMap_append] using hmem
    exact (h.snapshots view hold).concat e

theorem step (h : ViewInv py start es (e :: later) v)
    (hrun : Run (viewStep py) (.initial start) es v) (huncut : v.Uncut later e)
    (hstep : viewStep py v e = some v') : ViewInv py start (es ++ [e]) later v' := by
  cases e with
  | ledger e =>
      obtain ⟨w, hw, rfl⟩ := Option.map_eq_some_iff.mp hstep
      exact h.ledger hrun huncut hw
  | get user =>
      obtain rfl := Option.some.inj hstep
      exact h.get user
  | loadPortfolio n =>
      simp only [viewStep] at hstep
      split at hstep
      · rename_i user here
        split at hstep
        · obtain rfl := Option.some.inj hstep
          exact h.putReader nofun nofun
        · rename_i portfolio hrow
          obtain rfl := Option.some.inj hstep
          refine h.putReader ?_ nofun
          rintro _ ⟨⟩
          exact (had_of_portfolioOf? hrun hrow).concat _ rfl
      · cases hstep
  | loadPositions n =>
      simp only [viewStep] at hstep
      split at hstep
      · rename_i user portfolio here
        obtain rfl := Option.some.inj hstep
        refine h.putReader nofun ?_
        intro view user hview
        obtain rfl := Option.some.inj hview
        exact (h.loaded here (List.mem_cons_self ..)).shown
      · cases hstep
  | readFails n =>
      simp only [viewStep] at hstep
      split at hstep
      · obtain rfl := Option.some.inj hstep
        exact h.putReader nofun nofun
      · obtain rfl := Option.some.inj hstep
        exact h.putReader nofun nofun
      · cases hstep

theorem of_run (h : Uncut py start (es ++ later)) (hrun : Run (viewStep py) (.initial start) es v) :
    ViewInv py start es later v := by
  refine hrun.induction (motive := fun es v => ∀ later, Uncut py start (es ++ later) →
    ViewInv py start es later v) (fun later _ => initial py start later) ?_ later h
  intro es v e v' hv ih hstep later h
  rw [List.append_assoc] at h
  exact (ih (e :: later) h).step hv (h es e later v rfl hv) hstep

end ViewInv

end

/-- **Views are snapshots.**  In a run in which no commit changes a portfolio's positions while a
broadcast or a `GET` of it stands between its two reads, every view shows one committed state. -/
theorem snapshots_of_uncut (py : Python) (start : Ledger) {es : List ViewEvent}
    (h : Uncut py start es) :
    EveryState (viewStep py) (.initial start) es (Snapshots py start) := by
  intro pre v hpre hrun
  obtain ⟨later, rfl⟩ := hpre
  exact (ViewInv.of_run h hrun).snapshots

/-- The step is no commit that changes positions. -/
def ViewWorld.keepsPositions (v : ViewWorld) : ViewEvent → Bool
  | .ledger (.commit i) =>
      match v.world.requests[i]? with
      | some ⟨_, .inTx job _ ws⟩ =>
          positionsOf (applyAll v.world.db ws) job.portfolioId =
            positionsOf v.world.db job.portfolioId
      | _ => true
  | _ => true

theorem uncut_of_keepsPositions {py : Python} {start : Ledger} {es : List ViewEvent}
    (h : EveryStep (viewStep py) (.initial start) es fun v e => v.keepsPositions e) :
    Uncut py start es := by
  rintro earlier e later v rfl hv i call job entry portfolio ws rfl here -
  have hkept := h earlier (.ledger (.commit i)) v ⟨later, by simp⟩ hv
  simpa [ViewWorld.keepsPositions, show v.world.requests[i]? = _ from here] using hkept

/-- A deposit while a `GET` and the broadcast of another deposit stand between their two reads. -/
def viewsAroundDeposit : List ViewEvent :=
  (twoDeposits.take 11).map .ledger ++
    [.get 1, .loadPortfolio 0] ++ (twoDeposits.drop 11).map .ledger ++
    [.loadPositions 0, .ledger (.reread 1), .ledger (.groupSend 1)]

theorem snapshots_of_uncut_viewsAroundDeposit :
    EveryState (viewStep .default) (.initial firstPortfolio) viewsAroundDeposit
      (Snapshots .default firstPortfolio) :=
  snapshots_of_uncut .default firstPortfolio
    (uncut_of_keepsPositions (everyStep_of_checkSteps (fun _ _ => id) (by decide +kernel)))

/-- A purchase of `A` for the first portfolio. -/
def purchaseCall (quantity price : ℚ) : Call where
  request := .trade {
    portfolioId := 1, ticker := "A", quantity, tradeType := "BUY",
    idempotencyKey := .ofNat 128 2 }
  cache := .always price
  fresh := ⟨.ofNat 128 2, 2⟩

/-- What the deposit's broadcast then shows. -/
def cutView : View where
  portfolioId := Uuid.str 1
  cashBalance := .finite 1
  positions := [⟨"A", 1⟩]

/-- A deposit, and a purchase that commits before the deposit's broadcast re-reads the positions. -/
def purchaseBeforeReread : List ViewEvent :=
  ([.arrive (transferCall 1 "CREDIT" 1), .lookup 0, .fetchPrice 0, .statement 0, .statement 0,
    .statement 0, .statement 0, .commit 0,
    .arrive (purchaseCall 1 1), .lookup 1, .fetchPrice 1, .statement 1, .statement 1, .statement 1,
    .statement 1, .statement 1, .commit 1,
    .reread 0, .groupSend 0] : List Event).map .ledger

/-- The balance before the purchase goes out with the position that was bought. -/
theorem not_snapshots_purchaseBeforeReread :
    ¬ EveryState (viewStep .default) (.initial firstPortfolio) purchaseBeforeReread
      (Snapshots .default firstPortfolio) := by
  intro h
  have hviews : (exec (viewStep .default) (.initial firstPortfolio) purchaseBeforeReread).map
      ViewWorld.views = some [cutView] := by
    decide +kernel
  obtain ⟨v, hrun, hv⟩ := Option.map_eq_some_iff.mp hviews
  obtain ⟨earlier, u, hearlier, hu, hshows⟩ :=
    h _ v (List.prefix_refl _) hrun cutView (by simp [hv])
  have hnever : EveryState (viewStep .default) (.initial firstPortfolio) purchaseBeforeReread
      fun _ u => ¬ cutView.Shows u.world.db :=
    everyState_of_checkStates (fun _ => of_decide_eq_true) (by decide +kernel)
  exact hnever earlier u hearlier hu hshows

end DjasktTrading.Ledger
