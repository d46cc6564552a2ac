import DjasktTrading.Ledger.Isolation
import DjasktTrading.Realtime.Consumers

/-!
# Ownership — who receives a portfolio's data

The flag, the group, the id in the URL and the owner of the token go together: data of a portfolio
follows, on every connection, a frame with a token of its owner.
-/

open Reasoning

namespace DjasktTrading.Realtime

open Ledger

/-! ## 1. Owners -/

/-- The portfolios with their owners. -/
def owners (db : Ledger) : List (Uuid × UserId) := db.portfolios.map fun p => (p.id, p.user)

theorem owners_apply {db : Ledger} {w : Write} (h : KeepsOwners db w) :
    owners (Writable.apply db w) = owners db := by
  by_cases hrow : ∃ row, w = .updatePortfolio row
  · obtain ⟨row, rfl⟩ := hrow
    change (db.portfolios.map _).map _ = db.portfolios.map _
    rw [List.map_map]
    apply List.map_congr_left
    intro p hp
    by_cases hid : p.id = row.id
    · rw [Function.comp_apply, if_pos hid, hid, h row rfl p hp hid]
    · rw [Function.comp_apply, if_neg hid]
  · unfold owners
    rw [portfolios_of_not_updatePortfolio (not_exists.mp hrow)]

theorem owners_applyAll {db : Ledger} {ws : List Write} (h : ∀ w ∈ ws, KeepsOwners db w) :
    owners (applyAll db ws) = owners db := by
  induction ws generalizing db with
  | nil => rfl
  | cons w ws ih =>
      have hw := h w List.mem_cons_self
      have hlater : ∀ v ∈ ws, KeepsOwners (Writable.apply db w) v := fun v hv =>
        hw.apply (h v (List.mem_cons_of_mem w hv))
      exact (ih hlater).trans (owners_apply hw)

section

variable {py : Python} {start : Ledger} {w w' : Ledger.World} {e : Ledger.Event}
  {es : List Ledger.Event}

/-- Portfolios keep their owners. -/
theorem owners_of_step (hinv : Inv py start w) (hids : (w.db.portfolios.map (·.id)).Nodup)
    (hstep : Ledger.step py w e = some w') : owners w'.db = owners w.db := by
  rcases db_of_step hstep with ⟨hdb, -⟩ | ⟨i, call, job, entry, portfolio, ws, -, here, hdb, -⟩
  · rw [hdb]
  · obtain ⟨c, -, -, hafter⟩ := hinv.commit_of_recorded here
    rw [hdb, hafter]
    exact owners_applyAll (c.keepsOwners hids)

theorem owners_of_run (hids : (start.portfolios.map (·.id)).Nodup)
    (hrun : Run (Ledger.step py) (.initial start) es w) : owners w.db = owners start := by
  refine (hrun.invariant (I := fun v => Inv py start v ∧ owners v.db = owners start)
    ⟨Inv.initial py start, rfl⟩ ?_).2
  rintro v e u ⟨hinv, howners⟩ hstep
  refine ⟨hinv.step hstep, (owners_of_step hinv ?_ hstep).trans howners⟩
  -- the ids are the first halves of the pairs
  have hfst : v.db.portfolios.map (·.id) = start.portfolios.map (·.id) := by
    have hmap := congrArg (List.map Prod.fst) howners
    simpa [owners, Function.comp_def] using hmap
  rw [hfst]
  exact hids

end

/-- The check has found a row of the user under the id that the text is read as. -/
theorem getOwned_found {db : Ledger} {user : UserId} {text : String} {portfolio : Portfolio}
    (h : getOwnedPortfolioOrNone db user text = some (some portfolio)) :
    Uuid.ofHex? text = some portfolio.id ∧ portfolio.user = user ∧ portfolio ∈ db.portfolios := by
  obtain ⟨id, hparsed, hfind⟩ := Option.map_eq_some_iff.mp h
  have hfound := List.find?_some hfind
  simp only [Bool.decide_and, Bool.and_eq_true, decide_eq_true_eq] at hfound
  exact ⟨hfound.2 ▸ hparsed, hfound.1, List.mem_of_find?_eq_some hfind⟩

theorem mem_owners_of_getOwned {db : Ledger} {user : UserId} {text : String} {portfolio : Portfolio}
    (h : getOwnedPortfolioOrNone db user text = some (some portfolio)) :
    ∃ id, Uuid.ofHex? text = some id ∧ (id, user) ∈ owners db := by
  obtain ⟨hparsed, rfl, hrow⟩ := getOwned_found h
  exact ⟨portfolio.id, hparsed, List.mem_map.mpr ⟨portfolio, hrow, rfl⟩⟩

/-! ## 2. Data with its proof of ownership -/

/-- The happening is that data of the portfolio is sent. -/
def Happening.About (id : Uuid) : Happening → Prop
  | .history portfolioId _ => portfolioId = id
  | .update payload => payload.portfolioId = id.str
  | _ => False

/-- A frame has carried a token that `validate_and_get_user` accepted for the user. -/
def Accepted (wire : Wire) (journal : List Happening) (user : UserId) : Prop :=
  ∃ data server now, .frame (.text data) ∈ journal ∧ .accepted data server now user ∈ journal ∧
    CarriesToken wire server now data user

/-- A frame has carried a token of the owner of the portfolio. -/
def Vouched (wire : Wire) (db : Ledger) (journal : List Happening) (id : Uuid) : Prop :=
  ∃ user, Accepted wire journal user ∧ (id, user) ∈ owners db

section

variable {wire : Wire} {db db' : Ledger} {journal journal' : List Happening} {user : UserId}
  {id : Uuid}

theorem Accepted.mono (h : Accepted wire journal user) (hsub : journal ⊆ journal') :
    Accepted wire journal' user := by
  obtain ⟨data, server, now, hframe, haccepted, hcarries⟩ := h
  exact ⟨data, server, now, hsub hframe, hsub haccepted, hcarries⟩

theorem Vouched.mono (h : Vouched wire db journal id) (hsub : journal ⊆ journal') :
    Vouched wire db journal' id := by
  obtain ⟨user, haccepted, howner⟩ := h
  exact ⟨user, haccepted.mono hsub, howner⟩

theorem Vouched.of_owners (h : Vouched wire db journal id) (howners : owners db' = owners db) :
    Vouched wire db' journal id := by
  obtain ⟨user, haccepted, howner⟩ := h
  exact ⟨user, haccepted, howners ▸ howner⟩

end

/-- What the handler relies on. -/
def Connection.Fits (wire : Wire) (conn : Connection) : Handler → Prop
  | .idle => True
  | .checkingToken data => .frame (.text data) ∈ conn.journal
  | .checkingOwner user => Accepted wire conn.journal user
  | .joining => conn.authenticated = true
  | .querying => conn.authenticated = true
  | .sendingHistory id _ => conn.authenticated = true ∧ Uuid.ofHex? conn.path.text = some id
  | .stopped => True

theorem Connection.Fits.mono {wire : Wire} {conn conn' : Connection} {handler : Handler}
    (h : conn.Fits wire handler) (hpath : conn'.path = conn.path)
    (hauthenticated : conn'.authenticated = conn.authenticated)
    (hjournal : conn.journal ⊆ conn'.journal) : conn'.Fits wire handler := by
  unfold Fits at h ⊢
  rw [hpath, hauthenticated]
  cases handler with
  | checkingToken data => exact hjournal h
  | checkingOwner user => exact h.mono hjournal
  | _ => exact h

structure OwnerInv (wire : Wire) (db : Ledger) (conn : Connection) : Prop where
  fits : conn.Fits wire conn.handler
  authenticated : conn.authenticated = true →
    ∃ id, Uuid.ofHex? conn.path.text = some id ∧ Vouched wire db conn.journal id
  group : conn.authenticated = true →
    conn.groupName = some (portfolioGroupName conn.path.text)
  member : conn.member = true → conn.authenticated = true
  inbox : ∀ payload ∈ conn.inbox,
    conn.authenticated = true ∧ payload.portfolioId = conn.path.text
  sent : ∀ earlier happening later, conn.journal = earlier ++ happening :: later →
    ∀ id, happening.About id → Vouched wire db earlier id

namespace OwnerInv

variable {wire : Wire} {db db' : Ledger} {conn conn' : Connection}

theorem connect (path : PortfolioPath) (ledger : Ledger.World) :
    OwnerInv wire db (.connect path ledger) where
  fits := trivial
  authenticated h := by cases h
  group h := by cases h
  member h := by cases h
  inbox _ h := by cases h
  sent earlier happening later h := by
    rw [Connection.connect] at h
    exact absurd h (by simp)

/-- A connection that stands as it did, has noted more, and may have sent data that was its own. -/
theorem moved (h : OwnerInv wire db conn) (extra : List Happening)
    (hjournal : conn'.journal = conn.journal ++ extra) (hpath : conn'.path = conn.path)
    (hauthenticated : conn'.authenticated = conn.authenticated)
    (hgroup : conn'.groupName = conn.groupName) (hmember : conn'.member = true → conn.member = true)
    (hinbox : conn'.inbox ⊆ conn.inbox) (hfits : conn'.Fits wire conn'.handler)
    (hextra : ∀ happening ∈ extra, ∀ id, happening.About id →
      conn.authenticated = true ∧ Uuid.ofHex? conn.path.text = some id) :
    OwnerInv wire db conn' := by
  have hvouched : ∀ {id}, conn.authenticated = true → Uuid.ofHex? conn.path.text = some id →
      Vouched wire db conn.journal id := by
    intro id hknown hparsed
    obtain ⟨id', hparsed', hvouched⟩ := h.authenticated hknown
    obtain rfl := Option.some.inj (hparsed.symm.trans hparsed')
    exact hvouched
  constructor
  · exact hfits
  · intro hknown
    rw [hauthenticated] at hknown
    obtain ⟨id, hparsed, hvouched⟩ := h.authenticated hknown
    rw [hpath, hjournal]
    exact ⟨id, hparsed, hvouched.mono (List.subset_append_left _ _)⟩
  · intro hknown
    rw [hauthenticated] at hknown
    rw [hpath, hgroup]
    exact h.group hknown
  · intro hin
    rw [hauthenticated]
    exact h.member (hmember hin)
  · intro payload hpayload
    rw [hpath, hauthenticated]
    exact h.inbox payload (hinbox hpayload)
  · intro earlier happening later hsplit id habout
    rw [hjournal] at hsplit
    rcases List.append_eq_append_iff.mp hsplit with ⟨pre, rfl, hrest⟩ | ⟨post, hold, hrest⟩
    · -- it is one of those noted just now
      obtain ⟨hknown, hparsed⟩ :=
        hextra happening (hrest ▸ List.mem_append_right _ List.mem_cons_self) id habout
      exact (hvouched hknown hparsed).mono (List.subset_append_left _ _)
    · cases post with
      | nil =>
          have hmem : happening ∈ extra := by
            rw [← List.nil_append extra, ← hrest]
            exact List.mem_cons_self
          obtain ⟨hknown, hparsed⟩ := hextra happening hmem id habout
          rw [List.append_nil] at hold
          exact hold ▸ hvouched hknown hparsed
      | cons first post =>
          obtain ⟨rfl, -⟩ := List.cons.inj hrest
          exact h.sent earlier happening post hold id habout

/-- A connection that has only noted more. -/
theorem noted (h : OwnerInv wire db conn) {frames : List Frame} {timer : Bool} {handler : Handler}
    {queried : Option Ledger.World} {journal extra : List Happening}
    (hjournal : journal = conn.journal ++ extra)
    (hfits : Connection.Fits wire { conn with frames, timer, handler, queried, journal } handler)
    (hextra : ∀ happening ∈ extra, ∀ id, happening.About id →
      conn.authenticated = true ∧ Uuid.ofHex? conn.path.text = some id) :
    OwnerInv wire db { conn with frames, timer, handler, queried, journal } :=
  h.moved extra hjournal rfl rfl rfl (fun hin => hin) (List.Subset.refl _) hfits hextra

theorem ofHex?_of_inbox (h : OwnerInv wire db conn) {payload : Payload}
    (hpayload : payload ∈ conn.inbox) {id : Uuid} (hid : payload.portfolioId = id.str) :
    conn.authenticated = true ∧ Uuid.ofHex? conn.path.text = some id := by
  obtain ⟨hknown, htext⟩ := h.inbox payload hpayload
  exact ⟨hknown, by rw [← htext, hid, Uuid.ofHex?_str]⟩

theorem step (h : OwnerInv wire db conn) {ledger : Ledger.World} (hdb : ledger.db = db)
    {e : SocketEvent} (hstep : conn.step wire ledger e = some conn') : OwnerInv wire db conn' := by
  have hfits := h.fits
  have hnone : ∀ {x : Happening}, (∀ id, ¬ x.About id) → ∀ happening ∈ [x], ∀ id,
      happening.About id → conn.authenticated = true ∧ Uuid.ofHex? conn.path.text = some id := by
    intro x hx happening hmem id habout
    rw [List.mem_singleton.mp hmem] at habout
    exact absurd habout (hx id)
  cases Connection.step_moves hstep with
  | receive frame => exact h.noted (List.append_nil _).symm hfits (fun _ hmem => by cases hmem)
  | ignored idle next known =>
      refine h.noted rfl ?_ (hnone fun _ => not_false)
      change Connection.Fits wire _ conn.handler
      rw [idle]
      trivial
  | binary idle next unknown =>
      exact h.noted (List.append_assoc ..) trivial (by simp [Happening.About])
  | text idle next unknown =>
      exact h.noted rfl (List.mem_append_right _ (List.mem_singleton_self _))
        (hnone fun _ => not_false)
  | @accepted data server now user checking valid =>
      rw [checking] at hfits
      refine h.noted rfl ?_ (hnone fun _ => not_false)
      -- the frame whose check it was is in the journal
      exact ⟨data, server, now, List.mem_append_left _ hfits,
        List.mem_append_right _ (List.mem_singleton_self _), authenticateFirstMessage_eq_ok valid⟩
  | refused checking =>
      exact h.noted rfl trivial (hnone fun _ => not_false)
  | owned checking owner =>
      -- the id in the URL, the token's user and the owner meet here
      rw [checking] at hfits
      obtain ⟨id, hparsed, howner⟩ := mem_owners_of_getOwned owner
      constructor
      · rfl
      · exact fun _ => ⟨id, hparsed, _, hfits, hdb ▸ howner⟩
      · exact fun _ => rfl
      · exact fun _ => rfl
      · exact fun payload hpayload => ⟨rfl, (h.inbox payload hpayload).2⟩
      · exact h.sent
  | groupAdded joining =>
      -- the flag was set before the channel joins
      rw [joining] at hfits
      constructor
      · exact hfits
      · exact h.authenticated
      · exact h.group
      · exact fun _ => hfits
      · exact h.inbox
      · exact h.sent
  | tradesFetched querying parsed =>
      rw [querying] at hfits
      exact h.noted (List.append_nil _).symm ⟨hfits, parsed⟩ (fun _ hmem => by cases hmem)
  | @historySent id trades sending =>
      rw [sending] at hfits
      refine h.noted rfl trivial fun happening hmem id' habout => ?_
      obtain rfl := List.mem_singleton.mp hmem
      obtain rfl : id = id' := habout
      exact hfits
  | @dispatchUpdate payload inbox idle next =>
      refine h.moved [.update payload] rfl rfl rfl rfl (fun hin => hin) ?_ ?_ ?_
      · rw [next]
        exact List.subset_cons_self _ _
      · change Connection.Fits wire _ conn.handler
        rw [idle]
        trivial
      · intro happening hmem id habout
        obtain rfl := List.mem_singleton.mp hmem
        exact h.ofHex?_of_inbox (next ▸ List.mem_cons_self) habout
  | timedOut unknown =>
      refine h.noted rfl ?_ (hnone fun _ => not_false)
      exact hfits.mono rfl rfl (List.subset_append_left _ _)
  | timerOver => exact h.noted (List.append_nil _).symm hfits (fun _ hmem => by cases hmem)
  | stops => exact h.noted (List.append_nil _).symm trivial (fun _ hmem => by cases hmem)
  | disconnect idle =>
      -- the channel leaves the group; the flag stays
      exact h.moved [] (List.append_nil _).symm rfl rfl rfl (fun hin => by cases hin)
        (List.Subset.refl _) trivial (fun _ hmem => by cases hmem)

/-- The ledger moves, and the channel is handed the messages to its group. -/
theorem deliver (h : OwnerInv wire db conn) (howners : owners db' = owners db)
    {messages : List (ℕ × Broadcast)}
    (hgroups : ∀ x ∈ messages, x.2.group = portfolioGroupName x.2.payload.portfolioId) :
    OwnerInv wire db' (conn.deliver messages) := by
  have hvouched : ∀ {journal id}, Vouched wire db journal id → Vouched wire db' journal id :=
    fun hv => hv.of_owners howners
  unfold Connection.deliver
  split
  · rename_i hin
    constructor
    · exact h.fits
    · intro hknown
      obtain ⟨id, hparsed, hv⟩ := h.authenticated hknown
      exact ⟨id, hparsed, hvouched hv⟩
    · exact h.group
    · exact h.member
    · intro payload hpayload
      rcases List.mem_append.mp hpayload with hold | hnew
      · exact h.inbox payload hold
      · obtain ⟨x, hx, rfl⟩ := List.mem_map.mp hnew
        obtain ⟨hmem, hgroup⟩ := List.mem_filter.mp hx
        have hknown := h.member hin
        -- one group name, one id
        have hname : portfolioGroupName conn.path.text =
            portfolioGroupName x.2.payload.portfolioId := by
          rw [← hgroups x hmem]
          exact Option.some.inj ((h.group hknown).symm.trans (of_decide_eq_true hgroup))
        exact ⟨hknown, (String.append_right_inj _ |>.mp hname).symm⟩
    · exact fun earlier happening later hsplit id habout =>
        hvouched (h.sent earlier happening later hsplit id habout)
  · exact ⟨h.fits, fun hknown => (h.authenticated hknown).imp fun _ hv => ⟨hv.1, hvouched hv.2⟩,
      h.group, h.member, h.inbox, fun earlier happening later hsplit id habout =>
        hvouched (h.sent earlier happening later hsplit id habout)⟩

theorem of_run {py : Python} {start : Ledger} (hids : (start.portfolios.map (·.id)).Nodup)
    {es : List Event} {w : World} (hrun : Run (Realtime.step wire py) (.initial start) es w) :
    ∀ conn ∈ w.connections, OwnerInv wire w.ledger.db conn := by
  refine connection_invariant (P := fun l conn => OwnerInv wire l.db conn)
    (fun path _ => .connect path _) (fun _ h hstep => h.step rfl hstep) ?_ hrun
  intro fs l conn e l' hfs h hstep
  have hfs' := run_concat_iff.mpr ⟨l, hfs, hstep⟩
  have howners : owners l'.db = owners l.db := by
    rw [owners_of_run hids hfs', owners_of_run hids hfs]
  refine h.deliver howners fun x hx => ?_
  obtain ⟨-, -, entry, portfolio, positions, -, -, -, hmessage⟩ :=
    (MessageInv.of_run hfs').sent x (List.mem_of_mem_drop hx)
  rw [hmessage]
  rfl

end OwnerInv

/-- **Only the owner receives.**  On every connection of every run, data of a portfolio is sent only
after a frame with a token that `validate_and_get_user` accepted for the owner of the portfolio. -/
theorem vouched_of_sent (wire : Wire) (py : Python) {start : Ledger}
    (hids : (start.portfolios.map (·.id)).Nodup) {es : List Event} {w : World}
    (hrun : Run (step wire py) (.initial start) es w) {conn : Connection}
    (hconn : conn ∈ w.connections) {earlier later : List Happening} {happening : Happening}
    (hjournal : conn.journal = earlier ++ happening :: later) {id : Uuid}
    (habout : happening.About id) : Vouched wire w.ledger.db earlier id :=
  (OwnerInv.of_run hids hrun conn hconn).sent earlier happening later hjournal id habout

theorem vouched_of_sent_firstPath : ∃ w conn, ∃ earlier later,
    Run (step authWire .default) (.initial firstPortfolio)
      (joinsGroup ++ [.socket 0 .tradesFetched, .socket 0 .historySent]) w ∧
    w.connections = [conn] ∧
    conn.journal = earlier ++ .history 1 (getRecentTrades firstPortfolio 1) :: later ∧
    Vouched authWire w.ledger.db earlier 1 := by
  have hexec : (exec (step authWire .default) (.initial firstPortfolio)
      (joinsGroup ++ [.socket 0 .tradesFetched, .socket 0 .historySent])).map
      (fun w => w.connections.map (·.journal)) =
        some [[.frame (.text "auth"), .accepted "auth" authServer 0 1] ++
          .history 1 (getRecentTrades firstPortfolio 1) :: []] := rfl
  obtain ⟨w, hrun, hjournals⟩ := Option.map_eq_some_iff.mp hexec
  obtain ⟨conn, hw, hjournal⟩ := List.map_eq_singleton_iff.mp hjournals
  exact ⟨w, conn, _, [], hrun, hw, hjournal,
    vouched_of_sent authWire .default (by decide) hrun (hw ▸ List.mem_singleton_self conn)
      hjournal rfl⟩

end DjasktTrading.Realtime
