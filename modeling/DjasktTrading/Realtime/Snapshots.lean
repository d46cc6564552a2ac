import DjasktTrading.Ledger.Idempotency
import DjasktTrading.Ledger.Views
import DjasktTrading.Realtime.Consumers

/-!
# Snapshots — the trade history and the updates after it

The consumer joins its group, then queries the trades, then sends them; a request commits, then
broadcasts.  A trade that the query misses commits after the channel has joined, so its message comes
to the channel.
-/

open Reasoning

namespace DjasktTrading.Realtime

open Ledger

/-! ## 1. Trades told and trades passed over -/

/-- The request that placed the trade has sent its message. -/
def Told (w : Ledger.World) (t : Trade) : Prop :=
  ∃ x ∈ w.sent, ∃ call phase, w.At x.1 call phase ∧ call.request.key = .trade t.idempotencyKey

def Announces (payload : Payload) (t : Trade) : Prop :=
  payload.latestTrade.map (·.tradeId) = some t.id.str

/-- The trade is not among those of the portfolio that the history shows: it shows as many as it can,
none of them older. -/
def PassedOver (db : Ledger) (id : Uuid) (t : Trade) : Prop :=
  t ∈ tradesOf db id ∧ ∃ newest : List Trade, newest.map (·.load.latest) = getRecentTrades db id ∧
    newest.length = tradeHistoryLimit ∧ t ∉ newest ∧
    ∀ u ∈ newest, u ∈ tradesOf db id ∧ t.timestamp ≤ u.timestamp

theorem newestFirst_pairwise (trades : List Trade) :
    (newestFirst trades).Pairwise fun t u => u.timestamp ≤ t.timestamp := by
  have hsorted : (newestFirst trades).Pairwise fun t u => decide (u.timestamp ≤ t.timestamp) = true := by
    apply List.pairwise_mergeSort
    · intro a b c hab hbc
      rw [decide_eq_true_eq] at hab hbc ⊢
      exact le_trans hbc hab
    · intro a b
      rw [Bool.or_eq_true, decide_eq_true_eq, decide_eq_true_eq]
      exact le_total _ _
  exact hsorted.imp of_decide_eq_true

/-- A trade of the portfolio is in the history or was passed over. -/
theorem mem_getRecentTrades_or_passedOver {db : Ledger} {id : Uuid} {t : Trade}
    (ht : t ∈ tradesOf db id) : t.load.latest ∈ getRecentTrades db id ∨ PassedOver db id t := by
  have hsplit := List.take_append_drop tradeHistoryLimit (newestFirst (tradesOf db id))
  by_cases hnew : t ∈ (newestFirst (tradesOf db id)).take tradeHistoryLimit
  · exact .inl (List.mem_map_of_mem hnew)
  · have hlate : t ∈ (newestFirst (tradesOf db id)).drop tradeHistoryLimit := by
      have hmem : t ∈ newestFirst (tradesOf db id) := List.mem_mergeSort.mpr ht
      rw [← hsplit] at hmem
      exact (List.mem_append.mp hmem).resolve_left hnew
    refine .inr ⟨ht, _, rfl, ?_, hnew, fun u hu => ⟨?_, ?_⟩⟩
    · -- the cut has left something over
      have hlength := List.length_pos_of_mem hlate
      rw [List.length_drop] at hlength
      rw [List.length_take]
      omega
    · exact List.mem_mergeSort.mp (List.mem_of_mem_take hu)
    · have hpairs := newestFirst_pairwise (tradesOf db id)
      rw [← hsplit, List.pairwise_append] at hpairs
      exact hpairs.2.2 u hu t hlate

/-! ## 2. Moments of one run of the ledger -/

/-- The one world comes before the other in a run. -/
def Precedes (py : Python) (start : Ledger) (v w : Ledger.World) : Prop :=
  ∃ es fs, Run (Ledger.step py) (.initial start) es v ∧ Run (Ledger.step py) v fs w

/-- The payloads that the group has been sent between two moments. -/
def sentSince (v w : Ledger.World) (text : String) : List Payload :=
  ((w.sent.drop v.sent.length).filter fun x => x.2.group = portfolioGroupName text).map (·.2.payload)

namespace Precedes

variable {py : Python} {start : Ledger} {v w w' : Ledger.World}

theorem refl {es : List Ledger.Event} (hrun : Run (Ledger.step py) (.initial start) es w) :
    Precedes py start w w :=
  ⟨es, [], hrun, run_nil_iff.mpr rfl⟩

theorem step (h : Precedes py start v w) {e : Ledger.Event} (hstep : Ledger.step py w e = some w') :
    Precedes py start v w' := by
  obtain ⟨es, fs, hes, hfs⟩ := h
  exact ⟨es, fs ++ [e], hes, run_concat_iff.mpr ⟨w, hfs, hstep⟩⟩

theorem trans {u : Ledger.World} (huv : Precedes py start u v) (hvw : Precedes py start v w) :
    Precedes py start u w := by
  obtain ⟨es, fs, hes, hfs⟩ := huv
  obtain ⟨-, gs, -, hgs⟩ := hvw
  exact ⟨es, fs ++ gs, hes, run_append_iff.mpr ⟨v, hfs, hgs⟩⟩

theorem trades (h : Precedes py start v w) : v.db.trades <+: w.db.trades := by
  obtain ⟨es, fs, hes, hfs⟩ := h
  exact run_trades (Inv.of_run hes) hfs

theorem tradesOf_subset (h : Precedes py start v w) (id : Uuid) :
    tradesOf v.db id ⊆ tradesOf w.db id :=
  (h.trades.sublist.filter _).subset

theorem sent (h : Precedes py start v w) : v.sent <+: w.sent := by
  obtain ⟨es, fs, -, hfs⟩ := h
  exact run_sent hfs

theorem at_later (h : Precedes py start v w) {j : ℕ} {call : Call} {phase : Phase}
    (there : v.At j call phase) : ∃ phase', w.At j call phase' := by
  obtain ⟨es, fs, -, hfs⟩ := h
  obtain ⟨phase', hat, -⟩ := run_at hfs there
  exact ⟨phase', hat⟩

theorem messageInv (h : Precedes py start v w) : MessageInv v := by
  obtain ⟨es, fs, hes, -⟩ := h
  exact .of_run hes

theorem run (h : Precedes py start v w) : ∃ es, Run (Ledger.step py) (.initial start) es w := by
  obtain ⟨es, fs, hes, hfs⟩ := h
  exact ⟨es ++ fs, run_append_iff.mpr ⟨v, hes, hfs⟩⟩

end Precedes

theorem sentSince_self (w : Ledger.World) (text : String) : sentSince w w text = [] := by
  rw [sentSince, List.drop_length]
  rfl

theorem sentSince_append {u v w : Ledger.World} {text : String} (huv : u.sent <+: v.sent)
    (hvw : v.sent <+: w.sent) : sentSince u w text = sentSince u v text ++ sentSince v w text := by
  obtain ⟨added, hadded⟩ := hvw
  unfold sentSince
  rw [← hadded, List.drop_append_of_le_length huv.length_le, List.drop_left, List.filter_append,
    List.map_append]

/-! ## 3. Where a connection stands -/

namespace Connection

/-- The owner is not yet known. -/
structure Waits (conn : Connection) : Prop where
  unknown : conn.authenticated = false
  outside : conn.member = false
  nothing : conn.inbox = []
  silent : conn.sent = []

/-- The channel has joined its group at `v` and been handed all that the group was sent since; the
client has been sent the first of it. -/
structure Follows (py : Python) (start : Ledger) (l : Ledger.World) (conn : Connection)
    (v : Ledger.World) (payloads : List Payload) : Prop where
  known : conn.authenticated = true
  group : conn.groupName = some (portfolioGroupName conn.path.text)
  member : conn.member = true
  joined : conn.joined = some v
  opened : Precedes py start conn.opened v
  now : Precedes py start v l
  handed : payloads ++ conn.inbox = sentSince v l conn.path.text

/-- The history was queried at `q`, after `v`. -/
structure Queried (py : Python) (start : Ledger) (l : Ledger.World) (conn : Connection)
    (v q : Ledger.World) (id : Uuid) (trades : List LatestTrade) : Prop where
  parsed : Uuid.ofHex? conn.path.text = some id
  queried : conn.queried = some q
  joined : Precedes py start v q
  now : Precedes py start q l
  trades : trades = getRecentTrades q.db id

/-- The history is the first message, and updates are the others. -/
def SentInOrder (conn : Connection) : Prop :=
  conn.sent = [] ∨ ∃ (q : Ledger.World) (id : Uuid) (payloads : List Payload),
    conn.queried = some q ∧ Uuid.ofHex? conn.path.text = some id ∧
    conn.sent = .tradeHistory (getRecentTrades q.db id) :: payloads.map .portfolioUpdate

/-- What holds while the handler is at a given await. -/
def Stands (py : Python) (start : Ledger) (l : Ledger.World) (conn : Connection) : Handler → Prop
  | .idle => conn.Waits ∨ ∃ v q id trades payloads, conn.Follows py start l v payloads ∧
      conn.Queried py start l v q id trades ∧
      conn.sent = .tradeHistory trades :: payloads.map .portfolioUpdate
  | .checkingToken _ => conn.Waits
  | .checkingOwner _ => conn.Waits
  | .joining => conn.authenticated = true ∧
      conn.groupName = some (portfolioGroupName conn.path.text) ∧ conn.member = false ∧
      conn.inbox = [] ∧ conn.sent = []
  | .querying => ∃ v, conn.Follows py start l v [] ∧ conn.sent = []
  | .sendingHistory id trades => ∃ v q, conn.Follows py start l v [] ∧
      conn.Queried py start l v q id trades ∧ conn.sent = []
  | .stopped => conn.SentInOrder

section

variable {py : Python} {start : Ledger} {l : Ledger.World} {conn : Connection}
  {v q : Ledger.World} {id : Uuid} {trades : List LatestTrade} {payloads : List Payload}

theorem Waits.keep (h : conn.Waits) {frames : List Frame} {timer : Bool} {handler : Handler}
    {journal : List Happening} (hsent : journal.filterMap Happening.message? = conn.sent) :
    Connection.Waits { conn with frames, timer, handler, journal } where
  unknown := h.unknown
  outside := h.outside
  nothing := h.nothing
  silent := hsent.trans h.silent

/-- What the channel has been handed is sent in its order. -/
theorem Follows.keep (h : conn.Follows py start l v payloads) {frames : List Frame} {timer : Bool}
    {handler : Handler} {journal : List Happening} {queried : Option Ledger.World}
    {inbox payloads' : List Payload} (hhanded : payloads' ++ inbox = payloads ++ conn.inbox) :
    Connection.Follows py start l { conn with frames, timer, handler, journal, queried, inbox } v
      payloads' where
  known := h.known
  group := h.group
  member := h.member
  joined := h.joined
  opened := h.opened
  now := h.now
  handed := hhanded.trans h.handed

theorem Queried.keep (h : conn.Queried py start l v q id trades) {frames : List Frame}
    {timer : Bool} {handler : Handler} {journal : List Happening} {inbox : List Payload} :
    Connection.Queried py start l { conn with frames, timer, handler, journal, inbox } v q id
      trades where
  parsed := h.parsed
  queried := h.queried
  joined := h.joined
  now := h.now
  trades := h.trades

/-- Nothing of it is about the frames, the timer or the handler, or about a happening that sends no
message. -/
theorem Stands.keep {handler : Handler} (h : conn.Stands py start l handler) {frames : List Frame}
    {timer : Bool} {handler' : Handler} {journal : List Happening}
    (hsent : journal.filterMap Happening.message? = conn.sent) :
    Connection.Stands py start l { conn with frames, timer, handler := handler', journal }
      handler := by
  cases handler with
  | idle =>
      rcases h with h | ⟨v, q, id, trades, payloads, hf, hq, hs⟩
      · exact .inl (h.keep hsent)
      · exact .inr ⟨v, q, id, trades, payloads, hf.keep rfl, hq.keep, hsent.trans hs⟩
  | checkingToken data => exact Waits.keep h hsent
  | checkingOwner user => exact Waits.keep h hsent
  | joining =>
      obtain ⟨hknown, hgroup, hmember, hinbox, hs⟩ := h
      exact ⟨hknown, hgroup, hmember, hinbox, hsent.trans hs⟩
  | querying =>
      obtain ⟨v, hf, hs⟩ := h
      exact ⟨v, hf.keep rfl, hsent.trans hs⟩
  | sendingHistory id trades =>
      obtain ⟨v, q, hf, hq, hs⟩ := h
      exact ⟨v, q, hf.keep rfl, hq.keep, hsent.trans hs⟩
  | stopped =>
      rcases h with hs | ⟨q, id, payloads, hq, hparsed, hs⟩
      · exact .inl (hsent.trans hs)
      · exact .inr ⟨q, id, payloads, hq, hparsed, hsent.trans hs⟩

theorem Stands.sentInOrder {handler : Handler} (h : conn.Stands py start l handler) :
    conn.SentInOrder := by
  cases handler with
  | idle =>
      rcases h with h | ⟨v, q, id, trades, payloads, -, hq, hs⟩
      · exact .inl h.silent
      · exact .inr ⟨q, id, payloads, hq.queried, hq.parsed, hq.trades ▸ hs⟩
  | checkingToken data => exact .inl h.silent
  | checkingOwner user => exact .inl h.silent
  | joining => exact .inl h.2.2.2.2
  | querying =>
      obtain ⟨v, -, hs⟩ := h
      exact .inl hs
  | sendingHistory id trades =>
      obtain ⟨v, q, -, -, hs⟩ := h
      exact .inl hs
  | stopped => exact h

/-- An open connection on which something was sent streams. -/
theorem Stands.streams {handler : Handler} (h : conn.Stands py start l handler)
    (hopen : handler ≠ .stopped) (hsent : conn.sent ≠ []) :
    handler = .idle ∧ ∃ v q id trades payloads, conn.Follows py start l v payloads ∧
      conn.Queried py start l v q id trades ∧
      conn.sent = .tradeHistory trades :: payloads.map .portfolioUpdate := by
  cases handler with
  | idle => exact ⟨rfl, h.resolve_left fun hw => hsent hw.silent⟩
  | checkingToken data => exact absurd h.silent hsent
  | checkingOwner user => exact absurd h.silent hsent
  | joining => exact absurd h.2.2.2.2 hsent
  | querying =>
      obtain ⟨v, -, hs⟩ := h
      exact absurd hs hsent
  | sendingHistory id trades =>
      obtain ⟨v, q, -, -, hs⟩ := h
      exact absurd hs hsent
  | stopped => exact absurd rfl hopen

theorem sent_concat (conn : Connection) (happening : Happening) :
    (conn.journal ++ [happening]).filterMap Happening.message? =
      conn.sent ++ happening.message?.toList := by
  rw [List.filterMap_append]
  cases happening <;> rfl

/-- What is no message leaves what was sent. -/
theorem sent_of_silent (conn : Connection) {happening : Happening} (hnone : happening.message? = none) :
    (conn.journal ++ [happening]).filterMap Happening.message? = conn.sent := by
  rw [conn.sent_concat, hnone]
  exact List.append_nil _

end

end Connection

structure SnapshotInv (py : Python) (start : Ledger) (l : Ledger.World) (conn : Connection) : Prop where
  opened : Precedes py start conn.opened l
  stands : conn.Stands py start l conn.handler

namespace SnapshotInv

variable {wire : Wire} {py : Python} {start : Ledger} {l l' : Ledger.World} {conn conn' : Connection}

theorem connect {es : List Ledger.Event} (path : PortfolioPath)
    (hrun : Run (Ledger.step py) (.initial start) es l) :
    SnapshotInv py start l (.connect path l) where
  opened := .refl hrun
  stands := .inl ⟨rfl, rfl, rfl, rfl⟩

theorem step (h : SnapshotInv py start l conn) {e : SocketEvent}
    (hstep : conn.step wire l e = some conn') : SnapshotInv py start l conn' := by
  obtain ⟨hopened, hstands⟩ := h
  have hl : ∃ es, Run (Ledger.step py) (.initial start) es l := hopened.run
  -- a client that is not known has waited
  have hwaits : conn.handler = .idle → conn.authenticated = false → conn.Waits := by
    intro idle unknown
    rw [idle] at hstands
    rcases hstands with hwaits | ⟨v, q, id, trades, payloads, hfollows, -⟩
    · exact hwaits
    · exact absurd (hfollows.known.symm.trans unknown) (by decide)
  cases Connection.step_moves hstep with
  | receive frame => exact ⟨hopened, hstands.keep rfl⟩
  | ignored idle next known => exact ⟨hopened, hstands.keep (conn.sent_of_silent rfl)⟩
  | binary idle next unknown =>
      -- the frame is noted, then the close
      have hclosed := Connection.sent_concat (conn.note (.frame .binary)) (.closed 4401)
      refine ⟨hopened, .inl ((hwaits idle unknown).keep ?_)⟩
      exact hclosed.trans ((List.append_nil _).trans (conn.sent_of_silent rfl))
  | text idle next unknown =>
      exact ⟨hopened, (hwaits idle unknown).keep (conn.sent_of_silent rfl)⟩
  | @accepted data server now user checking valid =>
      rw [checking] at hstands
      exact ⟨hopened, Connection.Waits.keep hstands (conn.sent_of_silent rfl)⟩
  | refused checking =>
      have hw : conn.Waits := by
        rcases checking with ⟨data, checking⟩ | ⟨user, checking⟩
        · rw [checking] at hstands
          exact hstands
        · rw [checking] at hstands
          exact hstands
      exact ⟨hopened, .inl (hw.keep (conn.sent_of_silent rfl))⟩
  | owned checking owner =>
      rw [checking] at hstands
      exact ⟨hopened, rfl, rfl, hstands.outside, hstands.nothing, hstands.silent⟩
  | groupAdded joining =>
      -- the group has been sent nothing since now
      rw [joining] at hstands
      obtain ⟨hknown, hgroup, -, hinbox, hs⟩ := hstands
      obtain ⟨es, hes⟩ := hl
      refine ⟨hopened, l, ⟨hknown, hgroup, rfl, rfl, hopened, .refl hes, ?_⟩, hs⟩
      rw [sentSince_self]
      exact hinbox
  | tradesFetched querying parsed =>
      rw [querying] at hstands
      obtain ⟨v, hf, hs⟩ := hstands
      obtain ⟨es, hes⟩ := hl
      exact ⟨hopened, v, l, hf.keep rfl, ⟨parsed, rfl, hf.now, .refl hes, rfl⟩, hs⟩
  | @historySent id trades sending =>
      rw [sending] at hstands
      obtain ⟨v, q, hf, hq, hs⟩ := hstands
      refine ⟨hopened, .inr ⟨v, q, id, trades, [], hf.keep rfl, hq.keep, ?_⟩⟩
      exact (conn.sent_concat (.history id trades)).trans (congrArg (· ++ _) hs)
  | @dispatchUpdate payload inbox idle next =>
      rw [idle] at hstands
      rcases hstands with hw | ⟨v, q, id, trades, payloads, hf, hq, hs⟩
      · exact absurd (hw.nothing.symm.trans next) (List.cons_ne_nil _ _).symm
      · -- the first that the channel holds is the next to be sent
        have hhanded : (payloads ++ [payload]) ++ inbox = payloads ++ conn.inbox := by
          rw [List.append_assoc, List.singleton_append, ← next]
        have hsent : conn.sent ++ [.portfolioUpdate payload] =
            .tradeHistory trades :: (payloads ++ [payload]).map .portfolioUpdate := by
          rw [hs, List.map_append]
          rfl
        refine ⟨hopened, ?_⟩
        change Connection.Stands py start l _ conn.handler
        rw [idle]
        exact .inr ⟨v, q, id, trades, payloads ++ [payload], hf.keep hhanded, hq.keep,
          (conn.sent_concat (.update payload)).trans hsent⟩
  | timedOut unknown => exact ⟨hopened, hstands.keep (conn.sent_of_silent rfl)⟩
  | timerOver => exact ⟨hopened, hstands.keep rfl⟩
  | stops => exact ⟨hopened, hstands.sentInOrder⟩
  | disconnect idle => exact ⟨hopened, hstands.sentInOrder⟩

/-- The ledger moves, and the channel is handed the messages to its group. -/
theorem deliver (h : SnapshotInv py start l conn) {e : Ledger.Event}
    (hstep : Ledger.step py l e = some l') :
    SnapshotInv py start l' (conn.deliver (l'.sent.drop l.sent.length)) := by
  obtain ⟨hopened, hstands⟩ := h
  obtain ⟨es, hes⟩ := hopened.run
  have hnew : l.sent <+: l'.sent := ((Precedes.refl hes).step hstep).sent
  -- a channel outside its group is handed nothing
  have houtside : conn.member = false → conn.deliver (l'.sent.drop l.sent.length) = conn := by
    intro hmember
    rw [Connection.deliver, hmember]
    rfl
  have hfollows : ∀ {v payloads}, conn.Follows py start l v payloads →
      Connection.Follows py start l' (conn.deliver (l'.sent.drop l.sent.length)) v payloads := by
    intro v payloads hf
    rw [Connection.deliver, if_pos hf.member]
    refine ⟨hf.known, hf.group, hf.member, hf.joined, hf.opened, hf.now.step hstep, ?_⟩
    -- the group has been sent this by the step
    rw [sentSince_append hf.now.sent hnew, ← hf.handed, ← List.append_assoc]
    simp only [sentSince, hf.group, Option.some.injEq, eq_comm]
  have hqueried : ∀ {v q id trades}, conn.Queried py start l v q id trades → Connection.Queried py
      start l' (conn.deliver (l'.sent.drop l.sent.length)) v q id trades := by
    intro v q id trades hq
    unfold Connection.deliver
    split
    · exact ⟨hq.parsed, hq.queried, hq.joined, hq.now.step hstep, hq.trades⟩
    · exact ⟨hq.parsed, hq.queried, hq.joined, hq.now.step hstep, hq.trades⟩
  have hsame : (conn.deliver (l'.sent.drop l.sent.length)).handler = conn.handler ∧
      (conn.deliver (l'.sent.drop l.sent.length)).opened = conn.opened ∧
      (conn.deliver (l'.sent.drop l.sent.length)).sent = conn.sent ∧
      (conn.SentInOrder → (conn.deliver (l'.sent.drop l.sent.length)).SentInOrder) := by
    unfold Connection.deliver
    split
    · exact ⟨rfl, rfl, rfl, id⟩
    · exact ⟨rfl, rfl, rfl, id⟩
  obtain ⟨hhandler, hmoment, hsent, hordered⟩ := hsame
  refine ⟨hmoment ▸ hopened.step hstep, ?_⟩
  rw [hhandler]
  generalize conn.handler = handler at hstands ⊢
  cases handler with
  | idle =>
      rcases hstands with hw | ⟨v, q, id, trades, payloads, hf, hq, hs⟩
      · exact .inl ((houtside hw.outside).symm ▸ hw)
      · exact .inr ⟨v, q, id, trades, payloads, hfollows hf, hqueried hq, hsent.trans hs⟩
  | checkingToken data =>
      rw [houtside hstands.outside]
      exact hstands
  | checkingOwner user =>
      rw [houtside hstands.outside]
      exact hstands
  | joining =>
      rw [houtside hstands.2.2.1]
      exact hstands
  | querying =>
      obtain ⟨v, hf, hs⟩ := hstands
      exact ⟨v, hfollows hf, hsent.trans hs⟩
  | sendingHistory id trades =>
      obtain ⟨v, q, hf, hq, hs⟩ := hstands
      exact ⟨v, q, hfollows hf, hqueried hq, hsent.trans hs⟩
  | stopped =>
      exact hordered hstands

theorem of_run {es : List Event} {w : World} (hrun : Run (Realtime.step wire py) (.initial start) es w)
    (hconn : conn ∈ w.connections) : SnapshotInv py start w.ledger conn :=
  connection_invariant (P := fun l conn => SnapshotInv py start l conn)
    (fun path hl => connect path hl) (fun _ h hstep => h.step hstep)
    (fun _ h hstep => h.deliver hstep) hrun conn hconn

end SnapshotInv

/-! ## 4. Nothing between the history and the updates -/

theorem eq_of_idempotencyKey {db : Ledger} (hkeys : (keys db).Nodup) {t u : Trade}
    (ht : t ∈ db.trades) (hu : u ∈ db.trades) (heq : t.idempotencyKey = u.idempotencyKey) : t = u := by
  have hnodup := (List.nodup_append.mp hkeys).1
  exact List.inj_on_of_nodup_map hnodup ht hu (congrArg Key.trade heq)

/-- The message of a request for a trade announces the row under its key. -/
theorem announces_of_sent {w : Ledger.World} (hmessage : MessageInv w) {x : ℕ × Broadcast}
    (hx : x ∈ w.sent) {call : Call} {phase : Phase} (here : w.At x.1 call phase) {t : Trade}
    (hkey : call.request.key = .trade t.idempotencyKey) :
    ∃ row ∈ w.db.trades, row.idempotencyKey = t.idempotencyKey ∧ Announces x.2.payload row ∧
      x.2.group = portfolioGroupName row.portfolio.str := by
  obtain ⟨call', phase', entry, portfolio, positions, here', hentry, hstored, hsaid⟩ :=
    hmessage.sent x hx
  obtain ⟨rfl, -⟩ := here.unique here'
  rw [hkey] at hentry
  cases entry with
  | cashTransaction c => cases hentry
  | trade told =>
      obtain ⟨row, hrow, hrowkey, hid, hportfolio⟩ := hstored
      refine ⟨row, hrow, hrowkey.trans (Key.trade.inj hentry), ?_, ?_⟩
      · rw [hsaid, Announces, hid]
        rfl
      · rw [hsaid, hportfolio]
        rfl

/-- A trade that the query at `q` misses is told after `v`, before which the query was not made. -/
theorem announced_of_missed {py : Python} {start : Ledger} (hkeys : (keys start).Nodup)
    {v q l : Ledger.World} (hvq : Precedes py start v q) (hql : Precedes py start q l) {id : Uuid}
    {t : Trade} (ht : t ∈ tradesOf l.db id) (hmissed : t ∉ tradesOf q.db id) (htold : Told l t) :
    ∃ payload ∈ sentSince v l id.str, Announces payload t := by
  obtain ⟨es, hes⟩ := hql.run
  obtain ⟨ht, hportfolio⟩ := List.mem_filter.mp ht
  have hportfolio : t.portfolio = id := of_decide_eq_true hportfolio
  have hunique : ∀ row ∈ l.db.trades, row.idempotencyKey = t.idempotencyKey → row = t :=
    fun row hrow heq => eq_of_idempotencyKey (keys_nodup hkeys (.of_run hes)) hrow ht heq
  obtain ⟨x, hx, call, phase, here, hkey⟩ := htold
  have hlate : x ∉ v.sent := by
    intro hearly
    -- the row would be there before its message, and the query would see it
    obtain ⟨call', _, _, _, _, hthere, -⟩ := hvq.messageInv.sent x hearly
    obtain ⟨_, hthere'⟩ := (hvq.trans hql).at_later hthere
    obtain ⟨rfl, -⟩ := here.unique hthere'
    obtain ⟨row, hrow, hrowkey, -⟩ := announces_of_sent hvq.messageInv hearly hthere hkey
    have hrowq := hvq.trades.subset hrow
    obtain rfl := hunique row (hql.trades.subset hrowq) hrowkey
    exact hmissed (List.mem_filter.mpr ⟨hrowq, decide_eq_true hportfolio⟩)
  have hdrop : x ∈ l.sent.drop v.sent.length := by
    obtain ⟨added, hadded⟩ := (hvq.trans hql).sent
    rw [← hadded] at hx ⊢
    rw [List.drop_left]
    exact (List.mem_append.mp hx).resolve_left hlate
  obtain ⟨row, hrow, hrowkey, hannounces, hgroup⟩ := announces_of_sent (.of_run hes) hx here hkey
  obtain rfl := hunique row hrow hrowkey
  refine ⟨x.2.payload, List.mem_map_of_mem (List.mem_filter.mpr ⟨hdrop, ?_⟩), hannounces⟩
  rw [hgroup, hportfolio]
  exact decide_eq_true rfl

/-- What the channel holds is sent next, in its order. -/
theorem exists_run_dispatchUpdate {wire : Wire} {py : Python} {w : World} {i : ℕ} {conn : Connection}
    (hconn : w.connections[i]? = some conn) (hidle : conn.handler = .idle) :
    ∃ w' conn', Run (step wire py) w (List.replicate conn.inbox.length (.socket i .dispatchUpdate)) w' ∧
      w'.connections[i]? = some conn' ∧ conn'.inbox = [] ∧
      conn'.sent = conn.sent ++ conn.inbox.map .portfolioUpdate := by
  induction hinbox : conn.inbox generalizing w conn with
  | nil =>
      exact ⟨w, conn, run_nil_iff.mpr rfl, hconn, hinbox, (List.append_nil _).symm⟩
  | cons payload inbox ih =>
      -- the handler is idle again after each
      let next : Connection := { conn.note (.update payload) with inbox := inbox }
      have hset : (w.connections.set i next)[i]? = some next :=
        List.getElem?_set_self (List.getElem?_eq_some_iff.mp hconn).1
      obtain ⟨w', conn', hrun, hconn', hempty, hsent⟩ :=
        ih (w := { w with connections := w.connections.set i next }) hset hidle rfl
      have hstep : step wire py w (.socket i .dispatchUpdate) =
          some { w with connections := w.connections.set i next } := by
        simp only [step, hconn, Connection.step, hidle, hinbox]
        rfl
      refine ⟨w', conn', run_cons_iff.mpr ⟨_, hstep, hrun⟩, hconn', hempty, ?_⟩
      have hnext : next.sent = conn.sent ++ [.portfolioUpdate payload] :=
        conn.sent_concat (.update payload)
      rw [hsent, hnext, List.map_cons, List.append_assoc, List.singleton_append]

/-- What is sent about a trade to the client of a connection: it is in the history, or it was passed
over there, or an update sent after the history, or still held for it, announces it. -/
def Accounted (q : Ledger.World) (id : Uuid) (updates : List Payload) (t : Trade) : Prop :=
  t.load.latest ∈ getRecentTrades q.db id ∨ PassedOver q.db id t ∨
    ∃ payload ∈ updates, Announces payload t

/-- **No trade falls between.**  The history is sent before any update.  On an open connection that
has been sent it, every trade of the portfolio that was there when the connection opened, or has been
told since, is in the history, or was passed over there, or is announced by an update after it; an
update that the channel still holds is sent next. -/
theorem accounted_of_sent (wire : Wire) (py : Python) {start : Ledger} (hkeys : (keys start).Nodup)
    {es : List Event} {w : World} (hrun : Run (step wire py) (.initial start) es w) {i : ℕ}
    {conn : Connection} (hconn : w.connections[i]? = some conn) {id : Uuid}
    (hpath : conn.path.text = id.str) :
    conn.sent = [] ∨ ∃ q payloads, conn.queried = some q ∧
      conn.sent = .tradeHistory (getRecentTrades q.db id) :: payloads.map .portfolioUpdate ∧
      (conn.handler ≠ .stopped →
        Precedes py start conn.opened q ∧ Precedes py start q w.ledger ∧
        (∀ t ∈ tradesOf w.ledger.db id, t ∈ tradesOf conn.opened.db id ∨ Told w.ledger t →
          Accounted q id (payloads ++ conn.inbox) t) ∧
        ∃ w' conn', Run (step wire py) w
            (List.replicate conn.inbox.length (.socket i .dispatchUpdate)) w' ∧
          w'.connections[i]? = some conn' ∧ conn'.inbox = [] ∧
          conn'.sent = conn.sent ++ conn.inbox.map .portfolioUpdate) := by
  obtain ⟨-, hstands⟩ := SnapshotInv.of_run hrun (List.mem_of_getElem? hconn)
  have hid : Uuid.ofHex? conn.path.text = some id := by rw [hpath, Uuid.ofHex?_str]
  by_cases hstopped : conn.handler = .stopped
  · rcases hstands.sentInOrder with hs | ⟨q, id', payloads, hq, hparsed, hs⟩
    · exact .inl hs
    · obtain rfl := Option.some.inj (hid.symm.trans hparsed)
      exact .inr ⟨q, payloads, hq, hs, fun hopen => absurd hstopped hopen⟩
  · by_cases hsent : conn.sent = []
    · exact .inl hsent
    obtain ⟨hidle, v, q, id', trades, payloads, hf, hq, hs⟩ := hstands.streams hstopped hsent
    obtain rfl := Option.some.inj (hid.symm.trans hq.parsed)
    obtain rfl := hq.trades
    have hopened := hf.opened.trans hq.joined
    refine .inr ⟨q, payloads, hq.queried, hs, fun _ => ⟨hopened, hq.now, ?_, ?_⟩⟩
    · intro t ht hcovered
      by_cases hseen : t ∈ tradesOf q.db id
      · exact (mem_getRecentTrades_or_passedOver hseen).imp_right .inl
      · -- what the query missed was not there when the connection opened
        have htold : Told w.ledger t := hcovered.resolve_left fun hold =>
          hseen (hopened.tradesOf_subset id hold)
        obtain ⟨payload, hpayload, hannounces⟩ :=
          announced_of_missed hkeys hq.joined hq.now ht hseen htold
        rw [← hpath, ← hf.handed] at hpayload
        exact .inr (.inr ⟨payload, hpayload, hannounces⟩)
    · exact exists_run_dispatchUpdate hconn hidle

/-- A purchase commits after the query, and is told after the history. -/
def purchaseAfterQuery : List Event :=
  ([.arrive (transferCall 1 "CREDIT" 1), .lookup 0, .fetchPrice 0, .statement 0, .statement 0,
    .statement 0, .statement 0, .commit 0] : List Ledger.Event).map .ledger ++
  joinsGroup ++ [.socket 0 .tradesFetched] ++
  ([.arrive (purchaseCall 1 1), .lookup 1, .fetchPrice 1, .statement 1, .statement 1, .statement 1,
    .statement 1, .statement 1, .commit 1] : List Ledger.Event).map .ledger ++
  [.socket 0 .historySent, .ledger (.reread 1), .ledger (.groupSend 1), .socket 0 .dispatchUpdate]

theorem accounted_of_sent_purchaseAfterQuery : ∃ w conn t q updates,
    Run (step authWire .default) (.initial firstPortfolio) purchaseAfterQuery w ∧
    w.connections = [conn] ∧ t ∈ tradesOf w.ledger.db 1 ∧ Told w.ledger t ∧
    conn.queried = some q ∧ Accounted q 1 updates t := by
  have hvalues : (exec (step authWire .default) (.initial firstPortfolio) purchaseAfterQuery).map
      (fun w => (w.connections.map fun conn => (conn.path.text, conn.sent.length, conn.handler),
        (tradesOf w.ledger.db 1).map (·.idempotencyKey), w.ledger.sent.map Prod.fst,
        w.ledger.requests.map (·.call.request.key))) =
      some ([(Uuid.str 1, 2, .idle)], [.ofNat 128 2], [1],
        [.cashTransaction (.ofNat 128 1), .trade (.ofNat 128 2)]) := by
    decide +kernel
  obtain ⟨w, hrun, hw⟩ := Option.map_eq_some_iff.mp hvalues
  simp only [Prod.mk.injEq] at hw
  obtain ⟨hconns, htrades, hsent, hrequests⟩ := hw
  obtain ⟨conn, hconn, hstate⟩ := List.map_eq_singleton_iff.mp hconns
  obtain ⟨t, ht, hkey⟩ := List.map_eq_singleton_iff.mp htrades
  obtain ⟨x, hx, hfirst⟩ := List.map_eq_singleton_iff.mp hsent
  simp only [Prod.mk.injEq] at hstate
  obtain ⟨hpath, hlength, hidle⟩ := hstate
  have htold : Told w.ledger t := by
    obtain ⟨slot, hslot, hslotkey⟩ : ∃ slot, w.ledger.requests[1]? = some slot ∧
        slot.call.request.key = .trade (.ofNat 128 2) := by
      rw [← Option.map_eq_some_iff, ← List.getElem?_map, hrequests]
      rfl
    refine ⟨x, hx ▸ List.mem_singleton_self x, slot.call, slot.phase, ?_, hkey ▸ hslotkey⟩
    rw [hfirst]
    exact hslot
  have htmem : t ∈ tradesOf w.ledger.db 1 := ht ▸ List.mem_singleton_self t
  have hkeys : (keys firstPortfolio).Nodup := List.nodup_nil
  have hfound : w.connections[0]? = some conn := hconn ▸ rfl
  rcases accounted_of_sent authWire .default hkeys hrun hfound hpath with
    hnothing | ⟨q, payloads, hq, -, hopen⟩
  · rw [hnothing] at hlength
    cases hlength
  · obtain ⟨-, -, haccounted, -⟩ := hopen (hidle ▸ Handler.noConfusion)
    exact ⟨w, conn, t, q, _, hrun, hconn, htmem, htold, hq, haccounted t htmem (.inr htold)⟩

end DjasktTrading.Realtime
