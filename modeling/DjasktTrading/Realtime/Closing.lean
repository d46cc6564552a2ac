import DjasktTrading.Realtime.Snapshots
import DjasktTrading.Reasoning.Slots

/-!
# Closing — what a connection does after its consumer has closed it

A close is a message to the server; the handler that is under way goes on, and the frames that have
come in are still dispatched.  Nothing but an ownership check that finds the portfolio brings a closed
connection back.
-/

open Reasoning

namespace DjasktTrading.Realtime

open Ledger

/-! ## 1. Connections that are not authenticated -/

/-- The handler is at work for a client that is authenticated. -/
def Handler.Serving : Handler → Prop
  | .joining | .querying | .sendingHistory _ _ => True
  | _ => False

/-- The handler awaits a check. -/
def Handler.Checking : Handler → Prop
  | .checkingToken _ | .checkingOwner _ => True
  | _ => False

structure Connection.Gated (conn : Connection) : Prop where
  waits : conn.authenticated = false → conn.Waits
  serving : conn.handler.Serving → conn.authenticated = true
  checking : conn.handler.Checking → conn.authenticated = false

namespace Connection.Gated

variable {wire : Wire} {ledger : Ledger.World} {conn conn' : Connection}

theorem connect (path : PortfolioPath) (ledger : Ledger.World) :
    (Connection.connect path ledger).Gated where
  waits _ := ⟨rfl, rfl, rfl, rfl⟩
  serving h := h.elim
  checking _ := rfl

/-- The handler goes on to nothing but a check of an unknown client, and nothing is sent. -/
theorem noted (h : conn.Gated) {frames : List Frame} {timer : Bool} {handler : Handler}
    {journal : List Happening} (hsent : journal.filterMap Happening.message? = conn.sent)
    (hserving : handler.Serving → conn.authenticated = true)
    (hchecking : handler.Checking → conn.authenticated = false) :
    Connection.Gated { conn with frames, timer, handler, journal } where
  waits unknown := (h.waits unknown).keep hsent
  serving := hserving
  checking := hchecking

theorem step (h : conn.Gated) {e : SocketEvent} (hstep : conn.step wire ledger e = some conn') :
    conn'.Gated := by
  cases Connection.step_moves hstep with
  | receive frame => exact h.noted rfl h.serving h.checking
  | ignored idle next known => exact h.noted (conn.sent_of_silent rfl) h.serving h.checking
  | binary idle next unknown =>
      have hclosed := Connection.sent_concat (conn.note (.frame .binary)) (.closed 4401)
      exact h.noted (hclosed.trans ((List.append_nil _).trans (conn.sent_of_silent rfl))) False.elim
        (fun _ => unknown)
  | text idle next unknown => exact h.noted (conn.sent_of_silent rfl) False.elim (fun _ => unknown)
  | accepted checking valid =>
      exact h.noted (conn.sent_of_silent rfl) False.elim (fun _ => h.checking (checking ▸ trivial))
  | refused checking => exact h.noted (conn.sent_of_silent rfl) False.elim False.elim
  | owned checking owner =>
      -- from here on the client is authenticated
      exact ⟨fun unknown => Bool.noConfusion unknown, fun _ => rfl, False.elim⟩
  | groupAdded joining =>
      have hknown := h.serving (joining ▸ trivial)
      exact ⟨fun unknown => absurd (hknown.symm.trans unknown) (by decide), fun _ => hknown,
        False.elim⟩
  | tradesFetched querying parsed =>
      have hknown := h.serving (querying ▸ trivial)
      exact ⟨fun unknown => absurd (hknown.symm.trans unknown) (by decide), fun _ => hknown,
        False.elim⟩
  | historySent sending =>
      have hknown := h.serving (sending ▸ trivial)
      exact ⟨fun unknown => absurd (hknown.symm.trans unknown) (by decide), fun _ => hknown,
        False.elim⟩
  | dispatchUpdate idle next =>
      refine ⟨fun unknown => ?_, h.serving, h.checking⟩
      exact absurd ((h.waits unknown).nothing.symm.trans next) (List.cons_ne_nil _ _).symm
  | timedOut unknown => exact h.noted (conn.sent_of_silent rfl) h.serving h.checking
  | timerOver => exact h.noted rfl h.serving h.checking
  | stops => exact h.noted rfl False.elim False.elim
  | disconnect idle =>
      refine ⟨fun unknown => ?_, False.elim, False.elim⟩
      obtain ⟨hunknown, -, hnothing, hsilent⟩ := h.waits unknown
      exact ⟨hunknown, rfl, hnothing, hsilent⟩

theorem deliver (h : conn.Gated) (messages : List (ℕ × Broadcast)) :
    (conn.deliver messages).Gated := by
  unfold Connection.deliver
  split
  · rename_i hmember
    refine ⟨fun unknown => ?_, h.serving, h.checking⟩
    exact absurd ((h.waits unknown).outside.symm.trans hmember) (by decide)
  · exact h

theorem of_run {py : Python} {start : Ledger} {es : List Event} {w : World}
    (hrun : Run (Realtime.step wire py) (.initial start) es w) (hconn : conn ∈ w.connections) :
    conn.Gated :=
  connection_invariant (P := fun _ conn => conn.Gated) (fun path _ => .connect path _)
    (fun _ h hstep => h.step hstep) (fun _ h _ => h.deliver _) hrun conn hconn

end Connection.Gated

/-! ## 2. Connections that the consumer has closed -/

/-- The consumer has issued a close. -/
def Connection.Closed (conn : Connection) : Prop := ∃ code, .closed code ∈ conn.journal

/-- An ownership check ends on it and finds the portfolio. -/
def Connection.Admits (ledger : Ledger.World) (conn : Connection) : SocketEvent → Prop
  | .ownerChecked => ∃ user portfolio, conn.handler = .checkingOwner user ∧
      getOwnedPortfolioOrNone ledger.db user conn.path.text = some (some portfolio)
  | _ => False

section

variable {wire : Wire} {ledger : Ledger.World} {conn conn' : Connection} {e : SocketEvent}

theorem Connection.Closed.of_note {happening : Happening} (h : (conn.note happening).Closed)
    (hother : ∀ code, happening ≠ .closed code) : conn.Closed := by
  obtain ⟨code, hmem⟩ := h
  rcases List.mem_append.mp hmem with hold | hnew
  · exact ⟨code, hold⟩
  · exact absurd (List.mem_singleton.mp hnew).symm (hother code)

/-- What has happened on a connection stays in its journal. -/
theorem Connection.journal_of_step (hstep : conn.step wire ledger e = some conn') :
    conn.journal <+: conn'.journal := by
  cases Connection.step_moves hstep with
  | binary idle next unknown =>
      exact (List.prefix_append _ _).trans (List.prefix_append _ [Happening.closed 4401])
  | ignored | text | accepted | refused | historySent | dispatchUpdate | timedOut =>
      exact List.prefix_append _ _
  | receive | owned | groupAdded | tradesFetched | timerOver | stops | disconnect =>
      exact List.prefix_refl _

/-- A check that finds the portfolio authenticates the connection, closed or not. -/
theorem Connection.authenticated_of_admits (hadmits : conn.Admits ledger e)
    (hstep : conn.step wire ledger e = some conn') :
    conn'.authenticated = true ∧ conn'.journal = conn.journal := by
  cases e with
  | ownerChecked =>
      obtain ⟨user, portfolio, hchecking, howner⟩ := hadmits
      simp only [Connection.step, hchecking, howner, Option.some.injEq] at hstep
      exact hstep ▸ ⟨rfl, rfl⟩
  | _ => exact hadmits.elim

/-- Nothing else authenticates it, and it is closed while it is not authenticated. -/
theorem Connection.Gated.of_not_admits (h : conn.Gated) (hother : ¬ conn.Admits ledger e)
    (hstep : conn.step wire ledger e = some conn') :
    conn'.authenticated = conn.authenticated ∧
      (conn'.Closed → conn.Closed ∨ conn.authenticated = false) := by
  cases Connection.step_moves hstep with
  | binary idle next unknown => exact ⟨rfl, fun _ => .inr unknown⟩
  | ignored idle next known => exact ⟨rfl, fun hclosed => .inl (hclosed.of_note nofun)⟩
  | text idle next unknown => exact ⟨rfl, fun _ => .inr unknown⟩
  | accepted checking valid => exact ⟨rfl, fun _ => .inr (h.checking (checking ▸ trivial))⟩
  | refused checking =>
      refine ⟨rfl, fun _ => .inr (h.checking ?_)⟩
      rcases checking with ⟨data, checking⟩ | ⟨user, checking⟩
      · exact checking ▸ trivial
      · exact checking ▸ trivial
  | owned checking owner => exact absurd ⟨_, _, checking, owner⟩ hother
  | historySent sending => exact ⟨rfl, fun hclosed => .inl (hclosed.of_note nofun)⟩
  | dispatchUpdate idle next => exact ⟨rfl, fun hclosed => .inl (hclosed.of_note nofun)⟩
  | timedOut unknown => exact ⟨rfl, fun _ => .inr unknown⟩
  | receive | groupAdded | tradesFetched | timerOver | stops | disconnect => exact ⟨rfl, .inl⟩

end

/-! ## 3. One connection along a run -/

section

variable {wire : Wire} {py : Python} {start : Ledger} {es : List Event} {w w' : World} {e : Event}
  {i : ℕ} {conn conn' : Connection}

theorem connection_of_socket {f : SocketEvent} (hstep : step wire py w (.socket i f) = some w')
    (hconn : w.connections[i]? = some conn) :
    ∃ conn', w'.connections[i]? = some conn' ∧ conn.step wire w.ledger f = some conn' := by
  simp only [step, hconn] at hstep
  obtain ⟨new, hnew, rfl⟩ := Option.map_eq_some_iff.mp hstep
  exact ⟨new, List.getElem?_set_self (List.getElem?_eq_some_iff.mp hconn).1, hnew⟩

/-- What a step does to one of the connections. -/
theorem connection_of_step (hstep : step wire py w e = some w')
    (hconn : w.connections[i]? = some conn) :
    ∃ conn', w'.connections[i]? = some conn' ∧
      (conn' = conn ∨ (∃ messages, conn' = conn.deliver messages) ∨
        ∃ f, e = .socket i f ∧ conn.step wire w.ledger f = some conn') := by
  cases e with
  | ledger f =>
      obtain ⟨ledger, -, rfl⟩ := Option.map_eq_some_iff.mp hstep
      refine ⟨conn.deliver (ledger.sent.drop w.ledger.sent.length), ?_, .inr (.inl ⟨_, rfl⟩)⟩
      simp only [List.getElem?_map, hconn, Option.map_some]
  | connect path =>
      cases hstep
      refine ⟨conn, ?_, .inl rfl⟩
      exact List.getElem?_append_left (List.getElem?_eq_some_iff.mp hconn).1 ▸ hconn
  | socket j f =>
      by_cases hij : j = i
      · subst hij
        obtain ⟨new, hnew, hsocket⟩ := connection_of_socket hstep hconn
        exact ⟨new, hnew, .inr (.inr ⟨f, rfl, hsocket⟩)⟩
      · simp only [step] at hstep
        split at hstep
        · cases hstep
        · obtain ⟨new, -, rfl⟩ := Option.map_eq_some_iff.mp hstep
          exact ⟨conn, (List.getElem?_set_ne hij).trans hconn, .inl rfl⟩

/-- A connection that was not there before a step has just been opened. -/
theorem connection_opened_of_step (hstep : step wire py w e = some w')
    (hnone : w.connections[i]? = none) (hconn' : w'.connections[i]? = some conn') :
    ∃ path ledger, conn' = .connect path ledger := by
  cases e with
  | ledger f =>
      obtain ⟨ledger, -, rfl⟩ := Option.map_eq_some_iff.mp hstep
      simp only [List.getElem?_map, hnone, Option.map_none, reduceCtorEq] at hconn'
  | connect path =>
      cases hstep
      rcases getElem?_append_singleton_cases hconn' with hold | ⟨-, hnew⟩
      · rw [hnone] at hold
        cases hold
      · exact ⟨path, w.ledger, hnew.symm⟩
  | socket j f =>
      simp only [step] at hstep
      split at hstep
      · cases hstep
      · obtain ⟨new, -, rfl⟩ := Option.map_eq_some_iff.mp hstep
        have hlen := List.getElem?_eq_none_iff.mp hnone
        have hlen' := (List.getElem?_eq_some_iff.mp hconn').1
        simp only [List.length_set] at hlen'
        omega

theorem journal_of_run (hrun : Run (step wire py) w es w') (hconn : w.connections[i]? = some conn) :
    ∃ conn', w'.connections[i]? = some conn' ∧ conn.journal <+: conn'.journal := by
  refine hrun.invariant (I := fun v => ∃ conn', v.connections[i]? = some conn' ∧
    conn.journal <+: conn'.journal) ⟨conn, hconn, List.prefix_refl _⟩ ?_
  rintro v e u ⟨old, hold, hjournal⟩ hstep
  obtain ⟨new, hnew, hcases⟩ := connection_of_step hstep hold
  refine ⟨new, hnew, hjournal.trans ?_⟩
  rcases hcases with rfl | ⟨messages, rfl⟩ | ⟨f, -, hsocket⟩
  · exact List.prefix_refl _
  · unfold Connection.deliver
    split
    · exact List.prefix_refl _
    · exact List.prefix_refl _
  · exact Connection.journal_of_step hsocket

end

/-! ## 4. Closed and reopened -/

/-- Nothing has been done on the connection since: it has not been marked authenticated, has not
joined the group and has sent nothing. -/
structure Connection.Quiet (conn conn' : Connection) : Prop where
  authenticated : conn'.authenticated = true → conn.authenticated = true
  member : conn'.member = true → conn.member = true
  sent : conn'.sent = conn.sent

/-- In the run over `es`, once the consumer of connection `i` has issued a close the connection stays
as it is. -/
def StaysClosed (wire : Wire) (py : Python) (start : Ledger) (es : List Event) (i : ℕ) : Prop :=
  ∀ pre mid w w' conn conn', pre ++ mid <+: es → Run (step wire py) (.initial start) pre w →
    Run (step wire py) w mid w' → w.connections[i]? = some conn →
    w'.connections[i]? = some conn' → conn.Closed → conn.Quiet conn'

/-- The ownership check of a frame finds the portfolio after the consumer of connection `i` has issued
a close. -/
def Reopens (i : ℕ) (w : World) (e : Event) : Prop :=
  ∃ conn f, w.connections[i]? = some conn ∧ e = .socket i f ∧ conn.Closed ∧ conn.Admits w.ledger f

section

variable {wire : Wire} {py : Python} {start : Ledger} {es : List Event} {w w' : World} {e : Event}
  {i : ℕ} {conn : Connection}

/-- As long as no check finds the portfolio too late, a closed connection is not authenticated. -/
theorem authenticated_of_closed (h : EveryStep (step wire py) (.initial start) es
      fun w e => ¬ Reopens i w e) :
    EveryState (step wire py) (.initial start) es fun _ w => ∀ conn,
      w.connections[i]? = some conn → conn.Closed → conn.authenticated = false := by
  refine h.everyState (fun conn hconn => by cases hconn) ?_
  intro pre v e u hv ih hother hstep conn' hconn' hclosed
  cases hconn : v.connections[i]? with
  | none =>
      obtain ⟨path, ledger, rfl⟩ := connection_opened_of_step hstep hconn hconn'
      rfl
  | some conn =>
      have hgated := Connection.Gated.of_run hv (List.mem_of_getElem? hconn)
      obtain ⟨new, hnew, hcases⟩ := connection_of_step hstep hconn
      obtain rfl := Option.some.inj (hnew.symm.trans hconn')
      rcases hcases with rfl | ⟨messages, rfl⟩ | ⟨f, rfl, hsocket⟩
      · exact ih _ hconn hclosed
      · unfold Connection.deliver at hclosed ⊢
        split at hclosed
        · rename_i hmember
          rw [if_pos hmember]
          exact ih conn hconn hclosed
        · rename_i hmember
          rw [if_neg hmember]
          exact ih conn hconn hclosed
      · by_cases hadmits : conn.Admits v.ledger f
        · -- it would have been closed already
          obtain ⟨-, hjournal⟩ := Connection.authenticated_of_admits hadmits hsocket
          obtain ⟨code, hmem⟩ := hclosed
          exact absurd ⟨conn, f, hconn, rfl, ⟨code, hjournal ▸ hmem⟩, hadmits⟩ hother
        · obtain ⟨hsame, hwas⟩ := hgated.of_not_admits hadmits hsocket
          rw [hsame]
          rcases hwas hclosed with hwas | hunknown
          · exact ih conn hconn hwas
          · exact hunknown

theorem Connection.Closed.mono {conn' : Connection} (h : conn.Closed)
    (hjournal : conn.journal <+: conn'.journal) : conn'.Closed := by
  obtain ⟨code, hmem⟩ := h
  exact ⟨code, hjournal.subset hmem⟩

end

/-- **A closed connection stays closed** exactly in the runs in which no ownership check finds the
portfolio after the close: neither one that was awaited when the timeout fired, nor one for a further
frame after a refusal. -/
theorem staysClosed_iff_not_reopens (wire : Wire) (py : Python) {start : Ledger} {es : List Event}
    {w : World} (hrun : Run (step wire py) (.initial start) es w) (i : ℕ) :
    StaysClosed wire py start es i ↔
      EveryStep (step wire py) (.initial start) es fun w e => ¬ Reopens i w e := by
  constructor
  · rintro hstays pre e v hpre hv ⟨conn, f, hconn, rfl, hclosed, hadmits⟩
    obtain ⟨u, hstep⟩ := hrun.exists_step hpre hv
    have hgated := Connection.Gated.of_run hv (List.mem_of_getElem? hconn)
    have hmid : Run (step wire py) v [.socket i f] u :=
      run_cons_iff.mpr ⟨u, hstep, run_nil_iff.mpr rfl⟩
    obtain ⟨conn', hconn', hsocket⟩ := connection_of_socket hstep hconn
    obtain ⟨hknown, -⟩ := Connection.authenticated_of_admits hadmits hsocket
    have hquiet := hstays pre [.socket i f] v u conn conn' hpre hv hmid hconn hconn' hclosed
    -- the check was awaited, so the client was not known
    have hunknown : conn.authenticated = false := by
      cases f with
      | ownerChecked =>
          obtain ⟨user, portfolio, hchecking, -⟩ := hadmits
          exact hgated.checking (hchecking ▸ trivial)
      | _ => exact hadmits.elim
    exact absurd (hunknown.symm.trans (hquiet.authenticated hknown)) (by decide)
  · intro hnever pre mid v u conn conn' hpre hv hmid hconn hconn' hclosed
    have hunknown := authenticated_of_closed hnever
    have hstill : conn'.Closed := by
      obtain ⟨new, hnew, hjournal⟩ := journal_of_run hmid hconn
      obtain rfl := Option.some.inj (hnew.symm.trans hconn')
      exact hclosed.mono hjournal
    have hu := run_append_iff.mpr ⟨v, hv, hmid⟩
    -- neither before nor after is anything done for a client that is not known
    have hbefore := hunknown pre v ((List.prefix_append _ _).trans hpre) hv conn hconn hclosed
    have hafter := hunknown (pre ++ mid) u hpre hu conn' hconn' hstill
    have hwaits := (Connection.Gated.of_run hv (List.mem_of_getElem? hconn)).waits hbefore
    have hwaits' := (Connection.Gated.of_run hu (List.mem_of_getElem? hconn')).waits hafter
    exact ⟨fun hknown => absurd (hafter.symm.trans hknown) (by decide),
      fun hmember => absurd (hwaits'.outside.symm.trans hmember) (by decide),
      hwaits'.silent.trans hwaits.silent.symm⟩

theorem staysClosed_iff_not_reopens_sample : ∃ w,
    Run (step authWire .default) (.initial firstPortfolio) joinsGroup w ∧
    (StaysClosed authWire .default firstPortfolio joinsGroup 0 ↔
      EveryStep (step authWire .default) (.initial firstPortfolio) joinsGroup
        fun w e => ¬ Reopens 0 w e) := by
  have hvalues : (exec (step authWire .default) (.initial firstPortfolio) joinsGroup).map
      (fun w => w.connections.map (·.member)) = some [true] := rfl
  obtain ⟨w, hrun, -⟩ := Option.map_eq_some_iff.mp hvalues
  exact ⟨w, hrun, staysClosed_iff_not_reopens authWire .default hrun 0⟩

/-- The timeout fires while the ownership check of the owner is awaited. -/
def timeoutDuringCheck : List Event :=
  [.connect firstPath, .socket 0 (.receive (.text "auth")), .socket 0 .dispatchFrame,
    .socket 0 (.tokenChecked authServer 0), .socket 0 .authTimeout]

/-- The check ends, and the closed connection is authenticated and joins the group. -/
theorem not_staysClosed_timeoutDuringCheck :
    ¬ StaysClosed authWire .default firstPortfolio
      (timeoutDuringCheck ++ [.socket 0 .ownerChecked, .socket 0 .groupAdded]) 0 := by
  intro hstays
  have hbefore : (exec (step authWire .default) (.initial firstPortfolio) timeoutDuringCheck).map
      (fun w => w.connections.map fun conn => (conn.member, conn.journal.getLast?)) =
        some [(false, some (.closed 4401))] := rfl
  have hafter : (exec (step authWire .default) (.initial firstPortfolio)
      (timeoutDuringCheck ++ [.socket 0 .ownerChecked, .socket 0 .groupAdded])).map
      (fun w => w.connections.map (·.member)) = some [true] := rfl
  obtain ⟨w, hw, hold⟩ := Option.map_eq_some_iff.mp hbefore
  obtain ⟨w', hw', hnew⟩ := Option.map_eq_some_iff.mp hafter
  obtain ⟨conn, hconn, hcalm⟩ := List.map_eq_singleton_iff.mp hold
  obtain ⟨conn', hconn', hjoined⟩ := List.map_eq_singleton_iff.mp hnew
  obtain ⟨hout, hlast⟩ := Prod.mk.inj hcalm
  obtain ⟨v, hv, hmid⟩ := run_append_iff.mp hw'
  obtain rfl := Run.unique hv hw
  have hquiet := hstays timeoutDuringCheck _ v w' conn conn' (List.prefix_refl _) hv hmid
    (by rw [hconn]; rfl) (by rw [hconn']; rfl) ⟨4401, List.mem_of_getLast? hlast⟩
  exact absurd (hquiet.member hjoined) (by rw [hout]; decide)

end DjasktTrading.Realtime
