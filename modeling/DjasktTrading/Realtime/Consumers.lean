import DjasktTrading.Ledger.Broadcasts
import DjasktTrading.Ledger.Uuids
import DjasktTrading.Realtime.Auth
import DjasktTrading.Realtime.Messages

/-!
# Consumers — `PortfolioConsumer` next to the ledger

Any number of connections over the interleaved ledger.  A consumer dispatches one message at a time;
while its handler awaits, the ledger, the other consumers and its own timeout go on.  A message to a
group is handed to the connections that are members of it then.
-/

open Reasoning

namespace DjasktTrading.Realtime

open Ledger

/-! ## 1. Connections -/

/-- The `portfolio_id` of the route. -/
structure PortfolioPath where
  text : String
  matched : text.length = 36 ∧
    ∀ c ∈ text.toList, c.isDigit ∨ c ∈ ['a', 'b', 'c', 'd', 'e', 'f', 'A', 'B', 'C', 'D', 'E', 'F', '-']

inductive Frame where
  | text (data : String)
  | binary
deriving DecidableEq

/-- What the handler of the message being dispatched awaits. -/
inductive Handler where
  /-- nothing is being dispatched -/
  | idle
  | checkingToken (data : String)
  | checkingOwner (user : UserId)
  | joining
  | querying
  | sendingHistory (portfolioId : Uuid) (trades : List LatestTrade)
  /-- disconnected, or an exception has left the consumer -/
  | stopped
deriving DecidableEq

/-- What has happened on a connection. -/
inductive Happening where
  | frame (frame : Frame)
  /-- the token check of a frame has returned a user -/
  | accepted (data : String) (server : Accounts.Server) (now : ℕ) (user : UserId)
  | closed (code : ℕ)
  /-- the trade history of the portfolio is sent -/
  | history (portfolioId : Uuid) (trades : List LatestTrade)
  /-- a broadcast payload is sent -/
  | update (payload : Payload)

def Happening.message? : Happening → Option SocketMessage
  | .history _ trades => some (.tradeHistory trades)
  | .update payload => some (.portfolioUpdate payload)
  | _ => none

/-- A consumer with its channel.  The journal and the ledgers at three of its moments are read by no
step. -/
structure Connection where
  path : PortfolioPath
  authenticated : Bool
  groupName : Option String
  userId : Option UserId
  /-- the timeout task is waiting -/
  timer : Bool
  handler : Handler
  frames : List Frame
  inbox : List Payload
  /-- the channel is in the group `groupName` -/
  member : Bool
  journal : List Happening
  opened : Ledger.World
  joined : Option Ledger.World
  queried : Option Ledger.World

namespace Connection

/-- `connect` -/
def connect (path : PortfolioPath) (ledger : Ledger.World) : Connection where
  path := path
  authenticated := false
  groupName := none
  userId := none
  timer := true
  handler := .idle
  frames := []
  inbox := []
  member := false
  journal := []
  opened := ledger
  joined := none
  queried := none

/-- The messages sent on the connection. -/
def sent (conn : Connection) : List SocketMessage := conn.journal.filterMap Happening.message?

def note (conn : Connection) (happening : Happening) : Connection :=
  { conn with journal := conn.journal ++ [happening] }

/-- `close(code=...)`, and the handler returns. -/
def close (conn : Connection) (code : ℕ) : Connection :=
  { conn.note (.closed code) with handler := .idle }

/-- The messages to its group are handed to the channel of a member. -/
def deliver (conn : Connection) (messages : List (ℕ × Broadcast)) : Connection :=
  if conn.member then
    { conn with inbox := conn.inbox ++
        (messages.filter fun x => conn.groupName = some x.2.group).map (·.2.payload) }
  else conn

end Connection

/-- `get_owned_portfolio_or_none`; `none` is the `ValidationError` of an id that is no UUID. -/
def getOwnedPortfolioOrNone (db : Ledger) (user : UserId) (portfolioId : String) :
    Option (Option Portfolio) :=
  (Uuid.ofHex? portfolioId).map fun id =>
    db.portfolios.find? fun portfolio => portfolio.user = user ∧ portfolio.id = id

/-! ## 2. Steps -/

inductive SocketEvent where
  /-- a frame comes in from the client -/
  | receive (frame : Frame)
  | dispatchFrame
  /-- the token check ends, with what the auth server holds then -/
  | tokenChecked (server : Accounts.Server) (now : ℕ)
  | ownerChecked
  | groupAdded
  | tradesFetched
  | historySent
  | dispatchUpdate
  | authTimeout
  /-- an await of the handler raises -/
  | raises
  | disconnect

def Connection.step (wire : Wire) (ledger : Ledger.World) (conn : Connection) :
    SocketEvent → Option Connection
  | .receive frame => some { conn with frames := conn.frames ++ [frame] }
  | .dispatchFrame =>
      match conn.handler, conn.frames with
      | .idle, frame :: frames =>
          let conn := { conn.note (.frame frame) with frames }
          -- push-only once authenticated
          if conn.authenticated then some conn
          else
            match frame with
            | .binary => some (conn.close 4401)
            | .text data => some { conn with handler := .checkingToken data }
      | _, _ => none
  | .tokenChecked server now =>
      match conn.handler with
      | .checkingToken data =>
          match authenticateFirstMessage wire server now data with
          | .ok user => some { conn.note (.accepted data server now user) with
              handler := .checkingOwner user }
          | .error (.webSocketAuthError _) => some (conn.close 4401)
          | .error .other => some { conn with handler := .stopped }
      | _ => none
  | .ownerChecked =>
      match conn.handler with
      | .checkingOwner user =>
          match getOwnedPortfolioOrNone ledger.db user conn.path.text with
          -- `ValidationError`, which nothing catches
          | none => some { conn with handler := .stopped }
          | some none => some (conn.close 4403)
          -- no await from here to `group_add`
          | some (some _) => some { conn with
              authenticated := true
              timer := false
              groupName := some (portfolioGroupName conn.path.text)
              userId := some user
              handler := .joining }
      | _ => none
  | .groupAdded =>
      match conn.handler with
      | .joining => some { conn with member := true, joined := some ledger, handler := .querying }
      | _ => none
  | .tradesFetched =>
      match conn.handler with
      | .querying =>
          match Uuid.ofHex? conn.path.text with
          | none => some { conn with handler := .stopped }
          | some id => some { conn with
              queried := some ledger
              handler := .sendingHistory id (getRecentTrades ledger.db id) }
      | _ => none
  | .historySent =>
      match conn.handler with
      -- the dispatch of the frame ends here, so no broadcast has been dispatched since the join
      | .sendingHistory id trades => some { conn.note (.history id trades) with handler := .idle }
      | _ => none
  | .dispatchUpdate =>
      match conn.handler, conn.inbox with
      | .idle, payload :: inbox => some { conn.note (.update payload) with inbox }
      | _, _ => none
  | .authTimeout =>
      if conn.timer then
        let conn := { conn with timer := false }
        -- a handler that is under way goes on
        if conn.authenticated then some conn else some (conn.note (.closed 4401))
      else none
  | .raises => if conn.handler = .stopped then none else some { conn with handler := .stopped }
  | .disconnect =>
      -- dispatched as the other messages are
      if conn.handler = .idle then
        some { conn with timer := false, member := false, handler := .stopped }
      else none

structure World where
  ledger : Ledger.World
  connections : List Connection

def World.initial (db : Ledger) : World where
  ledger := .initial db
  connections := []

inductive Event where
  | ledger (e : Ledger.Event)
  | connect (path : PortfolioPath)
  | socket (i : ℕ) (e : SocketEvent)

def step (wire : Wire) (py : Python) (w : World) : Event → Option World
  | .ledger e => (Ledger.step py w.ledger e).map fun ledger => {
      ledger
      connections := w.connections.map (·.deliver (ledger.sent.drop w.ledger.sent.length)) }
  | .connect path => some { w with connections := w.connections ++ [.connect path w.ledger] }
  | .socket i e =>
      match w.connections[i]? with
      | none => none
      | some conn => (conn.step wire w.ledger e).map fun conn =>
          { w with connections := w.connections.set i conn }

/-- Everything a step of a connection can do. -/
inductive Connection.Moves (wire : Wire) (ledger : Ledger.World) (conn : Connection) :
    SocketEvent → Connection → Prop where
  | receive (frame : Frame) :
      Moves wire ledger conn (.receive frame) { conn with frames := conn.frames ++ [frame] }
  | ignored {frame : Frame} {frames : List Frame} (idle : conn.handler = .idle)
      (next : conn.frames = frame :: frames) (known : conn.authenticated = true) :
      Moves wire ledger conn .dispatchFrame { conn.note (.frame frame) with frames }
  | binary {frames : List Frame} (idle : conn.handler = .idle)
      (next : conn.frames = .binary :: frames) (unknown : conn.authenticated = false) :
      Moves wire ledger conn .dispatchFrame
        (Connection.close { conn.note (.frame .binary) with frames } 4401)
  | text {data : String} {frames : List Frame} (idle : conn.handler = .idle)
      (next : conn.frames = .text data :: frames) (unknown : conn.authenticated = false) :
      Moves wire ledger conn .dispatchFrame
        { conn.note (.frame (.text data)) with frames, handler := .checkingToken data }
  | accepted {data : String} {server : Accounts.Server} {now : ℕ} {user : UserId}
      (checking : conn.handler = .checkingToken data)
      (valid : authenticateFirstMessage wire server now data = .ok user) :
      Moves wire ledger conn (.tokenChecked server now)
        { conn.note (.accepted data server now user) with handler := .checkingOwner user }
  | refused {e : SocketEvent} {code : ℕ}
      (checking : (∃ data, conn.handler = .checkingToken data) ∨
        ∃ user, conn.handler = .checkingOwner user) :
      Moves wire ledger conn e (conn.close code)
  | owned {user : UserId} {portfolio : Portfolio} (checking : conn.handler = .checkingOwner user)
      (owner : getOwnedPortfolioOrNone ledger.db user conn.path.text = some (some portfolio)) :
      Moves wire ledger conn .ownerChecked { conn with
        authenticated := true
        timer := false
        groupName := some (portfolioGroupName conn.path.text)
        userId := some user
        handler := .joining }
  | groupAdded (joining : conn.handler = .joining) :
      Moves wire ledger conn .groupAdded
        { conn with member := true, joined := some ledger, handler := .querying }
  | tradesFetched {id : Uuid} (querying : conn.handler = .querying)
      (parsed : Uuid.ofHex? conn.path.text = some id) :
      Moves wire ledger conn .tradesFetched { conn with
        queried := some ledger
        handler := .sendingHistory id (getRecentTrades ledger.db id) }
  | historySent {id : Uuid} {trades : List LatestTrade}
      (sending : conn.handler = .sendingHistory id trades) :
      Moves wire ledger conn .historySent { conn.note (.history id trades) with handler := .idle }
  | dispatchUpdate {payload : Payload} {inbox : List Payload} (idle : conn.handler = .idle)
      (next : conn.inbox = payload :: inbox) :
      Moves wire ledger conn .dispatchUpdate { conn.note (.update payload) with inbox }
  | timedOut (unknown : conn.authenticated = false) :
      Moves wire ledger conn .authTimeout
        (Connection.note { conn with timer := false } (.closed 4401))
  | timerOver : Moves wire ledger conn .authTimeout { conn with timer := false }
  | stops {e : SocketEvent} : Moves wire ledger conn e { conn with handler := .stopped }
  | disconnect (idle : conn.handler = .idle) :
      Moves wire ledger conn .disconnect
        { conn with timer := false, member := false, handler := .stopped }

theorem Connection.step_moves {wire : Wire} {ledger : Ledger.World} {conn conn' : Connection}
    {e : SocketEvent} (h : conn.step wire ledger e = some conn') :
    conn.Moves wire ledger e conn' := by
  cases e with
  | receive frame =>
      cases h
      exact .receive frame
  | dispatchFrame =>
      simp only [Connection.step] at h
      split at h
      · rename_i frame frames hidle hnext
        split at h
        · rename_i hknown
          cases h
          exact .ignored hidle hnext hknown
        · rename_i hunknown
          have hunknown' : conn.authenticated = false := by simpa [Connection.note] using hunknown
          split at h
          · cases h
            exact .binary hidle hnext hunknown'
          · cases h
            exact .text hidle hnext hunknown'
      · cases h
  | tokenChecked server now =>
      simp only [Connection.step] at h
      split at h
      · rename_i data hchecking
        split at h
        · rename_i user hvalid
          cases h
          exact .accepted hchecking hvalid
        · cases h
          exact .refused (.inl ⟨data, hchecking⟩)
        · cases h
          exact .stops
      · cases h
  | ownerChecked =>
      simp only [Connection.step] at h
      split at h
      · rename_i user hchecking
        split at h
        · cases h
          exact .stops
        · cases h
          exact .refused (.inr ⟨user, hchecking⟩)
        · rename_i portfolio howner
          cases h
          exact .owned hchecking howner
      · cases h
  | groupAdded =>
      simp only [Connection.step] at h
      split at h
      · rename_i hjoining
        cases h
        exact .groupAdded hjoining
      · cases h
  | tradesFetched =>
      simp only [Connection.step] at h
      split at h
      · rename_i hquerying
        split at h
        · cases h
          exact .stops
        · rename_i id hparsed
          cases h
          exact .tradesFetched hquerying hparsed
      · cases h
  | historySent =>
      simp only [Connection.step] at h
      split at h
      · rename_i id trades hsending
        cases h
        exact .historySent hsending
      · cases h
  | dispatchUpdate =>
      simp only [Connection.step] at h
      split at h
      · rename_i payload inbox hidle hnext
        cases h
        exact .dispatchUpdate hidle hnext
      · cases h
  | authTimeout =>
      simp only [Connection.step] at h
      split at h
      · split at h
        · cases h
          exact .timerOver
        · rename_i hunknown
          cases h
          exact .timedOut (by simpa using hunknown)
      · cases h
  | raises =>
      simp only [Connection.step] at h
      split at h
      · cases h
      · cases h
        exact .stops
  | disconnect =>
      simp only [Connection.step] at h
      split at h
      · rename_i hidle
        cases h
        exact .disconnect hidle
      · cases h

/-! ## 3. What holds of every connection -/

section

variable {wire : Wire} {py : Python} {start : Ledger} {es : List Event} {w : World}

/-- The ledger of a run of connections and ledger is that of a run of the ledger. -/
theorem exists_run_ledger (hrun : Run (step wire py) (.initial start) es w) :
    ∃ fs, Run (Ledger.step py) (.initial start) fs w.ledger := by
  refine hrun.invariant (I := fun w => ∃ fs, Run (Ledger.step py) (.initial start) fs w.ledger)
    ⟨[], run_nil_iff.mpr rfl⟩ ?_
  rintro v e u ⟨fs, hfs⟩ hstep
  cases e with
  | ledger e =>
      obtain ⟨ledger, hledger, rfl⟩ := Option.map_eq_some_iff.mp hstep
      exact ⟨fs ++ [e], run_concat_iff.mpr ⟨_, hfs, hledger⟩⟩
  | connect path =>
      cases hstep
      exact ⟨fs, hfs⟩
  | socket i e =>
      simp only [step] at hstep
      split at hstep
      · cases hstep
      · obtain ⟨conn, -, rfl⟩ := Option.map_eq_some_iff.mp hstep
        exact ⟨fs, hfs⟩

/-- What every connection has when it opens, and keeps while it moves and while the ledger does, every
connection has in every run. -/
theorem connection_invariant {P : Ledger.World → Connection → Prop}
    (hconnect : ∀ {fs l} path, Run (Ledger.step py) (.initial start) fs l → P l (.connect path l))
    (hsocket : ∀ {fs l conn e conn'}, Run (Ledger.step py) (.initial start) fs l → P l conn →
      conn.step wire l e = some conn' → P l conn')
    (hledger : ∀ {fs l conn e l'}, Run (Ledger.step py) (.initial start) fs l → P l conn →
      Ledger.step py l e = some l' → P l' (conn.deliver (l'.sent.drop l.sent.length)))
    (hrun : Run (step wire py) (.initial start) es w) : ∀ conn ∈ w.connections, P w.ledger conn := by
  refine hrun.induction (motive := fun _ w => ∀ conn ∈ w.connections, P w.ledger conn) ?_ ?_
  · intro conn hconn
    cases hconn
  intro es v e u hv ih hstep
  obtain ⟨fs, hfs⟩ := exists_run_ledger hv
  cases e with
  | ledger e =>
      obtain ⟨ledger, hstep', rfl⟩ := Option.map_eq_some_iff.mp hstep
      intro conn hconn
      obtain ⟨old, hold, rfl⟩ := List.mem_map.mp hconn
      exact hledger hfs (ih old hold) hstep'
  | connect path =>
      cases hstep
      intro conn hconn
      rcases List.mem_append.mp hconn with hconn | hconn
      · exact ih conn hconn
      · rw [List.mem_singleton.mp hconn]
        exact hconnect path hfs
  | socket i e =>
      simp only [step] at hstep
      split at hstep
      · cases hstep
      · rename_i old hold
        obtain ⟨new, hnew, rfl⟩ := Option.map_eq_some_iff.mp hstep
        intro conn hconn
        rcases List.mem_or_eq_of_mem_set hconn with hconn | rfl
        · exact ih conn hconn
        · exact hsocket hfs (ih old (List.mem_of_getElem? hold)) hnew

end

/-! ## 4. The owner of the first portfolio connects -/

def firstPath : PortfolioPath where
  text := "00000000-0000-0000-0000-000000000001"
  -- by the characters of the text, not by all characters
  matched := ⟨rfl, @of_decide_eq_true _ (List.decidableBAll _ _) rfl⟩

def ownerToken : Accounts.Token := ⟨.access, 10, 0, 1, 1⟩

/-- A server that knows the owner and has revoked nothing. -/
def authServer : Accounts.Server := ⟨[ownerToken], Expiring.empty⟩

/-- One frame is an auth message, with the token of the owner. -/
def authWire : Wire where
  loads text :=
    if text = "auth" then .ok (.dict [("type", .str "auth"), ("access_token", .str "jwt")])
    else .error .jsonDecodeError
  token? text := if text = "jwt" then some ownerToken else none
  excText _ := ""

/-- The consumer authenticates, up to the group. -/
def joinsGroup : List Event :=
  [.connect firstPath, .socket 0 (.receive (.text "auth")), .socket 0 .dispatchFrame,
    .socket 0 (.tokenChecked authServer 0), .socket 0 .ownerChecked, .socket 0 .groupAdded]

end DjasktTrading.Realtime
