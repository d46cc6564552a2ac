import DjasktTrading.Client.PortfolioStream
import DjasktTrading.Reasoning.Runs
import DjasktTrading.Reasoning.Slots

/-!
# Stream lifecycle — the sockets and timers of `usePortfolioStream`

One component that uses the hook.  React runs its effect and cleans it up; the browser delivers the
events of the sockets and fires the timers.  The refs are shared by all instances of the effect, and
the handlers of a socket belong to the instance that has opened it.
-/

open Reasoning

namespace DjasktTrading.Client

open Ledger Realtime

/-! ## 1. The hook -/

/-- `RECONNECT_DELAYS_MS` -/
def reconnectDelaysMs : List ℕ := [1000, 2000, 4000, 8000]

def reconnectDelay (attempt : ℕ) : ℕ :=
  reconnectDelaysMs.getD (min attempt (reconnectDelaysMs.length - 1)) 0

/-- The schedule holds at its last delay. -/
theorem reconnectDelay_mem (attempt : ℕ) : reconnectDelay attempt ∈ reconnectDelaysMs := by
  have hlt : min attempt (reconnectDelaysMs.length - 1) < reconnectDelaysMs.length :=
    lt_of_le_of_lt (min_le_right _ _) (by decide)
  rw [reconnectDelay, List.getD_eq_getElem?_getD, List.getElem?_eq_getElem hlt]
  exact List.getElem_mem hlt

inductive ConnectionStatus where
  | connecting
  | open
  | closed
deriving DecidableEq

/-- `WebSocket.readyState`; a socket is closing from the call of `close()` to its close event. -/
inductive ReadyState where
  | connecting
  | open
  | closing
  | closed
deriving DecidableEq

/-- A run of the effect that has connected, with what its closures have captured. -/
structure Instance where
  number : ℕ
  portfolioId : String
  accessToken : String
deriving DecidableEq

structure Socket where
  /-- the instance whose `connect` has opened it -/
  opener : Instance
  url : String
  readyState : ReadyState
  /-- the access token of the auth message, once that is sent -/
  sent : Option String
deriving DecidableEq

/-- `new WebSocket(...)` -/
def Socket.new (origin : String) (inst : Instance) : Socket where
  opener := inst
  url := origin ++ "/ws/v1/ledger/portfolio/" ++ inst.portfolioId ++ "/"
  readyState := .connecting
  sent := none

/-- Open or connecting, and not told to close. -/
def Socket.live (socket : Socket) : Bool :=
  socket.readyState = .connecting ∨ socket.readyState = .open

/-- `close()` -/
def Socket.close (socket : Socket) : Socket :=
  if socket.live then { socket with readyState := .closing } else socket

/-- `setTimeout(connect, delay)` -/
structure Timer where
  id : ℕ
  owner : Instance
  delay : ℕ
deriving DecidableEq

/-- What an instance does after its cleanup. -/
inductive Deed where
  | opened (inst : Instance)
  | changedStatus (inst : Instance)
deriving DecidableEq

/-- The state and the refs of the hook, the sockets, the pending timers and the cached portfolio.
`deeds` records what instances have done after their cleanup; no step reads it. -/
structure Hook where
  mounted : Bool
  status : ConnectionStatus
  socketRef : Option ℕ
  reconnectAttemptRef : ℕ
  reconnectTimeoutRef : Option ℕ
  isUnmountedRef : Bool
  /-- the instance that has run and has not been cleaned up -/
  active : Option Instance
  runs : ℕ
  sockets : List Socket
  timers : List Timer
  timersSet : ℕ
  cache : Option View
  deeds : List Deed

namespace Hook

def initial (cache : Option View) : Hook where
  mounted := true
  status := .connecting
  socketRef := none
  reconnectAttemptRef := 0
  reconnectTimeoutRef := none
  isUnmountedRef := false
  active := none
  runs := 0
  sockets := []
  timers := []
  timersSet := 0
  cache := cache
  deeds := []

/-- Record what an instance does, if it has been cleaned up. -/
def note (h : Hook) (inst : Instance) (deed : Deed) : Hook :=
  if h.active = some inst then h else { h with deeds := h.deeds ++ [deed] }

/-- `setStatus`, called by an instance; React ignores it once the component is unmounted. -/
def setStatus (h : Hook) (inst : Instance) (status : ConnectionStatus) : Hook :=
  if h.mounted ∧ h.status ≠ status then { h.note inst (.changedStatus inst) with status } else h

variable (origin : String)

/-- `connect` -/
def connect (h : Hook) (inst : Instance) : Hook :=
  let h := h.setStatus inst .connecting
  { h.note inst (.opened inst) with
    sockets := h.sockets ++ [.new origin inst]
    socketRef := some h.sockets.length }

/-- The effect. -/
def runEffect (h : Hook) (portfolioId accessToken : Option String) : Hook :=
  match portfolioId, accessToken with
  | some portfolioId, some accessToken =>
      if portfolioId = "" ∨ accessToken = "" then h
      else
        let inst : Instance := ⟨h.runs, portfolioId, accessToken⟩
        { h with isUnmountedRef := false, active := some inst, runs := h.runs + 1 }.connect origin inst
  | _, _ => h

/-- The cleanup that the effect returns. -/
def cleanup (h : Hook) : Hook :=
  { h with
    isUnmountedRef := true
    timers := match h.reconnectTimeoutRef with
      | some id => h.timers.filter (·.id ≠ id)
      | none => h.timers
    sockets := match h.socketRef with
      | some k => h.sockets.modify k Socket.close
      | none => h.sockets
    active := none }

/-- `socket.onopen` -/
def onopen (h : Hook) (k : ℕ) (socket : Socket) : Hook :=
  let opened : Socket :=
    { socket with readyState := .open, sent := some socket.opener.accessToken }
  { h with sockets := h.sockets.set k opened }

/-- `socket.onmessage`; `none` is a message that does not parse. -/
def onmessage (h : Hook) (socket : Socket) (message : Option SocketMessage) : Hook :=
  let h := { h.setStatus socket.opener .open with reconnectAttemptRef := 0 }
  match message with
  | some message => { h with cache := onMessage h.cache message }
  | none => h

/-- `socket.onclose` -/
def onclose (h : Hook) (k : ℕ) (socket : Socket) : Hook :=
  let h := { h with sockets := h.sockets.set k { socket with readyState := .closed } }
  let h := h.setStatus socket.opener .closed
  -- the ref is shared: the next run of the effect has set it back
  if h.isUnmountedRef then h
  else { h with
    reconnectAttemptRef := h.reconnectAttemptRef + 1
    timers := h.timers ++ [⟨h.timersSet, socket.opener, reconnectDelay h.reconnectAttemptRef⟩]
    timersSet := h.timersSet + 1
    reconnectTimeoutRef := some h.timersSet }

end Hook

/-! ## 2. Events -/

inductive StreamEvent where
  /-- React runs the effect -/
  | run (portfolioId accessToken : Option String)
  /-- React cleans the effect up, to run it again -/
  | cleanup
  | unmount
  | open (k : ℕ)
  | message (k : ℕ) (message : Option SocketMessage)
  | close (k : ℕ)
  /-- a timer fires -/
  | timeout (id : ℕ)

variable (origin : String)

/-- An event, if React or the browser can deliver it: the effect runs when it is not running, a socket
opens when it is connecting, gets messages while it is open, and closes once. -/
def streamStep (h : Hook) : StreamEvent → Option Hook
  | .run portfolioId accessToken =>
      if h.mounted ∧ h.active = none then some (h.runEffect origin portfolioId accessToken) else none
  | .cleanup => if h.active.isSome then some h.cleanup else none
  | .unmount =>
      if h.mounted then
        some { (if h.active.isSome then h.cleanup else h) with mounted := false }
      else none
  | .open k =>
      match h.sockets[k]? with
      | some socket => if socket.readyState = .connecting then some (h.onopen k socket) else none
      | none => none
  | .message k message =>
      match h.sockets[k]? with
      | some socket => if socket.readyState = .open then some (h.onmessage socket message) else none
      | none => none
  | .close k =>
      match h.sockets[k]? with
      | some socket => if socket.readyState = .closed then none else some (h.onclose k socket)
      | none => none
  | .timeout id =>
      match h.timers.find? (·.id = id) with
      | some timer =>
          some ({ h with timers := h.timers.filter (·.id ≠ id) }.connect origin timer.owner)
      | none => none

/-! ## 3. One connection to a hook -/

/-- The sockets that are open or connecting and not told to close, and the pending timers. -/
def Hook.owned (h : Hook) : ℕ := h.sockets.countP Socket.live + h.timers.length

/-- No instance has opened a socket or changed the status after its cleanup, and at most one
connection is open or on its way. -/
structure OwnsOne (h : Hook) : Prop where
  deeds : h.deeds = []
  owned : h.owned ≤ 1

/-- No close event comes of a socket whose instance has been cleaned up, unless the component is
unmounted, or no instance runs and the status is `closed` already. -/
def ClosesInTime (h : Hook) : StreamEvent → Prop
  | .close k => ∀ socket, h.sockets[k]? = some socket → h.active = some socket.opener ∨
      h.mounted = false ∨ h.active = none ∧ h.status = .closed
  | _ => True

/-! ## 4. The invariant -/

structure StreamInv (h : Hook) : Prop where
  deeds : h.deeds = []
  /-- an instance that runs owns one connection -/
  running : h.active.isSome → h.owned = 1 ∧ h.isUnmountedRef = false ∧ h.mounted = true
  idle : h.active = none → h.isUnmountedRef = true ∨ h.sockets = []
  /-- the refs are to what it owns -/
  live : ∀ k socket, h.sockets[k]? = some socket → socket.live → h.socketRef = some k ∧
    h.active = some socket.opener
  timers : ∀ timer ∈ h.timers, h.reconnectTimeoutRef = some timer.id ∧ h.active = some timer.owner
  /-- a socket that was told to close is of an instance that has been cleaned up -/
  closing : ∀ socket ∈ h.sockets, socket.readyState = .closing → h.active ≠ some socket.opener
  openers : ∀ socket ∈ h.sockets, socket.opener.number < h.runs
  number : ∀ inst, h.active = some inst → inst.number < h.runs

section

variable {origin} {h h' : Hook} {inst : Instance} {k : ℕ} {socket : Socket} {e : StreamEvent}

/-- The deeds after an instance has called `setStatus`. -/
def Hook.deedsAfter (h : Hook) (inst : Instance) (status : ConnectionStatus) : List Deed :=
  if (h.mounted = true ∧ h.status ≠ status) ∧ h.active ≠ some inst then
    h.deeds ++ [.changedStatus inst]
  else h.deeds

theorem Hook.setStatus_eq (h : Hook) (inst : Instance) (status : ConnectionStatus) :
    h.setStatus inst status = { h with
      status := if h.mounted then status else h.status
      deeds := h.deedsAfter inst status } := by
  unfold setStatus note deedsAfter
  by_cases hchanges : h.mounted = true ∧ h.status ≠ status
  · rw [if_pos hchanges, if_pos hchanges.1]
    by_cases hactive : h.active = some inst
    · rw [if_pos hactive, if_neg (fun hnot => hnot.2 hactive)]
    · rw [if_neg hactive, if_pos ⟨hchanges, hactive⟩]
  · have hneither : ¬ ((h.mounted = true ∧ h.status ≠ status) ∧ h.active ≠ some inst) :=
      fun hboth => hchanges hboth.1
    rw [if_neg hchanges, if_neg hneither]
    by_cases hmounted : h.mounted = true
    · have hsame : h.status = status := not_not.mp fun hne => hchanges ⟨hmounted, hne⟩
      rw [if_pos hmounted, ← hsame]
    · rw [if_neg hmounted]

theorem Hook.deedsAfter_of_active (hactive : h.active = some inst) (status : ConnectionStatus) :
    h.deedsAfter inst status = h.deeds :=
  if_neg fun hnot => hnot.2 hactive

theorem Hook.setStatus_of_active (hactive : h.active = some inst) (status : ConnectionStatus) :
    h.setStatus inst status = { h with status := if h.mounted then status else h.status } := by
  rw [setStatus_eq, deedsAfter_of_active hactive]

/-- A close event after a cleanup reports a status and ends there. -/
theorem Hook.onclose_of_unmounted (hguard : h.isUnmountedRef = true) (k : ℕ) (socket : Socket) :
    h.onclose k socket = { h with
      sockets := h.sockets.set k { socket with readyState := .closed }
      status := if h.mounted then .closed else h.status
      deeds := h.deedsAfter socket.opener .closed } := by
  unfold onclose
  dsimp only
  rw [setStatus_eq]
  dsimp only
  rw [hguard, if_pos rfl]
  rfl

/-- While an instance runs it also sets a timer. -/
theorem Hook.onclose_of_running (hguard : h.isUnmountedRef = false) (k : ℕ) (socket : Socket) :
    h.onclose k socket = { h with
      sockets := h.sockets.set k { socket with readyState := .closed }
      status := if h.mounted then .closed else h.status
      deeds := h.deedsAfter socket.opener .closed
      reconnectAttemptRef := h.reconnectAttemptRef + 1
      timers := h.timers ++ [⟨h.timersSet, socket.opener, reconnectDelay h.reconnectAttemptRef⟩]
      timersSet := h.timersSet + 1
      reconnectTimeoutRef := some h.timersSet } := by
  unfold onclose
  dsimp only
  rw [setStatus_eq]
  dsimp only
  rw [hguard, if_neg Bool.false_ne_true]
  rfl

theorem Hook.connect_of_active (hactive : h.active = some inst) :
    h.connect origin inst = { h with
      status := if h.mounted then .connecting else h.status
      sockets := h.sockets ++ [.new origin inst]
      socketRef := some h.sockets.length } := by
  unfold connect
  rw [setStatus_of_active hactive]
  unfold note
  dsimp only
  rw [if_pos hactive]

theorem StreamInv.initial (cache : Option View) : StreamInv (.initial cache) where
  deeds := rfl
  running hactive := by cases hactive
  idle _ := .inr rfl
  live k socket hsocket := by simp [Hook.initial] at hsocket
  timers timer htimer := by cases htimer
  closing socket hsocket := by cases hsocket
  openers socket hsocket := by cases hsocket
  number inst hactive := by cases hactive

theorem StreamInv.not_live_of_idle (hinv : StreamInv h) (hidle : h.active = none) :
    (∀ socket ∈ h.sockets, ¬ socket.live) ∧ h.timers = [] := by
  constructor
  · intro socket hsocket hlive
    obtain ⟨k, hk⟩ := List.mem_iff_getElem?.mp hsocket
    have hopener := (hinv.live k socket hk hlive).2
    rw [hidle] at hopener
    cases hopener
  · refine List.eq_nil_iff_forall_not_mem.mpr fun timer htimer => ?_
    have howner := (hinv.timers timer htimer).2
    rw [hidle] at howner
    cases howner

theorem StreamInv.ownsOne (hinv : StreamInv h) : OwnsOne h where
  deeds := hinv.deeds
  owned := by
    cases hactive : h.active with
    | some inst => exact (hinv.running (by rw [hactive]; rfl)).1.le
    | none =>
        obtain ⟨hlive, htimers⟩ := hinv.not_live_of_idle hactive
        rw [Hook.owned, htimers, List.countP_eq_zero.mpr hlive]
        exact Nat.zero_le 1

/-- An instance that owns nothing connects. -/
theorem StreamInv.connect (hactive : h.active = some inst) (hmounted : h.mounted = true)
    (hguard : h.isUnmountedRef = false) (hdeeds : h.deeds = [])
    (hlive : ∀ socket ∈ h.sockets, ¬ socket.live) (htimers : h.timers = [])
    (hclosing : ∀ socket ∈ h.sockets, socket.readyState = .closing → h.active ≠ some socket.opener)
    (hopeners : ∀ socket ∈ h.sockets, socket.opener.number < h.runs) (hnumber : inst.number < h.runs) :
    StreamInv (h.connect origin inst) := by
  rw [Hook.connect_of_active hactive]
  constructor
  · exact hdeeds
  · refine fun _ => ⟨?_, hguard, hmounted⟩
    rw [Hook.owned, List.countP_append, List.countP_eq_zero.mpr hlive, htimers]
    rfl
  · intro hnone
    rw [hactive] at hnone
    cases hnone
  · intro k socket hk hsocket
    -- only the new socket is live
    rcases getElem?_append_singleton_cases hk with hold | ⟨rfl, rfl⟩
    · exact absurd hsocket (hlive socket (List.mem_of_getElem? hold))
    · exact ⟨rfl, hactive⟩
  · intro timer htimer
    rw [htimers] at htimer
    cases htimer
  · intro socket hsocket hstate
    rcases List.mem_append.mp hsocket with hold | hnew
    · exact hclosing socket hold hstate
    · rw [List.mem_singleton.mp hnew] at hstate
      cases hstate
  · intro socket hsocket
    rcases List.mem_append.mp hsocket with hold | hnew
    · exact hopeners socket hold
    · rw [List.mem_singleton.mp hnew]
      exact hnumber
  · intro other hother
    obtain rfl := Option.some.inj (hother.symm.trans hactive)
    exact hnumber

theorem StreamInv.runEffect (hinv : StreamInv h) (hmounted : h.mounted = true)
    (hidle : h.active = none) (portfolioId accessToken : Option String) :
    StreamInv (h.runEffect origin portfolioId accessToken) := by
  obtain ⟨hlive, htimers⟩ := hinv.not_live_of_idle hidle
  unfold Hook.runEffect
  split
  · split
    · exact hinv
    · refine StreamInv.connect rfl hmounted rfl hinv.deeds hlive htimers ?_ ?_ (Nat.lt_succ_self _)
      · intro socket hsocket _ heq
        have hless := hinv.openers socket hsocket
        rw [← Option.some.inj heq] at hless
        exact absurd hless (lt_irrefl _)
      · exact fun socket hsocket => (hinv.openers socket hsocket).trans (Nat.lt_succ_self _)
  · exact hinv

theorem Socket.not_live_close (socket : Socket) : ¬ socket.close.live := by
  unfold Socket.close
  split
  · simp [Socket.live]
  · assumption

theorem Socket.opener_close (socket : Socket) : socket.close.opener = socket.opener := by
  unfold Socket.close
  split
  · rfl
  · rfl

/-- No socket is live after a cleanup. -/
theorem StreamInv.sockets_cleanup (hinv : StreamInv h) :
    ∀ socket ∈ h.cleanup.sockets, ¬ socket.live ∧ socket.opener.number < h.runs := by
  intro socket hsocket
  unfold Hook.cleanup at hsocket
  dsimp only at hsocket
  obtain ⟨k, hk⟩ := List.mem_iff_getElem?.mp hsocket
  cases href : h.socketRef with
  | none =>
      rw [href] at hk
      refine ⟨fun hlive => ?_, hinv.openers socket (List.mem_of_getElem? hk)⟩
      have hsome := (hinv.live k socket hk hlive).1
      rw [href] at hsome
      cases hsome
  | some k' =>
      rw [href] at hk
      dsimp only at hk
      -- `socketRef` is to the only socket that can be live
      by_cases hkk : k' = k
      · subst hkk
        rw [List.getElem?_modify_eq] at hk
        obtain ⟨old, hold, rfl⟩ := Option.map_eq_some_iff.mp hk
        refine ⟨Socket.not_live_close old, ?_⟩
        rw [Socket.opener_close]
        exact hinv.openers old (List.mem_of_getElem? hold)
      · rw [List.getElem?_modify_ne _ _ hkk] at hk
        refine ⟨fun hlive => ?_, hinv.openers socket (List.mem_of_getElem? hk)⟩
        have hsome := (hinv.live k socket hk hlive).1
        rw [href] at hsome
        exact hkk (Option.some.inj hsome)

theorem StreamInv.timers_cleanup (hinv : StreamInv h) : h.cleanup.timers = [] := by
  refine List.eq_nil_iff_forall_not_mem.mpr fun timer htimer => ?_
  unfold Hook.cleanup at htimer
  dsimp only at htimer
  cases href : h.reconnectTimeoutRef with
  | none =>
      rw [href] at htimer
      have hsome := (hinv.timers timer htimer).1
      rw [href] at hsome
      cases hsome
  | some id =>
      rw [href] at htimer
      obtain ⟨hmem, hne⟩ := List.mem_filter.mp htimer
      have hsome := (hinv.timers timer hmem).1
      rw [href] at hsome
      simp [Option.some.inj hsome] at hne

/-- A cleanup ends what the instance owns. -/
theorem StreamInv.cleanup (hinv : StreamInv h) : StreamInv h.cleanup := by
  constructor
  · exact hinv.deeds
  · intro hactive
    cases hactive
  · exact fun _ => .inl rfl
  · intro k socket hk hlive
    exact absurd hlive (hinv.sockets_cleanup socket (List.mem_of_getElem? hk)).1
  · intro timer htimer
    rw [hinv.timers_cleanup] at htimer
    cases htimer
  · intro socket hsocket hstate hactive
    cases hactive
  · exact fun socket hsocket => (hinv.sockets_cleanup socket hsocket).2
  · intro inst hactive
    cases hactive

/-- An event of a socket that leaves it as live as it was, with its opener. -/
theorem StreamInv.setSocket (hinv : StreamInv h) (hk : h.sockets[k]? = some socket) {next : Socket}
    (hlive : next.live = socket.live) (hopener : next.opener = socket.opener)
    (hstate : next.readyState ≠ .closing) : StreamInv { h with sockets := h.sockets.set k next } := by
  constructor
  · exact hinv.deeds
  · intro hactive
    obtain ⟨howned, hrest⟩ := hinv.running hactive
    refine ⟨?_, hrest⟩
    rw [Hook.owned, countP_set_of_eq hk hlive]
    exact howned
  · intro hactive
    refine (hinv.idle hactive).imp_right fun hnone => ?_
    rw [hnone] at hk
    cases hk
  · intro k' socket' hk' hlive'
    rcases getElem?_set_cases hk' with ⟨rfl, rfl⟩ | ⟨-, hold⟩
    · rw [hopener]
      exact hinv.live k socket hk (hlive.symm.trans hlive')
    · exact hinv.live k' socket' hold hlive'
  · exact hinv.timers
  · intro socket' hsocket' hclosing
    rcases List.mem_or_eq_of_mem_set hsocket' with hold | rfl
    · exact hinv.closing socket' hold hclosing
    · exact absurd hclosing hstate
  · intro socket' hsocket'
    rcases List.mem_or_eq_of_mem_set hsocket' with hold | rfl
    · exact hinv.openers socket' hold
    · rw [hopener]
      exact hinv.openers socket (List.mem_of_getElem? hk)
  · exact hinv.number

theorem StreamInv.onmessage (hinv : StreamInv h) (hk : h.sockets[k]? = some socket)
    (hopen : socket.readyState = .open) (message : Option SocketMessage) :
    StreamInv (h.onmessage socket message) := by
  have hlive : socket.live := by simp [Socket.live, hopen]
  unfold Hook.onmessage
  rw [Hook.setStatus_of_active (hinv.live k socket hk hlive).2]
  cases message with
  | none =>
      exact ⟨hinv.deeds, hinv.running, hinv.idle, hinv.live, hinv.timers, hinv.closing, hinv.openers,
        hinv.number⟩
  | some message =>
      exact ⟨hinv.deeds, hinv.running, hinv.idle, hinv.live, hinv.timers, hinv.closing, hinv.openers,
        hinv.number⟩

/-- The timer of the instance that runs fires. -/
theorem StreamInv.timeout (hinv : StreamInv h) {timer : Timer} (htimer : timer ∈ h.timers) :
    StreamInv ({ h with timers := h.timers.filter (·.id ≠ timer.id) }.connect origin timer.owner) := by
  obtain ⟨href, hactive⟩ := hinv.timers timer htimer
  obtain ⟨howned, hguard, hmounted⟩ := hinv.running (by rw [hactive]; rfl)
  have hpos : 0 < h.timers.length := List.length_pos_of_mem htimer
  have hcount : h.sockets.countP Socket.live = 0 := by
    rw [Hook.owned] at howned
    omega
  -- it was the only timer
  have hnone : h.timers.filter (·.id ≠ timer.id) = [] := by
    refine List.filter_eq_nil_iff.mpr fun other hother => ?_
    have hsame := (hinv.timers other hother).1
    rw [href] at hsame
    simp [Option.some.inj hsame]
  exact StreamInv.connect hactive hmounted hguard hinv.deeds (List.countP_eq_zero.mp hcount) hnone
    hinv.closing hinv.openers (hinv.number _ hactive)

theorem StreamInv.unmount (hinv : StreamInv h) :
    StreamInv { (if h.active.isSome then h.cleanup else h) with mounted := false } := by
  have hidle : StreamInv (if h.active.isSome then h.cleanup else h) ∧
      (if h.active.isSome then h.cleanup else h).active = none := by
    split
    · exact ⟨hinv.cleanup, rfl⟩
    · rename_i hnone
      exact ⟨hinv, by simpa using hnone⟩
  obtain ⟨hinv', hnone⟩ := hidle
  refine ⟨hinv'.deeds, fun hactive => ?_, hinv'.idle, hinv'.live, hinv'.timers, hinv'.closing,
    hinv'.openers, hinv'.number⟩
  dsimp only at hactive
  rw [hnone] at hactive
  cases hactive

/-! ## 5. Close events -/

/-- A socket whose close event comes is live and of the instance that runs, or was told to close. -/
theorem StreamInv.live_of_active (hinv : StreamInv h) (hk : h.sockets[k]? = some socket)
    (hopen : socket.readyState ≠ .closed) (hactive : h.active = some socket.opener) : socket.live := by
  have hclosing := hinv.closing socket (List.mem_of_getElem? hk)
  unfold Socket.live
  cases hstate : socket.readyState with
  | connecting => rfl
  | «open» => rfl
  | closing => exact absurd hactive (hclosing hstate)
  | closed => exact absurd hstate hopen

/-- The connection of the instance that runs is lost, and a timer takes its place. -/
theorem StreamInv.onclose_active (hinv : StreamInv h) (hk : h.sockets[k]? = some socket)
    (hopen : socket.readyState ≠ .closed) (hactive : h.active = some socket.opener) :
    StreamInv (h.onclose k socket) := by
  have hlive := hinv.live_of_active hk hopen hactive
  have href := (hinv.live k socket hk hlive).1
  obtain ⟨howned, hguard, hmounted⟩ := hinv.running (by rw [hactive]; rfl)
  have hcount : 0 < h.sockets.countP Socket.live :=
    List.countP_pos_iff.mpr ⟨socket, List.mem_of_getElem? hk, hlive⟩
  have htimers : h.timers = [] := by
    rw [Hook.owned] at howned
    exact List.length_eq_zero_iff.mp (by omega)
  -- it was the only live one
  have hnone : ∀ s ∈ h.sockets.set k { socket with readyState := .closed }, ¬ s.live := by
    intro s hs hslive
    obtain ⟨k', hk'⟩ := List.mem_iff_getElem?.mp hs
    rcases getElem?_set_cases hk' with ⟨-, rfl⟩ | ⟨hne, hold⟩
    · simp [Socket.live] at hslive
    · have href' := (hinv.live k' s hold hslive).1
      rw [href] at href'
      exact hne (Option.some.inj href')
  rw [Hook.onclose_of_running hguard, Hook.deedsAfter_of_active hactive]
  constructor
  · exact hinv.deeds
  · refine fun _ => ⟨?_, hguard, hmounted⟩
    rw [Hook.owned, List.countP_eq_zero.mpr hnone, htimers]
    rfl
  · intro hidle
    dsimp only at hidle
    rw [hactive] at hidle
    cases hidle
  · intro k' s hk' hslive
    exact absurd hslive (hnone s (List.mem_of_getElem? hk'))
  · intro timer htimer
    rw [htimers] at htimer
    rw [List.mem_singleton.mp htimer]
    exact ⟨rfl, hactive⟩
  · intro s hs hclosing
    rcases List.mem_or_eq_of_mem_set hs with hold | rfl
    · exact hinv.closing s hold hclosing
    · cases hclosing
  · intro s hs
    rcases List.mem_or_eq_of_mem_set hs with hold | rfl
    · exact hinv.openers s hold
    · exact hinv.openers socket (List.mem_of_getElem? hk)
  · exact hinv.number

/-- The close event of a socket of an instance that has been cleaned up: it does nothing if there is
nobody to see the status, or nothing to see. -/
theorem StreamInv.onclose_idle (hinv : StreamInv h) (hk : h.sockets[k]? = some socket)
    (hidle : h.active = none) (hseen : h.mounted = false ∨ h.status = .closed) :
    StreamInv (h.onclose k socket) := by
  have hguard : h.isUnmountedRef = true := by
    refine (hinv.idle hidle).resolve_right fun hnone => ?_
    rw [hnone] at hk
    cases hk
  have hdead : ¬ socket.live := (hinv.not_live_of_idle hidle).1 socket (List.mem_of_getElem? hk)
  have hsame : h.onclose k socket =
      { h with sockets := h.sockets.set k { socket with readyState := .closed } } := by
    rw [Hook.onclose_of_unmounted hguard]
    rcases hseen with hgone | hclosed
    · have hdeeds : h.deedsAfter socket.opener .closed = h.deeds := if_neg (by simp [hgone])
      have hstatus : (if h.mounted then .closed else h.status) = h.status := if_neg (by simp [hgone])
      rw [hdeeds, hstatus]
    · have hdeeds : h.deedsAfter socket.opener .closed = h.deeds := if_neg (by simp [hclosed])
      rw [hdeeds, ← hclosed, ite_self]
  rw [hsame]
  refine hinv.setSocket hk ?_ rfl nofun
  rw [Bool.eq_false_iff.mpr hdead]
  rfl

/-- Otherwise the hook does not own one connection any more, or the status has changed. -/
theorem StreamInv.not_ownsOne_onclose (hinv : StreamInv h) (hk : h.sockets[k]? = some socket)
    (hother : h.active ≠ some socket.opener) (hmounted : h.mounted = true)
    (hseen : h.active = none → h.status ≠ .closed) : ¬ OwnsOne (h.onclose k socket) := by
  intro hone
  cases hactive : h.active with
  | none =>
      -- it reports a status after its cleanup
      have hguard : h.isUnmountedRef = true := by
        refine (hinv.idle hactive).resolve_right fun hnone => ?_
        rw [hnone] at hk
        cases hk
      have hdeeds := hone.deeds
      rw [Hook.onclose_of_unmounted hguard] at hdeeds
      dsimp only at hdeeds
      rw [Hook.deedsAfter, if_pos ⟨⟨hmounted, hseen hactive⟩, hother⟩] at hdeeds
      simp at hdeeds
  | some inst =>
      -- it sets a timer besides the connection of the instance that runs
      obtain ⟨howned, hguard, -⟩ := hinv.running (by rw [hactive]; rfl)
      -- the socket was not live, so nothing is lost
      have hdead : socket.live = false :=
        Bool.eq_false_iff.mpr fun hlive => hother (hinv.live k socket hk hlive).2
      have hcount : (h.sockets.set k { socket with readyState := .closed }).countP Socket.live =
          h.sockets.countP Socket.live := countP_set_of_eq hk (by rw [hdead]; rfl)
      have htwo : (h.onclose k socket).owned = h.owned + 1 := by
        rw [Hook.onclose_of_running hguard, Hook.owned, hcount, List.length_append,
          List.length_singleton, ← Nat.add_assoc, Hook.owned]
      have hone := hone.owned
      omega

/-! ## 6. Runs -/

/-- Every event but a close event of a cleaned-up instance keeps the invariant. -/
theorem StreamInv.step (hinv : StreamInv h) (hstep : streamStep origin h e = some h')
    (hcloses : ClosesInTime h e) : StreamInv h' := by
  cases e with
  | run portfolioId accessToken =>
      obtain ⟨⟨hmounted, hidle⟩, heq⟩ := Option.ite_none_right_eq_some.mp hstep
      obtain rfl := Option.some.inj heq
      exact hinv.runEffect hmounted hidle portfolioId accessToken
  | cleanup =>
      obtain ⟨-, heq⟩ := Option.ite_none_right_eq_some.mp hstep
      obtain rfl := Option.some.inj heq
      exact hinv.cleanup
  | unmount =>
      obtain ⟨-, heq⟩ := Option.ite_none_right_eq_some.mp hstep
      obtain rfl := Option.some.inj heq
      exact hinv.unmount
  | «open» k =>
      simp only [streamStep] at hstep
      split at hstep
      · rename_i socket hk
        obtain ⟨hstate, heq⟩ := Option.ite_none_right_eq_some.mp hstep
        obtain rfl := Option.some.inj heq
        exact hinv.setSocket hk (by simp [Socket.live, hstate]) rfl nofun
      · cases hstep
  | message k message =>
      simp only [streamStep] at hstep
      split at hstep
      · rename_i socket hk
        obtain ⟨hstate, heq⟩ := Option.ite_none_right_eq_some.mp hstep
        obtain rfl := Option.some.inj heq
        exact hinv.onmessage hk hstate message
      · cases hstep
  | close k =>
      simp only [streamStep] at hstep
      split at hstep
      · rename_i socket hk
        split at hstep
        · cases hstep
        · rename_i hopen
          obtain rfl := Option.some.inj hstep
          -- the three ways in which a close event is in time
          rcases hcloses socket hk with hactive | hgone | ⟨hidle, hclosed⟩
          · exact hinv.onclose_active hk hopen hactive
          · have hidle : h.active = none := by
              cases hactive : h.active with
              | none => rfl
              | some inst =>
                  have hmounted := (hinv.running (by rw [hactive]; rfl)).2.2
                  rw [hgone] at hmounted
                  cases hmounted
            exact hinv.onclose_idle hk hidle (.inl hgone)
          · exact hinv.onclose_idle hk hidle (.inr hclosed)
      · cases hstep
  | timeout id =>
      simp only [streamStep] at hstep
      split at hstep
      · rename_i timer htimer
        obtain rfl := Option.some.inj hstep
        have hid : timer.id = id := by simpa using List.find?_some htimer
        rw [← hid]
        exact hinv.timeout (List.mem_of_find?_eq_some htimer)
      · cases hstep

theorem StreamInv.ownsOne_iff (hinv : StreamInv h) (hstep : streamStep origin h e = some h') :
    OwnsOne h' ↔ ClosesInTime h e := by
  refine ⟨fun hone => ?_, fun hcloses => (hinv.step hstep hcloses).ownsOne⟩
  unfold ClosesInTime
  split
  · rename_i k
    intro socket hk
    by_contra hnot
    obtain ⟨hother, hmounted, hseen⟩ : h.active ≠ some socket.opener ∧ h.mounted = true ∧
        (h.active = none → h.status ≠ .closed) := by
      simpa [not_or] using hnot
    simp only [streamStep, hk] at hstep
    split at hstep
    · cases hstep
    · obtain rfl := Option.some.inj hstep
      exact hinv.not_ownsOne_onclose hk hother hmounted hseen hone
  · trivial

theorem streamInv_of_ownsOne {cache : Option View} {events : List StreamEvent}
    (hrun : Run (streamStep origin) (.initial cache) events h)
    (hone : EveryState (streamStep origin) (.initial cache) events fun _ h => OwnsOne h) :
    StreamInv h := by
  revert hone
  refine hrun.induction (motive := fun events h =>
    EveryState (streamStep origin) (.initial cache) events (fun _ h => OwnsOne h) → StreamInv h)
    (fun _ => .initial cache) ?_
  intro events t e u ht ih hstep hone
  -- a state that owns one connection was reached by a step in time, which keeps the invariant
  obtain ⟨hbefore, hu⟩ := (everyState_concat_iff (run_concat_iff.mpr ⟨t, ht, hstep⟩)).mp hone
  exact (ih hbefore).step hstep (((ih hbefore).ownsOne_iff hstep).mp hu)

/-- **The hook owns one connection at most, and what is cleaned up stays quiet,** exactly if no close
event of a socket comes too late. -/
theorem ownsOne_iff_closesInTime (origin : String) (cache : Option View) {events : List StreamEvent}
    (hrun : Run (streamStep origin) (.initial cache) events h) :
    EveryState (streamStep origin) (.initial cache) events (fun _ h => OwnsOne h) ↔
      EveryStep (streamStep origin) (.initial cache) events ClosesInTime :=
  everyState_iff_everyStep (StreamInv.initial cache).ownsOne
    (fun _ _ _ _ ht hone hstep => (streamInv_of_ownsOne ht hone).ownsOne_iff hstep) hrun

end

/-- The server drops the first connection, and the component is unmounted with the second open. -/
def reconnected : List StreamEvent :=
  [.run (some "7") (some "token"), .open 0, .message 0 none, .close 0, .timeout 0, .open 1, .unmount,
    .close 1]

theorem ownsOne_iff_closesInTime_reconnected :
    ∃ h, Run (streamStep "wss://localhost") (.initial none) reconnected h ∧
      (EveryState (streamStep "wss://localhost") (.initial none) reconnected (fun _ h => OwnsOne h) ↔
        EveryStep (streamStep "wss://localhost") (.initial none) reconnected ClosesInTime) ∧
      h.sockets.map Socket.sent = [some "token", some "token"] := by
  have hvalues : (exec (streamStep "wss://localhost") (.initial none) reconnected).map
      (fun h => h.sockets.map Socket.sent) = some [some "token", some "token"] := by
    decide +kernel
  obtain ⟨h, hrun, hh⟩ := Option.map_eq_some_iff.mp hvalues
  exact ⟨h, hrun, ownsOne_iff_closesInTime "wss://localhost" none hrun, hh⟩

/-- The access token is refreshed while the socket is open, the effect runs again, and the close event
of the first socket comes then. -/
def refreshedToken : List StreamEvent :=
  [.run (some "7") (some "old"), .open 0, .message 0 none, .cleanup, .run (some "7") (some "new"),
    .open 1, .close 0, .timeout 0]

/-- The first instance opens another socket with the old token beside that of the second. -/
theorem not_ownsOne_refreshedToken :
    ¬ EveryState (streamStep "wss://localhost") (.initial none) refreshedToken
      (fun _ h => OwnsOne h) := by
  intro h
  have hvalues : (exec (streamStep "wss://localhost") (.initial none) refreshedToken).map
      (fun h => (h.owned, h.deeds)) = some (2, [.changedStatus ⟨0, "7", "old"⟩,
        .changedStatus ⟨0, "7", "old"⟩, .opened ⟨0, "7", "old"⟩]) := by
    decide +kernel
  obtain ⟨t, hrun, ht⟩ := Option.map_eq_some_iff.mp hvalues
  have howned := (h _ t (List.prefix_refl _) hrun).owned
  rw [(Prod.mk.inj ht).1] at howned
  omega

end DjasktTrading.Client
