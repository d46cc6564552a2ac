import DjasktTrading.Realtime.Closing

/-!
# Handshake — how long a client can stay unknown

Every connection starts a task that sleeps for `AUTH_MESSAGE_TIMEOUT_SECONDS`.  The event loop wakes a
task that is due within some bounded lateness; meanwhile handlers run, raise, and wait for checks.
-/

open Reasoning

namespace DjasktTrading.Realtime

/-! ## 1. Connections in time -/

/-- `AUTH_MESSAGE_TIMEOUT_SECONDS`, in microseconds -/
def authMessageTimeout : ℕ := 5 * 1000000

/-- The connections, the time, and when each was connected. -/
structure Timed where
  world : World
  now : ℕ
  connectedAt : List ℕ

inductive TimedEvent where
  | wait (duration : ℕ)
  | event (e : Event)

namespace Timed

def initial (now : ℕ) (db : Ledger) : Timed where
  world := .initial db
  now := now
  connectedAt := []

/-- No timeout task has slept past `now` by more than `late`. -/
def Punctual (w : Timed) (late now : ℕ) : Prop :=
  ∀ x ∈ w.world.connections.zip w.connectedAt,
    x.1.timer = true → now ≤ x.2 + authMessageTimeout + late

instance (w : Timed) (late now : ℕ) : Decidable (w.Punctual late now) :=
  inferInstanceAs (Decidable (∀ x ∈ w.world.connections.zip w.connectedAt, _))

/-- A timeout task does not wake before it is due. -/
def Awake (w : Timed) : Event → Bool
  | .socket i .authTimeout => w.connectedAt[i]?.all (· + authMessageTimeout ≤ w.now)
  | _ => true

/-- What an event adds to the times. -/
def stamp (w : Timed) : Event → List ℕ
  | .connect _ => [w.now]
  | _ => []

end Timed

def timedStep (late : ℕ) (wire : Wire) (py : Python) (w : Timed) : TimedEvent → Option Timed
  | .wait duration =>
      if w.Punctual late (w.now + duration) then some { w with now := w.now + duration } else none
  | .event e =>
      if w.Awake e then
        (step wire py w.world e).map fun world =>
          { w with world, connectedAt := w.connectedAt ++ w.stamp e }
      else none

theorem timedStep_event {late : ℕ} {wire : Wire} {py : Python} {w w' : Timed} {e : Event}
    (h : timedStep late wire py w (.event e) = some w') :
    ∃ world, step wire py w.world e = some world ∧
      w' = { w with world, connectedAt := w.connectedAt ++ w.stamp e } := by
  simp only [timedStep] at h
  split at h
  · obtain ⟨world, hworld, rfl⟩ := Option.map_eq_some_iff.mp h
    exact ⟨world, hworld, rfl⟩
  · cases h

/-! ## 2. The task of one connection -/

/-- The client is known, or the consumer has done with the connection. -/
def Connection.Decided (conn : Connection) : Prop :=
  conn.authenticated = true ∨ conn.Closed ∨ conn.handler = .stopped

section

variable {wire : Wire} {ledger : Ledger.World} {conn conn' : Connection} {e : SocketEvent}

theorem Connection.Decided.of_authTimeout (h : conn.step wire ledger .authTimeout = some conn') :
    conn'.Decided ∧ conn'.timer = false := by
  simp only [Connection.step] at h
  split at h
  · split at h
    · rename_i hknown
      cases h
      exact ⟨.inl hknown, rfl⟩
    · cases h
      exact ⟨.inr (.inl ⟨4401, List.mem_append_right _ (List.mem_singleton_self _)⟩), rfl⟩
  · cases h

/-- A client stays known, and an end is an end. -/
theorem Connection.Decided.step (hdecided : conn.Decided) (h : conn.step wire ledger e = some conn') :
    conn'.Decided := by
  rcases hdecided with hknown | hclosed | hstopped
  · left
    cases Connection.step_moves h with
    | owned checking owner => rfl
    | _ => exact hknown
  · right
    left
    obtain ⟨code, hcode⟩ := hclosed
    exact ⟨code, (Connection.journal_of_step h).subset hcode⟩
  · cases Connection.step_moves h with
    | refused checking => exact .inr (.inl ⟨_, List.mem_append_right _ (List.mem_singleton_self _)⟩)
    | owned checking owner => exact .inl rfl
    | stops => exact .inr (.inr rfl)
    | disconnect idle => exact .inr (.inr rfl)
    | receive frame => exact .inr (.inr hstopped)
    | timedOut unknown => exact .inr (.inr hstopped)
    | timerOver => exact .inr (.inr hstopped)
    | ignored idle next known => rw [hstopped] at idle; cases idle
    | binary idle next unknown => rw [hstopped] at idle; cases idle
    | text idle next unknown => rw [hstopped] at idle; cases idle
    | accepted checking valid => rw [hstopped] at checking; cases checking
    | groupAdded joining => rw [hstopped] at joining; cases joining
    | tradesFetched querying parsed => rw [hstopped] at querying; cases querying
    | historySent sending => rw [hstopped] at sending; cases sending
    | dispatchUpdate idle next => rw [hstopped] at idle; cases idle

/-- The timeout task is asleep, or there is nothing left for it to do. -/
def Connection.Watched (conn : Connection) : Prop := conn.timer = true ∨ conn.Decided

theorem Connection.Watched.step (hwatched : conn.Watched) (h : conn.step wire ledger e = some conn') :
    conn'.Watched := by
  rcases hwatched with htimer | hdecided
  · by_cases htimeout : e = .authTimeout
    · subst htimeout
      exact .inr (Connection.Decided.of_authTimeout h).1
    · cases Connection.step_moves h with
      | owned checking owner => exact .inr (.inl rfl)
      | disconnect idle => exact .inr (.inr (.inr rfl))
      | timedOut unknown => exact absurd rfl htimeout
      | timerOver => exact absurd rfl htimeout
      | _ => exact .inl htimer
  · exact .inr (hdecided.step h)

end

theorem Connection.timer_of_step {wire : Wire} {ledger : Ledger.World} {conn conn' : Connection}
    {e : SocketEvent} (h : conn.step wire ledger e = some conn') (htimer : conn'.timer = true) :
    conn.timer = true := by
  cases Connection.step_moves h with
  | owned checking owner => cases htimer
  | disconnect idle => cases htimer
  | timedOut unknown => cases htimer
  | timerOver => cases htimer
  | _ => exact htimer

theorem Connection.timer_deliver (conn : Connection) (messages : List (ℕ × Ledger.Broadcast)) :
    (conn.deliver messages).timer = conn.timer := by
  unfold Connection.deliver
  split
  · rfl
  · rfl

theorem Connection.Watched.deliver {conn : Connection} (h : conn.Watched)
    (messages : List (ℕ × Ledger.Broadcast)) : (conn.deliver messages).Watched := by
  unfold Connection.deliver
  split
  · exact h
  · exact h

/-! ## 3. Runs -/

section

variable {late : ℕ} {wire : Wire} {py : Python} {start : Ledger} {w w' : Timed}
  {es : List TimedEvent}

/-- Without the clock, a run of connections. -/
theorem run_world (hrun : Run (timedStep late wire py) w es w') :
    ∃ fs, Run (step wire py) w.world fs w'.world := by
  refine hrun.project Timed.world fun {u e v} hstep => ?_
  cases e with
  | wait duration =>
      simp only [timedStep] at hstep
      split at hstep
      · cases hstep
        exact .inl rfl
      · cases hstep
  | event e =>
      obtain ⟨world, hworld, rfl⟩ := timedStep_event hstep
      exact .inr ⟨e, hworld⟩

theorem watched_of_run {es : List Event} {w : World}
    (hrun : Run (step wire py) (.initial start) es w) : ∀ conn ∈ w.connections, conn.Watched :=
  connection_invariant (P := fun _ conn => conn.Watched) (fun _ _ => .inl rfl)
    (fun _ h hstep => h.step hstep) (fun _ h _ => h.deliver _) hrun

/-- Every connection has its time, and no timeout task sleeps on. -/
structure TimedInv (late : ℕ) (w : Timed) : Prop where
  stamped : w.connectedAt.length = w.world.connections.length
  punctual : w.Punctual late w.now

theorem punctual_iff {now : ℕ} : w.Punctual late now ↔
    ∀ (i : ℕ) (conn : Connection) (t : ℕ), w.world.connections[i]? = some conn →
      w.connectedAt[i]? = some t → conn.timer = true → now ≤ t + authMessageTimeout + late := by
  unfold Timed.Punctual
  constructor
  · intro h i conn t hconn ht
    have hmem : (w.world.connections.zip w.connectedAt)[i]? = some (conn, t) :=
      List.getElem?_zip_eq_some.mpr ⟨hconn, ht⟩
    exact h (conn, t) (List.mem_of_getElem? hmem)
  · rintro h ⟨conn, t⟩ hmem
    obtain ⟨i, hi⟩ := List.mem_iff_getElem?.mp hmem
    obtain ⟨hconn, ht⟩ := List.getElem?_zip_eq_some.mp hi
    exact h i conn t hconn ht

theorem length_of_step {v v' : World} {e : Event} (hstep : step wire py v e = some v') :
    v'.connections.length = v.connections.length + (w.stamp e).length := by
  cases e with
  | ledger f =>
      obtain ⟨ledger, -, rfl⟩ := Option.map_eq_some_iff.mp hstep
      simp [Timed.stamp]
  | connect path =>
      cases hstep
      simp [Timed.stamp]
  | socket i f =>
      simp only [step] at hstep
      split at hstep
      · cases hstep
      · obtain ⟨new, -, rfl⟩ := Option.map_eq_some_iff.mp hstep
        simp [Timed.stamp]

theorem TimedInv.event (h : TimedInv late w) {e : Event} {world : World}
    (hstep : step wire py w.world e = some world) :
    TimedInv late { w with world, connectedAt := w.connectedAt ++ w.stamp e } where
  stamped := by
    rw [List.length_append, h.stamped, length_of_step hstep]
  punctual := by
    rw [punctual_iff]
    intro i conn' t hconn' ht htimer
    dsimp only at hconn' ht ⊢
    cases hconn : w.world.connections[i]? with
    | none =>
        -- it has just been connected
        have hlen : w.connectedAt.length ≤ i := h.stamped ▸ List.getElem?_eq_none_iff.mp hconn
        rw [List.getElem?_append_right hlen] at ht
        have hnow : t = w.now := by
          cases e with
          | connect path => exact List.mem_singleton.mp (List.mem_of_getElem? ht)
          | ledger f => cases ht
          | socket j f => cases ht
        omega
    | some conn =>
        have hlen : i < w.connectedAt.length :=
          h.stamped ▸ (List.getElem?_eq_some_iff.mp hconn).1
        rw [List.getElem?_append_left hlen] at ht
        obtain ⟨new, hnew, hcases⟩ := connection_of_step hstep hconn
        obtain rfl := Option.some.inj (hconn'.symm.trans hnew)
        refine punctual_iff.mp h.punctual i conn t hconn ht ?_
        rcases hcases with rfl | ⟨messages, rfl⟩ | ⟨f, -, hsocket⟩
        · exact htimer
        · rwa [Connection.timer_deliver] at htimer
        · exact Connection.timer_of_step hsocket htimer

theorem TimedInv.of_run {now : ℕ}
    (hrun : Run (timedStep late wire py) (.initial now start) es w) : TimedInv late w := by
  have hinitial : TimedInv late (.initial now start) :=
    ⟨rfl, fun _ hmem => absurd hmem List.not_mem_nil⟩
  refine hrun.invariant hinitial fun u e v hu hstep => ?_
  cases e with
  | wait duration =>
      simp only [timedStep] at hstep
      split at hstep
      · rename_i hpunctual
        cases hstep
        exact ⟨hu.stamped, hpunctual⟩
      · cases hstep
  | event e =>
      obtain ⟨world, hworld, rfl⟩ := timedStep_event hstep
      exact hu.event hworld

/-- **Nobody stays unknown.**  Whatever the clients send, and however the checks, the ledger and the
timeouts of all the connections interleave: a connection that is older than the timeout, by more than
the event loop can be late, has an authenticated client or has been closed or stopped. -/
theorem decided_of_timeout {now : ℕ} (hrun : Run (timedStep late wire py) (.initial now start) es w)
    {i : ℕ} {conn : Connection} {t : ℕ} (hconn : w.world.connections[i]? = some conn)
    (ht : w.connectedAt[i]? = some t) (hold : t + authMessageTimeout + late < w.now) :
    conn.Decided := by
  obtain ⟨fs, hworld⟩ := run_world hrun
  rcases watched_of_run hworld conn (List.mem_of_getElem? hconn) with htimer | hdecided
  · have hpunctual := punctual_iff.mp (TimedInv.of_run hrun).punctual i conn t hconn ht htimer
    omega
  · exact hdecided

end

/-- A client connects and says nothing. -/
def silentClient : List TimedEvent :=
  [.event (.connect firstPath), .wait authMessageTimeout, .event (.socket 0 .authTimeout), .wait 1]

theorem decided_of_timeout_silentClient : ∃ w conn,
    Run (timedStep 0 authWire .default) (.initial 0 Ledger.firstPortfolio) silentClient w ∧
      w.world.connections[0]? = some conn ∧ conn.Decided := by
  have hvalues : (exec (timedStep 0 authWire .default) (.initial 0 Ledger.firstPortfolio)
      silentClient).map (fun w => (w.world.connections.length, w.connectedAt, w.now)) =
        some (1, [0], authMessageTimeout + 1) := by decide +kernel
  obtain ⟨w, hrun, hw⟩ := Option.map_eq_some_iff.mp hvalues
  obtain ⟨hlen, htimes⟩ := Prod.mk.inj hw
  obtain ⟨hstamps, hnow⟩ := Prod.mk.inj htimes
  obtain ⟨conn, hconn⟩ := List.length_eq_one_iff.mp hlen
  have hfirst : w.world.connections[0]? = some conn := by rw [hconn]; rfl
  have hstamp : w.connectedAt[0]? = some 0 := by
    rw [hstamps]
    rfl
  have hold : 0 + authMessageTimeout + 0 < w.now := by omega
  exact ⟨w, conn, hrun, hfirst, decided_of_timeout hrun hfirst hstamp hold⟩

end DjasktTrading.Realtime
