import DjasktTrading.Extensions.Emission
import DjasktTrading.Reasoning.Mailbox
import DjasktTrading.Reasoning.Runs
import DjasktTrading.Reasoning.Slots

/-!
# Queue logging — what becomes of a record that is logged

`configure_logging` puts a queue handler on the root logger and starts a thread that writes what comes
through the queue.  Called again, it stops that thread, takes the handler away and sets up new ones.
Other threads log all the while: a call looks at the handlers of the root logger one after the other,
and between any two steps of it the configuration may go on.
-/

open Reasoning

namespace DjasktTrading.Extensions.QueueLogging

variable {ω : Type}

/-! ## 1. Handlers, listeners and calls -/

/-- What is enqueued, with the call it comes from and what was logged there, which no step reads. -/
structure Item (ω : Type) where
  call : ℕ
  metadata : Option (RequestLogMetadata ω)
  logged : LogRecord ω
  record : LogRecord ω

/-- A queue, with the listener that is made for it and the formatter of its console handler. -/
structure Listener (ω : Type) where
  formatter : ECSDeepJsonFormatter
  mailbox : Mailbox (Item ω)

/-- Where a thread is in `Logger.callHandlers`. -/
inductive Phase
  | looking (i : ℕ)
  | emitting (i k : ℕ)
  | done

structure Call (ω : Type) where
  metadata : Option (RequestLogMetadata ω)
  record : LogRecord ω
  phase : Phase

/-- Where the thread that configures is in `configure_logging`. -/
inductive Stage
  | stopping
  | joining (k : ℕ)
  | clearing
  | adding
  | starting (k : ℕ)

/-- A record in the hands of a listener. -/
structure Entry (ω : Type) where
  formatter : ECSDeepJsonFormatter
  item : Item ω

/-- A record that has been enqueued; it is late if the listener had been told to stop. -/
structure Enqueued (ω : Type) where
  entry : Entry ω
  late : Bool

/-- `handlers` are those of the root logger, each given by its listener; `listener` is `_listener`. -/
structure World (ω : Type) where
  listeners : List (Listener ω)
  handlers : List ℕ
  listener : Option ℕ
  configuring : Option (ECSDeepJsonFormatter × Stage)
  calls : List (Call ω)
  enqueued : List (Enqueued ω)
  handled : List (Entry ω)
  lines : List (Fields ω)

def World.initial : World ω := ⟨[], [], none, none, [], [], [], []⟩

inductive Event (ω : Type)
  | configure (formatter : ECSDeepJsonFormatter)
  | proceed
  | log (metadata : Option (RequestLogMetadata ω)) (record : LogRecord ω)
  | advance (i : ℕ)
  | listen (k : ℕ)

section

variable (py : Python ω) (addFields : LogRecord ω → Fields ω)

/-- The listener's thread: the console handler formats the record and writes the line. -/
def render (formatter : ECSDeepJsonFormatter) (record : LogRecord ω) : Except Exn (Fields ω) := do
  let message ← getMessage py record
  let json ← formatter.processLogRecord py (addFields { record with message })
  if (Value.dict json).encodes py then return json else throw .notEncodable

/-- The line of a record that a listener has in hand. -/
def Entry.line? (entry : Entry ω) : Option (Fields ω) :=
  (emit entry.formatter py addFields entry.item.metadata entry.item.logged).toOption

/-- What is done to the queue of a listener. -/
def World.mail (w : World ω) (k : ℕ) (f : Mailbox (Item ω) → Mailbox (Item ω)) :
    Option (World ω) :=
  w.listeners[k]?.map fun l =>
    { w with listeners := w.listeners.set k { l with mailbox := f l.mailbox } }

/-- The next statement of `configure_logging`. -/
def World.configureLogging (w : World ω) (formatter : ECSDeepJsonFormatter) :
    Stage → Option (World ω)
  | .stopping =>
      match w.listener with
      | none => some { w with configuring := some (formatter, .clearing) }
      | some k =>
          (w.mail k Mailbox.close).map ({ · with configuring := some (formatter, .joining k) })
  | .joining k =>
      if w.listeners[k]?.all (·.mailbox.reader = .gone) then
        some { w with listener := none, configuring := some (formatter, .clearing) }
      else none
  | .clearing => some { w with handlers := [], configuring := some (formatter, .adding) }
  | .adding =>
      some { w with
        listeners := w.listeners ++ [⟨formatter, .empty⟩]
        handlers := w.handlers ++ [w.listeners.length]
        configuring := some (formatter, .starting w.listeners.length) }
  | .starting k =>
      (w.mail k Mailbox.start).map ({ · with listener := some k, configuring := none })

def World.phase (w : World ω) (i : ℕ) (call : Call ω) (phase : Phase) : World ω :=
  { w with calls := w.calls.set i { call with phase } }

/-- The next step of a call; where the record cannot be prepared, `handleError` is all that is done. -/
def World.callHandlers (w : World ω) (i : ℕ) (call : Call ω) : Option (World ω) :=
  match call.phase with
  | .looking n =>
      match w.handlers[n]? with
      | some k => some (w.phase i call (.emitting n k))
      | none => some (w.phase i call .done)
  | .emitting n k =>
      match QueueHandler.prepare py (ECSContextFilter.filter call.metadata call.record) with
      | .error _ => some (w.phase i call (.looking (n + 1)))
      | .ok record =>
          w.listeners[k]?.map fun l =>
            let item : Item ω := ⟨i, call.metadata, call.record, record⟩
            { w.phase i call (.looking (n + 1)) with
              listeners := w.listeners.set k { l with mailbox := l.mailbox.put item }
              enqueued := w.enqueued ++ [⟨⟨l.formatter, item⟩, l.mailbox.closed⟩] }
  | .done => none

/-- The thread of a listener takes what comes next out of its queue. -/
def World.monitor (w : World ω) (k : ℕ) (l : Listener ω) : Option (World ω) :=
  l.mailbox.take.map fun (item?, mailbox) =>
    { w with
      listeners := w.listeners.set k { l with mailbox }
      handled := w.handled ++ item?.toList.map (⟨l.formatter, ·⟩)
      lines := w.lines ++
        item?.toList.filterMap fun item => (render py addFields l.formatter item.record).toOption }

def step (w : World ω) : Event ω → Option (World ω)
  | .configure formatter =>
      if w.configuring.isNone then some { w with configuring := some (formatter, .stopping) }
      else none
  | .proceed => w.configuring.bind fun (formatter, stage) => w.configureLogging formatter stage
  | .log metadata record => some { w with calls := w.calls ++ [⟨metadata, record, .looking 0⟩] }
  | .advance i => w.calls[i]?.bind fun call => w.callHandlers py i call
  | .listen k => w.listeners[k]?.bind fun l => w.monitor py addFields k l

end

/-- Formatting what has been prepared is what is left of emitting. -/
theorem emit_of_prepare {formatter : ECSDeepJsonFormatter} {py : Python ω}
    {addFields : LogRecord ω → Fields ω} {metadata : Option (RequestLogMetadata ω)}
    {record prepared : LogRecord ω}
    (h : QueueHandler.prepare py (ECSContextFilter.filter metadata record) = .ok prepared) :
    emit formatter py addFields metadata record = render py addFields formatter prepared := by
  unfold emit flatten render
  rw [h]
  cases hmessage : getMessage py prepared with
  | error e => simp only [bind, Except.bind, hmessage]
  | ok message => simp only [bind, Except.bind, hmessage, pure, Except.pure]

/-! ## 2. How far the configuration is -/

/-- The listeners but for the last have gone; the last is as far as `configure_logging` is. -/
inductive Setup : List Mailbox.Status → List ℕ → Option ℕ → Option Stage → Prop
  | fresh {stage : Option Stage} (hstage : stage = none ∨ stage = some .stopping) :
      Setup [] [] none stage
  | serving {n : ℕ} {stage : Option Stage} (hstage : stage = none ∨ stage = some .stopping) :
      Setup (.replicate n .gone ++ [.serving]) [n] (some n) stage
  | joining {n : ℕ} {status : Mailbox.Status} (hstatus : status = .closing ∨ status = .gone) :
      Setup (.replicate n .gone ++ [status]) [n] (some n) (some (.joining n))
  | clearing {n : ℕ} {handlers : List ℕ}
      (hhandlers : handlers = [] ∨ ∃ k, handlers = [k] ∧ k + 1 = n) :
      Setup (.replicate n .gone) handlers none (some .clearing)
  | adding {n : ℕ} : Setup (.replicate n .gone) [] none (some .adding)
  | starting {n : ℕ} :
      Setup (.replicate n .gone ++ [.idle]) [n] none (some (.starting n))

def World.statuses (w : World ω) : List Mailbox.Status := w.listeners.map (·.mailbox.status)

def World.Setup (w : World ω) : Prop :=
  QueueLogging.Setup w.statuses w.handlers w.listener (w.configuring.map Prod.snd)

section

variable {statuses : List Mailbox.Status} {handlers : List ℕ} {listener : Option ℕ}
  {stage : Option Stage}

theorem set_last (n : ℕ) (old new : Mailbox.Status) :
    (List.replicate n Mailbox.Status.gone ++ [old]).set n new = .replicate n .gone ++ [new] := by
  rw [List.set_append_right _ _ (by simp)]
  simp

/-- Only the last listener may be there. -/
theorem Setup.others (h : Setup statuses handlers listener stage) {j : ℕ} {status : Mailbox.Status}
    (hj : statuses[j]? = some status) : status = .gone ∨ j + 1 = statuses.length := by
  have hgone {n : ℕ} (hn : (List.replicate n Mailbox.Status.gone)[j]? = some status) :
      status = .gone := List.eq_of_mem_replicate (List.mem_of_getElem? hn)
  have hlast {n : ℕ} {last : Mailbox.Status}
      (hn : (List.replicate n Mailbox.Status.gone ++ [last])[j]? = some status) :
      status = .gone ∨ j + 1 = (List.replicate n Mailbox.Status.gone ++ [last]).length := by
    rcases getElem?_append_singleton_cases hn with hold | ⟨hj, -⟩
    · exact .inl (hgone hold)
    · exact .inr (by rw [hj, List.length_append, List.length_singleton])
  cases h with
  | fresh hstage => cases hj
  | serving hstage => exact hlast hj
  | joining hstatus => exact hlast hj
  | clearing hhandlers => exact .inl (hgone hj)
  | adding => exact .inl (hgone hj)
  | starting => exact hlast hj

theorem Setup.handlers_eq (h : Setup statuses handlers listener stage) :
    handlers = [] ∨ ∃ k, handlers = [k] ∧ k + 1 = statuses.length := by
  cases h with
  | fresh hstage => exact .inl rfl
  | serving hstage => exact .inr ⟨_, rfl, by simp⟩
  | joining hstatus => exact .inr ⟨_, rfl, by simp⟩
  | clearing hhandlers =>
      rcases hhandlers with hnil | ⟨k, hk, hlen⟩
      · exact .inl hnil
      · exact .inr ⟨k, hk, by simp [hlen]⟩
  | adding => exact .inl rfl
  | starting => exact .inr ⟨_, rfl, by simp⟩

theorem Setup.configure (h : Setup statuses handlers listener none) :
    Setup statuses handlers listener (some .stopping) := by
  cases h with
  | fresh hstage => exact .fresh (.inr rfl)
  | serving hstage => exact .serving (.inr rfl)

/-- What each statement of `configure_logging` makes of it. -/
theorem Setup.nothingToStop (h : Setup statuses handlers listener (some .stopping))
    (hlistener : listener = none) : Setup statuses handlers listener (some .clearing) := by
  cases h with
  | fresh hstage => exact .clearing (n := 0) (.inl rfl)
  | serving hstage => cases hlistener

theorem Setup.stop (h : Setup statuses handlers listener (some .stopping)) {k : ℕ}
    (hlistener : listener = some k) : statuses[k]? = some .serving ∧
      Setup (statuses.set k .closing) handlers listener (some (.joining k)) := by
  cases h with
  | fresh hstage => cases hlistener
  | serving hstage =>
      obtain rfl := Option.some.inj hlistener
      rw [set_last]
      exact ⟨by simp, .joining (.inl rfl)⟩

theorem Setup.join {k : ℕ} (h : Setup statuses handlers listener (some (.joining k)))
    (hgone : ∀ status, statuses[k]? = some status → status = .gone) :
    Setup statuses handlers none (some .clearing) := by
  cases h with
  | fresh hstage => simp at hstage
  | serving hstage => simp at hstage
  | @joining _ status hstatus =>
      obtain rfl : status = .gone := hgone status (by simp)
      rw [← List.replicate_succ']
      exact .clearing (.inr ⟨k, rfl, rfl⟩)

theorem Setup.clear (h : Setup statuses handlers listener (some .clearing)) :
    Setup statuses [] listener (some .adding) := by
  cases h with
  | fresh hstage => simp at hstage
  | serving hstage => simp at hstage
  | clearing hhandlers => exact .adding

theorem Setup.add (h : Setup statuses handlers listener (some .adding)) :
    Setup (statuses ++ [.idle]) (handlers ++ [statuses.length]) listener
      (some (.starting statuses.length)) := by
  cases h with
  | fresh hstage => simp at hstage
  | serving hstage => simp at hstage
  | adding =>
      rw [List.length_replicate]
      exact .starting

theorem Setup.start {k : ℕ} (h : Setup statuses handlers listener (some (.starting k))) :
    statuses[k]? = some .idle ∧ Setup (statuses.set k .serving) handlers (some k) none := by
  cases h with
  | fresh hstage => simp at hstage
  | serving hstage => simp at hstage
  | starting =>
      rw [set_last]
      exact ⟨by simp, .serving (.inl rfl)⟩

theorem Setup.joined {k : ℕ} (h : Setup statuses handlers listener (some (.joining k))) :
    statuses[k]? = some .closing ∨ statuses[k]? = some .gone := by
  cases h with
  | fresh hstage => simp at hstage
  | serving hstage => simp at hstage
  | joining hstatus => simpa using hstatus

/-- The sentinel of the last listener is only taken while it is waited for. -/
theorem Setup.goes (h : Setup statuses handlers listener stage) {k : ℕ}
    (hk : statuses[k]? = some .closing) :
    Setup (statuses.set k .gone) handlers listener stage := by
  have hlast {n : ℕ} {last : Mailbox.Status}
      (hn : (List.replicate n Mailbox.Status.gone ++ [last])[k]? = some .closing) :
      k = n ∧ last = .closing := by
    rcases getElem?_append_singleton_cases hn with hold | ⟨hj, hlast⟩
    · cases List.eq_of_mem_replicate (List.mem_of_getElem? hold)
    · exact ⟨hj.trans (List.length_replicate ..), hlast⟩
  cases h with
  | fresh hstage => cases hk
  | serving hstage => cases (hlast hk).2
  | joining hstatus =>
      obtain ⟨rfl, rfl⟩ := hlast hk
      rw [set_last]
      exact .joining (.inr rfl)
  | clearing hhandlers => cases List.eq_of_mem_replicate (List.mem_of_getElem? hk)
  | adding => cases List.eq_of_mem_replicate (List.mem_of_getElem? hk)
  | starting => cases (hlast hk).2

end

section

variable {w w' : World ω} {k : ℕ} {l : Listener ω} {formatter : ECSDeepJsonFormatter}

theorem status_of_listener (hl : w.listeners[k]? = some l) {status : Mailbox.Status}
    (hstatus : w.statuses[k]? = some status) : l.mailbox.status = status := by
  rw [World.statuses, List.getElem?_map, hl] at hstatus
  exact Option.some.inj hstatus

theorem map_status_set (mailbox : Mailbox (Item ω)) :
    (w.listeners.set k { l with mailbox }).map (·.mailbox.status) =
      w.statuses.set k mailbox.status := List.map_set

theorem map_status_set_of_eq (hl : w.listeners[k]? = some l) {mailbox : Mailbox (Item ω)}
    (h : mailbox.status = l.mailbox.status) :
    (w.listeners.set k { l with mailbox }).map (·.mailbox.status) = w.statuses := by
  have hk : w.statuses[k]? = some l.mailbox.status := by
    rw [World.statuses, List.getElem?_map, hl]
    rfl
  obtain ⟨hlt, heq⟩ := List.getElem?_eq_some_iff.mp hk
  rw [map_status_set, h, ← heq, List.set_getElem_self hlt]

theorem World.Setup.configureLogging (h : w.Setup) {stage : Stage}
    (hstage : w.configuring = some (formatter, stage))
    (hstep : w.configureLogging formatter stage = some w') : w'.Setup := by
  unfold World.Setup at h
  rw [hstage, Option.map_some] at h
  cases stage with
  | stopping =>
      simp only [World.configureLogging] at hstep
      split at hstep
      · rename_i hlistener
        cases hstep
        exact h.nothingToStop hlistener
      · rename_i k hlistener
        obtain ⟨v, hmail, rfl⟩ := Option.map_eq_some_iff.mp hstep
        obtain ⟨l, hl, rfl⟩ := Option.map_eq_some_iff.mp hmail
        obtain ⟨hserving, hstop⟩ := h.stop hlistener
        unfold World.Setup World.statuses
        rw [map_status_set, Mailbox.status_close (status_of_listener hl hserving)]
        exact hstop
  | joining k =>
      simp only [World.configureLogging] at hstep
      split at hstep
      · rename_i hgone
        cases hstep
        refine h.join fun status hstatus => ?_
        rw [World.statuses, List.getElem?_map] at hstatus
        obtain ⟨l, hl, rfl⟩ := Option.map_eq_some_iff.mp hstatus
        rw [hl, Option.all_some, decide_eq_true_eq] at hgone
        exact Mailbox.status_eq_gone_iff.mpr hgone
      · cases hstep
  | clearing =>
      cases hstep
      exact h.clear
  | adding =>
      cases hstep
      have hadd := h.add
      unfold World.Setup World.statuses
      rw [List.map_append]
      rw [World.statuses, List.length_map] at hadd
      exact hadd
  | starting k =>
      obtain ⟨v, hmail, rfl⟩ := Option.map_eq_some_iff.mp hstep
      obtain ⟨l, hl, rfl⟩ := Option.map_eq_some_iff.mp hmail
      obtain ⟨hidle, hstart⟩ := h.start
      unfold World.Setup World.statuses
      rw [map_status_set, Mailbox.status_start (status_of_listener hl hidle)]
      exact hstart

theorem World.Setup.monitor (h : w.Setup) (hl : w.listeners[k]? = some l)
    {item? : Option (Item ω)} {mailbox : Mailbox (Item ω)}
    (htake : l.mailbox.take = some (item?, mailbox)) :
    World.Setup { w with listeners := w.listeners.set k { l with mailbox } } := by
  rcases Mailbox.status_of_take htake with ⟨item, -, hsame, -⟩ | ⟨-, hclosing, hgone⟩
  · unfold World.Setup World.statuses
    rw [map_status_set_of_eq hl hsame]
    exact h
  · have hk : w.statuses[k]? = some .closing := by
      rw [World.statuses, List.getElem?_map, hl, ← hclosing]
      rfl
    unfold World.Setup World.statuses
    rw [map_status_set, hgone]
    exact h.goes hk

/-! ## 3. What is still to be written -/

def Listener.pending (l : Listener ω) : List (Entry ω) :=
  l.mailbox.pending.map (⟨l.formatter, ·⟩)

/-- What the listeners still have to take. -/
def World.pending (w : World ω) : List (Entry ω) := w.listeners.flatMap Listener.pending

theorem Listener.pending_of_gone (h : l.mailbox.status = .gone) : l.pending = [] := by
  rw [Listener.pending, Mailbox.pending_of_status h, List.map_nil]

theorem World.Setup.pending_eq (h : w.Setup) (hl : w.listeners[k]? = some l)
    (hthere : l.mailbox.status ≠ .gone) : w.pending = l.pending := by
  have hlast {j : ℕ} {other : Listener ω} (hj : w.listeners[j]? = some other) :
      other.mailbox.status = .gone ∨ j + 1 = w.statuses.length := by
    refine Setup.others h ?_
    rw [World.statuses, List.getElem?_map, hj]
    rfl
  refine flatMap_eq_of_others_nil hl fun j other hj hne => ?_
  rcases hlast hj with hgone | hlen
  · exact Listener.pending_of_gone hgone
  · have hk := (hlast hl).resolve_left hthere
    omega

theorem World.Setup.put (h : w.Setup) (hl : w.listeners[k]? = some l) (item : Item ω) :
    World.Setup { w with
      listeners := w.listeners.set k { l with mailbox := l.mailbox.put item } } := by
  unfold World.Setup World.statuses
  rw [map_status_set_of_eq hl (l.mailbox.status_put item)]
  exact h

/-- A record that comes too late stays in the queue; any other is the last to be taken. -/
theorem World.Setup.pending_put (h : w.Setup) (hl : w.listeners[k]? = some l) (item : Item ω) :
    (w.listeners.set k { l with mailbox := l.mailbox.put item }).flatMap Listener.pending =
      if l.mailbox.closed then w.pending else w.pending ++ [⟨l.formatter, item⟩] := by
  split
  · rename_i hclosed
    refine flatMap_set_of_eq hl ?_
    unfold Listener.pending
    rw [Mailbox.pending_put_of_closed hclosed]
  · rename_i hclosed
    have hopen := Bool.eq_false_iff.mpr hclosed
    have hthere : l.mailbox.status ≠ .gone := by
      intro hgone
      have hstatus := Mailbox.closed_eq_false_iff.mp hopen
      rw [hgone] at hstatus
      simp at hstatus
    have hput := (h.put hl item).pending_eq
      (List.getElem?_set_self (List.getElem?_eq_some_iff.mp hl).1)
      (by rw [Mailbox.status_put]; exact hthere)
    refine Eq.trans hput ?_
    rw [h.pending_eq hl hthere]
    unfold Listener.pending
    rw [Mailbox.pending_put hopen, List.map_append]
    rfl

/-- Whatever else is done, no record is put into a queue or taken out of one. -/
structure Quiet (w w' : World ω) : Prop where
  calls : w'.calls = w.calls
  enqueued : w'.enqueued = w.enqueued
  handled : w'.handled = w.handled
  lines : w'.lines = w.lines
  pending : w'.pending = w.pending
  items : ∀ l' ∈ w'.listeners, ∀ item, some item ∈ l'.mailbox.queue →
    ∃ l ∈ w.listeners, some item ∈ l.mailbox.queue

theorem Quiet.set (hl : w.listeners[k]? = some l) {mailbox : Mailbox (Item ω)}
    (hpending : mailbox.pending = l.mailbox.pending)
    (hitems : ∀ item, some item ∈ mailbox.queue → some item ∈ l.mailbox.queue)
    (listener : Option ℕ) (configuring : Option (ECSDeepJsonFormatter × Stage)) :
    Quiet w { w with
      listeners := w.listeners.set k { l with mailbox }, listener, configuring } where
  calls := rfl
  enqueued := rfl
  handled := rfl
  lines := rfl
  pending := by
    refine flatMap_set_of_eq hl ?_
    rw [Listener.pending, hpending, Listener.pending]
  items := by
    intro l' hl' item hitem
    rcases List.mem_or_eq_of_mem_set hl' with hold | rfl
    · exact ⟨l', hold, hitem⟩
    · exact ⟨l, List.mem_of_getElem? hl, hitems item hitem⟩

/-- `configure_logging` leaves what is enqueued where it is. -/
theorem World.Setup.quiet (h : w.Setup) {stage : Stage}
    (hstage : w.configuring = some (formatter, stage))
    (hstep : w.configureLogging formatter stage = some w') : Quiet w w' := by
  have hsame : ∀ l' ∈ w.listeners, ∀ item, some item ∈ l'.mailbox.queue →
      ∃ l ∈ w.listeners, some item ∈ l.mailbox.queue := fun l' hl' _ hitem => ⟨l', hl', hitem⟩
  cases stage with
  | stopping =>
      simp only [World.configureLogging] at hstep
      split at hstep
      · cases hstep
        exact ⟨rfl, rfl, rfl, rfl, rfl, hsame⟩
      · obtain ⟨v, hmail, rfl⟩ := Option.map_eq_some_iff.mp hstep
        obtain ⟨l, hl, rfl⟩ := Option.map_eq_some_iff.mp hmail
        refine Quiet.set hl Mailbox.pending_close (fun item hitem => ?_) _ _
        simpa [Mailbox.close] using hitem
  | joining k =>
      simp only [World.configureLogging] at hstep
      split at hstep
      · cases hstep
        exact ⟨rfl, rfl, rfl, rfl, rfl, hsame⟩
      · cases hstep
  | clearing =>
      cases hstep
      exact ⟨rfl, rfl, rfl, rfl, rfl, hsame⟩
  | adding =>
      cases hstep
      refine ⟨rfl, rfl, rfl, rfl, ?_, ?_⟩
      · unfold World.pending
        rw [List.flatMap_append]
        exact List.append_nil _
      · intro l' hl' item hitem
        rcases List.mem_append.mp hl' with hold | hnew
        · exact ⟨l', hold, hitem⟩
        · rw [List.mem_singleton.mp hnew] at hitem
          cases hitem
  | starting k =>
      obtain ⟨v, hmail, rfl⟩ := Option.map_eq_some_iff.mp hstep
      obtain ⟨l, hl, rfl⟩ := Option.map_eq_some_iff.mp hmail
      unfold World.Setup at h
      rw [hstage, Option.map_some] at h
      have hthere : l.mailbox.reader ≠ .gone := by
        intro hgone
        have hidle := status_of_listener hl h.start.1
        rw [Mailbox.status_eq_gone_iff.mpr hgone] at hidle
        cases hidle
      exact Quiet.set hl (Mailbox.pending_start hthere) (fun _ hitem => hitem) _ _

end

/-! ## 4. What is kept -/

/-- The call has put nothing into a queue yet. -/
def Phase.Early : Phase → Prop
  | .looking n => n = 0
  | .emitting _ _ => True
  | .done => False

/-- The root logger has no second handler. -/
def Phase.First : Phase → Prop
  | .emitting n _ => n = 0
  | _ => True

/-- It is what the handler has made of what was logged. -/
def Item.Prepared (py : Python ω) (item : Item ω) : Prop :=
  QueueHandler.prepare py (ECSContextFilter.filter item.metadata item.logged) = .ok item.record

/-- It is what the call has logged. -/
def Item.Of (item : Item ω) (call : Call ω) : Prop :=
  item.metadata = call.metadata ∧ item.logged = call.record

def Enqueued.call (x : Enqueued ω) : ℕ := x.entry.item.call

structure Inv (py : Python ω) (addFields : LogRecord ω → Fields ω) (w : World ω) : Prop where
  setup : w.Setup
  first : ∀ (i : ℕ) (call : Call ω), w.calls[i]? = some call → call.phase.First
  early : ∀ (i : ℕ) (call : Call ω), w.calls[i]? = some call → call.phase.Early →
    i ∉ w.enqueued.map Enqueued.call
  known : ∀ x ∈ w.enqueued, ∃ call, w.calls[x.call]? = some call ∧ x.entry.item.Of call
  once : (w.enqueued.map Enqueued.call).Nodup
  prepared : ∀ l ∈ w.listeners, ∀ item, some item ∈ l.mailbox.queue → item.Prepared py
  inOrder : (w.enqueued.filter (!·.late)).map (·.entry) = w.handled ++ w.pending
  written : w.lines = w.handled.filterMap (·.line? py addFields)

section

variable {py : Python ω} {addFields : LogRecord ω → Fields ω} {w w' : World ω} {k i : ℕ}
  {l : Listener ω} {call : Call ω}

namespace Inv

theorem initial : Inv py addFields .initial where
  setup := .fresh (.inl rfl)
  first _ _ hcall := by cases hcall
  early _ _ hcall := by cases hcall
  known _ hx := absurd hx List.not_mem_nil
  once := List.nodup_nil
  prepared _ hl := absurd hl List.not_mem_nil
  inOrder := rfl
  written := rfl

theorem quiet (h : Inv py addFields w) (hquiet : Quiet w w') (hsetup : w'.Setup) :
    Inv py addFields w' where
  setup := hsetup
  first := by rw [hquiet.calls]; exact h.first
  early := by rw [hquiet.calls, hquiet.enqueued]; exact h.early
  known := by rw [hquiet.calls, hquiet.enqueued]; exact h.known
  once := by rw [hquiet.enqueued]; exact h.once
  prepared := by
    intro l' hl' item hitem
    obtain ⟨l, hl, hold⟩ := hquiet.items l' hl' item hitem
    exact h.prepared l hl item hold
  inOrder := by rw [hquiet.enqueued, hquiet.handled, hquiet.pending]; exact h.inOrder
  written := by rw [hquiet.lines, hquiet.handled]; exact h.written

theorem log (h : Inv py addFields w) (metadata : Option (RequestLogMetadata ω))
    (record : LogRecord ω) :
    Inv py addFields { w with calls := w.calls ++ [⟨metadata, record, .looking 0⟩] } where
  setup := h.setup
  first := by
    intro i call hcall
    rcases getElem?_append_singleton_cases hcall with hold | ⟨-, rfl⟩
    · exact h.first i call hold
    · trivial
  early := by
    intro i call hcall hearly
    rcases getElem?_append_singleton_cases hcall with hold | ⟨rfl, -⟩
    · exact h.early i call hold hearly
    · intro hmem
      obtain ⟨x, hx, hxi⟩ := List.mem_map.mp hmem
      obtain ⟨call, hold, -⟩ := h.known x hx
      rw [hxi] at hold
      exact absurd (List.getElem?_eq_some_iff.mp hold).1 (Nat.lt_irrefl _)
  known := by
    intro x hx
    obtain ⟨call, hcall, hof⟩ := h.known x hx
    refine ⟨call, ?_, hof⟩
    rw [List.getElem?_append_left (List.getElem?_eq_some_iff.mp hcall).1]
    exact hcall
  once := h.once
  prepared := h.prepared
  inOrder := h.inOrder
  written := h.written

theorem phase (h : Inv py addFields w) (hcall : w.calls[i]? = some call) {phase : Phase}
    (hfirst : phase.First) (hearly : phase.Early → call.phase.Early) :
    Inv py addFields (w.phase i call phase) where
  setup := h.setup
  first := by
    intro j other hother
    rcases getElem?_set_cases hother with ⟨-, rfl⟩ | ⟨-, hold⟩
    · exact hfirst
    · exact h.first j other hold
  early := by
    intro j other hother hother'
    rcases getElem?_set_cases hother with ⟨rfl, rfl⟩ | ⟨-, hold⟩
    · exact h.early i call hcall (hearly hother')
    · exact h.early j other hold hother'
  known := by
    intro x hx
    obtain ⟨other, hother, hof⟩ := h.known x hx
    by_cases hi : i = x.call
    · subst hi
      obtain rfl := Option.some.inj (hcall.symm.trans hother)
      refine ⟨{ call with phase }, ?_, hof⟩
      exact List.getElem?_set_self (List.getElem?_eq_some_iff.mp hcall).1
    · refine ⟨other, ?_, hof⟩
      rw [World.phase, List.getElem?_set_ne hi]
      exact hother
  once := h.once
  prepared := h.prepared
  inOrder := h.inOrder
  written := h.written

theorem put (h : Inv py addFields w) (hcall : w.calls[i]? = some call)
    (hpast : ¬ call.phase.Early) (hnew : i ∉ w.enqueued.map Enqueued.call)
    (hl : w.listeners[k]? = some l) {item : Item ω} (hi : item.call = i) (hof : item.Of call)
    (hprepared : item.Prepared py) :
    Inv py addFields { w with
      listeners := w.listeners.set k { l with mailbox := l.mailbox.put item }
      enqueued := w.enqueued ++ [⟨⟨l.formatter, item⟩, l.mailbox.closed⟩] } := by
  subst hi
  refine ⟨h.setup.put hl item, h.first, ?early, ?known, ?once, ?prepared, ?inOrder, h.written⟩
  case early =>
    intro j other hother hearly hmem
    rw [List.map_append, List.mem_append] at hmem
    rcases hmem with hold | hlast
    · exact h.early j other hother hearly hold
    · rw [List.mem_singleton.mp hlast] at hother
      obtain rfl := Option.some.inj (hcall.symm.trans hother)
      exact hpast hearly
  case known =>
    intro x hx
    rcases List.mem_append.mp hx with hold | hlast
    · exact h.known x hold
    · rw [List.mem_singleton.mp hlast]
      exact ⟨call, hcall, hof⟩
  case once =>
    refine nodup_map_append_singleton h.once fun x hx hsame => hnew ?_
    exact List.mem_map.mpr ⟨x, hx, hsame⟩
  case prepared =>
    intro l' hl' item' hitem
    rcases List.mem_or_eq_of_mem_set hl' with hold | rfl
    · exact h.prepared l' hold item' hitem
    · rcases List.mem_append.mp hitem with hitem | hitem
      · exact h.prepared l (List.mem_of_getElem? hl) item' hitem
      · obtain rfl : item' = item := by simpa using hitem
        exact hprepared
  case inOrder =>
    rw [List.filter_append, List.map_append, h.inOrder, List.append_assoc]
    refine congrArg (w.handled ++ ·) (Eq.trans ?_ (h.setup.pending_put hl item).symm)
    cases l.mailbox.closed with
    | true => exact List.append_nil _
    | false => rfl

theorem prepared_of_take (h : Inv py addFields w) (hl : w.listeners[k]? = some l)
    {item? : Option (Item ω)} {mailbox : Mailbox (Item ω)}
    (hqueue : l.mailbox.queue = item? :: mailbox.queue) :
    ∀ l' ∈ w.listeners.set k { l with mailbox }, ∀ item, some item ∈ l'.mailbox.queue →
      item.Prepared py := by
  intro l' hl' item hitem
  rcases List.mem_or_eq_of_mem_set hl' with hold | rfl
  · exact h.prepared l' hold item hitem
  · refine h.prepared l (List.mem_of_getElem? hl) item ?_
    rw [hqueue]
    exact List.mem_cons_of_mem _ hitem

theorem monitor (h : Inv py addFields w) (hl : w.listeners[k]? = some l)
    (hstep : w.monitor py addFields k l = some w') : Inv py addFields w' := by
  obtain ⟨⟨item?, mailbox⟩, htake, rfl⟩ := Option.map_eq_some_iff.mp hstep
  have hsetup := h.setup.monitor hl htake
  obtain ⟨-, ⟨item, rfl, hqueue, -, hpending⟩ | ⟨rfl, hqueue, hgone, hpending⟩⟩ :=
    Mailbox.take_cases htake
  · obtain ⟨hsame, hthere⟩ : mailbox.status = l.mailbox.status ∧ l.mailbox.status ≠ .gone := by
      rcases Mailbox.status_of_take htake with ⟨-, -, hkept⟩ | ⟨hnone, -⟩
      · exact hkept
      · cases hnone
    have hprepared := h.prepared l (List.mem_of_getElem? hl) item
      (hqueue ▸ List.mem_cons_self)
    refine ⟨hsetup, h.first, h.early, h.known, h.once, h.prepared_of_take hl hqueue, ?_, ?_⟩
    · have hleft := hsetup.pending_eq
        (List.getElem?_set_self (List.getElem?_eq_some_iff.mp hl).1) (hsame ▸ hthere)
      rw [h.inOrder, h.setup.pending_eq hl hthere, List.append_assoc]
      congr 1
      refine Eq.trans ?_ (congrArg _ hleft.symm)
      unfold Listener.pending
      rw [hpending]
      rfl
    · have hline : Entry.line? py addFields ⟨l.formatter, item⟩ =
          (render py addFields l.formatter item.record).toOption :=
        congrArg _ (emit_of_prepare hprepared)
      have hlines : [item].filterMap (fun item =>
          (render py addFields l.formatter item.record).toOption) =
            [Entry.mk l.formatter item].filterMap (·.line? py addFields) := by
        rw [List.filterMap_cons, List.filterMap_cons, hline]
        rfl
      rw [List.filterMap_append, ← h.written]
      exact congrArg (w.lines ++ ·) hlines
  · refine ⟨hsetup, h.first, h.early, h.known, h.once, h.prepared_of_take hl hqueue, ?_, ?_⟩
    · have hsame := flatMap_set_of_eq (f := Listener.pending) hl (y := { l with mailbox }) (by
        rw [Listener.pending, Listener.pending, hpending])
      rw [h.inOrder, World.pending, ← hsame]
      exact congrArg (· ++ _) (List.append_nil _).symm
    · rw [h.written]
      exact (List.append_nil _).trans (congrArg _ (List.append_nil _).symm)

theorem callHandlers (h : Inv py addFields w) (hcall : w.calls[i]? = some call)
    (hstep : w.callHandlers py i call = some w') : Inv py addFields w' := by
  unfold World.callHandlers at hstep
  split at hstep
  · rename_i n hphase
    split at hstep
    · rename_i k hk
      cases hstep
      -- there is one handler at most
      have hn : n = 0 := by
        rcases h.setup.handlers_eq with hnil | ⟨other, hother, -⟩
        · rw [hnil] at hk
          cases hk
        · rw [hother] at hk
          exact Nat.lt_one_iff.mp (List.getElem?_eq_some_iff.mp hk).1
      refine h.phase hcall hn fun _ => ?_
      rw [hphase]
      exact hn
    · cases hstep
      exact h.phase hcall trivial False.elim
  · rename_i n k hphase
    split at hstep
    · cases hstep
      exact h.phase hcall trivial fun hearly => absurd hearly (Nat.succ_ne_zero n)
    · rename_i record hprepare
      obtain ⟨l, hl, rfl⟩ := Option.map_eq_some_iff.mp hstep
      have hnew : i ∉ w.enqueued.map Enqueued.call := by
        refine h.early i call hcall ?_
        rw [hphase]
        trivial
      have hmoved : Inv py addFields (w.phase i call (.looking (n + 1))) :=
        h.phase hcall trivial fun hearly => absurd hearly (Nat.succ_ne_zero n)
      exact hmoved.put (List.getElem?_set_self (List.getElem?_eq_some_iff.mp hcall).1)
        (Nat.succ_ne_zero n) hnew hl rfl ⟨rfl, rfl⟩ hprepare
  · cases hstep

theorem step (h : Inv py addFields w) {e : Event ω} (hstep : step py addFields w e = some w') :
    Inv py addFields w' := by
  cases e with
  | configure formatter =>
      simp only [QueueLogging.step] at hstep
      split at hstep
      · rename_i hidle
        cases hstep
        refine h.quiet ⟨rfl, rfl, rfl, rfl, rfl, fun l' hl' _ hitem => ⟨l', hl', hitem⟩⟩ ?_
        have hsetup := h.setup
        unfold World.Setup at hsetup
        rw [Option.isNone_iff_eq_none.mp hidle] at hsetup
        exact Setup.configure hsetup
      · cases hstep
  | proceed =>
      obtain ⟨⟨formatter, stage⟩, hstage, hconfigures⟩ := Option.bind_eq_some_iff.mp hstep
      exact h.quiet (h.setup.quiet hstage hconfigures)
        (h.setup.configureLogging hstage hconfigures)
  | log metadata record =>
      cases hstep
      exact h.log metadata record
  | advance i =>
      obtain ⟨call, hcall, hcalls⟩ := Option.bind_eq_some_iff.mp hstep
      exact h.callHandlers hcall hcalls
  | listen k =>
      obtain ⟨l, hl, hlistens⟩ := Option.bind_eq_some_iff.mp hstep
      exact h.monitor hl hlistens

theorem of_run {es : List (Event ω)} (hrun : Run (QueueLogging.step py addFields) .initial es w) :
    Inv py addFields w :=
  hrun.invariant .initial fun _ _ _ h hstep => h.step hstep

end Inv

/-! ## 5. Every line once, in order -/

/-- What a configuration waits for comes about. -/
theorem World.Setup.proceeds (h : w.Setup) (hconfiguring : w.configuring.isSome) :
    (QueueLogging.step py addFields w .proceed).isSome ∨
      ∃ k, (QueueLogging.step py addFields w (.listen k)).isSome := by
  obtain ⟨⟨formatter, stage⟩, hstage⟩ := Option.isSome_iff_exists.mp hconfiguring
  unfold World.Setup at h
  rw [hstage, Option.map_some] at h
  have hlistener {k : ℕ} {status : Mailbox.Status} (hk : w.statuses[k]? = some status) :
      ∃ l, w.listeners[k]? = some l ∧ l.mailbox.status = status := by
    rw [World.statuses, List.getElem?_map] at hk
    exact Option.map_eq_some_iff.mp hk
  simp only [QueueLogging.step, hstage, Option.bind_some]
  cases stage with
  | stopping =>
      left
      simp only [World.configureLogging]
      split
      · rfl
      · rename_i k hk
        obtain ⟨l, hl, -⟩ := hlistener (h.stop hk).1
        rw [World.mail, hl]
        rfl
  | joining k =>
      rcases h.joined with hclosing | hgone
      · obtain ⟨l, hl, hstatus⟩ := hlistener hclosing
        obtain ⟨hreading, hnone⟩ := Mailbox.status_eq_closing_iff.mp hstatus
        have htakes := Mailbox.take_isSome hreading (List.ne_nil_of_mem hnone)
        refine .inr ⟨k, ?_⟩
        rw [hl, Option.bind_some, World.monitor, Option.isSome_map]
        exact htakes
      · obtain ⟨l, hl, hstatus⟩ := hlistener hgone
        left
        rw [World.configureLogging, hl, Option.all_some,
          decide_eq_true (Mailbox.status_eq_gone_iff.mp hstatus), if_pos rfl]
        rfl
  | clearing => exact .inl rfl
  | adding => exact .inl rfl
  | starting k =>
      obtain ⟨l, hl, -⟩ := hlistener h.start.1
      left
      rw [World.configureLogging, World.mail, hl]
      rfl

/-- There is one handler at most and one listener that is not gone; what is enqueued is of different
calls; what was not late has been taken by a listener, in order, or still waits to be; and the lines
are those of what has been taken. -/
structure Delivered (py : Python ω) (addFields : LogRecord ω → Fields ω) (w : World ω) : Prop where
  oneHandler : w.handlers.length ≤ 1
  oneListener : ∀ (j k : ℕ) (l l' : Listener ω), w.listeners[j]? = some l →
    w.listeners[k]? = some l' → l.mailbox.reader ≠ .gone → l'.mailbox.reader ≠ .gone → j = k
  once : (w.enqueued.map Enqueued.call).Nodup
  logged : ∀ x ∈ w.enqueued, ∃ call, w.calls[x.call]? = some call ∧ x.entry.item.Of call
  inOrder : (w.enqueued.filter (!·.late)).map (·.entry) = w.handled ++ w.pending
  written : w.lines = w.handled.filterMap (·.line? py addFields)
  proceeds : w.configuring.isSome → (QueueLogging.step py addFields w .proceed).isSome ∨
    ∃ k, (QueueLogging.step py addFields w (.listen k)).isSome

/-- **No line twice, none out of order.**  However often the logging is configured, and whatever is
logged meanwhile, by any number of threads. -/
theorem delivered_of_run {es : List (Event ω)}
    (hrun : Run (QueueLogging.step py addFields) .initial es w) : Delivered py addFields w := by
  have h := Inv.of_run hrun
  have hlast {j : ℕ} {l : Listener ω} (hj : w.listeners[j]? = some l)
      (hthere : l.mailbox.reader ≠ .gone) : j + 1 = w.statuses.length := by
    have hstatus : w.statuses[j]? = some l.mailbox.status := by
      rw [World.statuses, List.getElem?_map, hj]
      rfl
    exact (Setup.others h.setup hstatus).resolve_left (mt Mailbox.status_eq_gone_iff.mp hthere)
  refine ⟨?_, ?_, h.once, h.known, h.inOrder, h.written, h.setup.proceeds⟩
  · rcases h.setup.handlers_eq with hnil | ⟨k, hk, -⟩
    · rw [hnil]
      exact Nat.zero_le 1
    · rw [hk]
      exact Nat.le_refl 1
  · intro j k l l' hj hk hthere hthere'
    have hfirst := hlast hj hthere
    have hsecond := hlast hk hthere'
    omega

end

/-- The logging is configured once more while two threads log; one of them finds the handler before
it is taken away, and enqueues its record too late. -/
def configuredTwice : List (Event Empty) :=
  [.configure ledgerFormatter, .proceed, .proceed, .proceed, .proceed,
    .log none (unexpectedError noExtra), .advance 0, .advance 0,
    .log none (unexpectedError noExtra), .advance 1,
    .configure ledgerFormatter, .proceed, .advance 1, .listen 0, .listen 0, .proceed, .proceed,
    .proceed, .proceed,
    .log none (unexpectedError noExtra), .advance 2, .advance 2, .listen 1]

theorem delivered_of_run_configuredTwice : ∃ w,
    Run (step plainPython mergeRecordExtra) .initial configuredTwice w ∧
      w.enqueued.map (·.late) = [false, true, false] ∧ w.lines.length = 2 ∧
        Delivered plainPython mergeRecordExtra w := by
  have hvalues : (exec (step plainPython mergeRecordExtra) .initial configuredTwice).map
      (fun w => (w.enqueued.map (·.late), w.lines.length)) = some ([false, true, false], 2) := by
    decide +kernel
  obtain ⟨w, hrun, hw⟩ := Option.map_eq_some_iff.mp hvalues
  obtain ⟨hlate, hlines⟩ := Prod.mk.inj hw
  exact ⟨w, hrun, hlate, hlines, delivered_of_run hrun⟩

end DjasktTrading.Extensions.QueueLogging
