import DjasktTrading.Brokerage.Concurrency
import DjasktTrading.Brokerage.Isolation
import DjasktTrading.Reasoning.Throttle

/-!
# Cooldown — how often logins reach a broker

Logins of one user at one brokerage may come from any number of servers at once.  Whoever sets the
cooldown key goes on to the broker; a call can be slow, and others may be let through meanwhile.
-/

open Reasoning

namespace DjasktTrading.Brokerage.Concurrency

/-! ## 1. Who is let through, and who calls -/

/-- The cooldown in ticks of the clock. -/
def loginCooldown : ℕ := loginCooldownSeconds * second

/-- The user and the brokerage of a login that calls the broker next. -/
def Task.awaits : Task → Option (UserId × String)
  | .login _ user brokerageName _ (.callBroker _ _) => some (user.id, brokerageName)
  | _ => none

/-- The user and the brokerage of a login that sets the cooldown key next. -/
def Task.admitted? (w : World) : Task → Option (UserId × String)
  | .login _ user brokerageName _ (.enforceCooldown _ _) =>
      match Expiring.get w.cooldowns w.now (cooldownKey user.id brokerageName) with
      | none => some (user.id, brokerageName)
      | some _ => none
  | _ => none

/-- Who is let through finds no cooldown key. -/
theorem Task.cooldown_of_admitted {w : World} {task : Task} {who : UserId × String}
    (h : task.admitted? w = some who) :
    Expiring.get w.cooldowns w.now (cooldownKey who.1 who.2) = none := by
  unfold Task.admitted? at h
  split at h
  · split at h
    · rename_i hget
      cases h
      exact hget
    · cases h
  · cases h

namespace Requests

variable (r : Requests)

def admitted? : Event → Option (UserId × String)
  | .advance i => r.tasks[i]?.bind (Task.admitted? r.world)
  | _ => none

def calling? : Event → Option (UserId × String)
  | .advance i => r.tasks[i]?.bind Task.awaits
  | _ => none

end Requests

/-- The cooldown keys after a login has been let through, or none. -/
def cooled (w : World) : Option (UserId × String) → Expiring String Unit ℕ
  | none => w.cooldowns
  | some (userId, brokerageName) =>
      w.cooldowns.set (cooldownKey userId brokerageName) () (w.now + loginCooldown)

variable {py : Python} {p : Platform}

/-- Who is let through awaits the broker's call next, and nobody else does. -/
theorem Task.next_cooldown (py : Python) (p : Platform) (w : World) (task : Task) :
    (task.next py p w).2.1.cooldowns = cooled w (task.admitted? w) ∧
      (task.next py p w).1.awaits = task.admitted? w := by
  cases task with
  | login broker user name loginSecrets phase =>
      cases phase with
      | resolve =>
          dsimp only [Task.next, LoginPhase.next]
          cases resolveLogin py p w user name with
          | error e => exact ⟨rfl, rfl⟩
          | ok resolved => exact ⟨rfl, rfl⟩
      | enforceCooldown link endpoint =>
          dsimp only [Task.next, LoginPhase.next, Task.admitted?, enforceLoginCooldown]
          cases Expiring.get w.cooldowns w.now (cooldownKey user.id name) with
          | none => exact ⟨rfl, rfl⟩
          | some _ => exact ⟨rfl, rfl⟩
      | callBroker link endpoint =>
          dsimp only [Task.next, LoginPhase.next]
          rcases authenticate py endpoint broker user link.userBrokerageData loginSecrets with
            ⟨e | session, records⟩
          · exact ⟨rfl, rfl⟩
          · exact ⟨rfl, rfl⟩
      | store session =>
          dsimp only [Task.next, LoginPhase.next]
          rcases BrokerSessionCache.store w.sessions w.now user.id name session with
            ⟨e | ttlSeconds, sessions⟩
          · exact ⟨rfl, rfl⟩
          · exact ⟨rfl, rfl⟩
      | answered outcome => exact ⟨rfl, rfl⟩
  | logout broker user name phase =>
      cases phase with
      | resolve =>
          dsimp only [Task.next, LogoutPhase.next]
          cases getStrategyClass py name with
          | error e => exact ⟨rfl, rfl⟩
          | ok _ =>
              cases getBrokerageAndLink py p w user name with
              | error e => exact ⟨rfl, rfl⟩
              | ok found => exact ⟨rfl, rfl⟩
      | readCache brokerage link =>
          dsimp only [Task.next, LogoutPhase.next]
          cases w.session? user.id name with
          | none => exact ⟨rfl, rfl⟩
          | some cachedSession => exact ⟨rfl, rfl⟩
      | callBroker brokerage link cachedSession => exact ⟨rfl, rfl⟩
      | delete cachedSession outcome => exact ⟨rfl, rfl⟩
      | answered outcome => exact ⟨rfl, rfl⟩

/-! ## 2. A meter -/

/-- The requests, with the times at which a login of one user at one brokerage was let through, and
the number of those that have called.  No step reads them. -/
structure Metered where
  requests : Requests
  admissions : List ℕ
  calls : ℕ

def Metered.initial (w : World) : Metered where
  requests := .initial w
  admissions := []
  calls := 0

def meteredStep (py : Python) (p : Platform) (who : UserId × String) (m : Metered) (e : Event) :
    Option Metered :=
  (step py p m.requests e).map fun requests => {
    requests
    admissions := m.admissions ++
      if m.requests.admitted? e = some who then [m.requests.world.now] else []
    calls := m.calls + if m.requests.calling? e = some who then 1 else 0 }

/-- Every run of requests can be metered. -/
theorem exists_metered (who : UserId × String) {start : World} {es : List Event} {r : Requests}
    (hrun : Run (step py p) (.initial start) es r) :
    ∃ m, Run (meteredStep py p who) (.initial start) es m ∧ m.requests = r := by
  refine hrun.induction
    (motive := fun es r => ∃ m, Run (meteredStep py p who) (.initial start) es m ∧ m.requests = r) ?_ ?_
  · exact ⟨.initial start, run_nil_iff.mpr rfl, rfl⟩
  · rintro es r e r' - ⟨m, hm, rfl⟩ hstep
    obtain ⟨m', hm'⟩ : ∃ m', meteredStep py p who m e = some m' :=
      ⟨_, by rw [meteredStep, hstep]; rfl⟩
    refine ⟨m', run_concat_iff.mpr ⟨m, hm, hm'⟩, ?_⟩
    obtain ⟨requests, hrequests, rfl⟩ := Option.map_eq_some_iff.mp hm'
    exact Option.some.inj (hrequests.symm.trans hstep)

/-- What has been let through lies apart, the key remembers it, and whoever calls or is about to call
has been let through. -/
structure MeterInv (who : UserId × String) (start : ℕ) (m : Metered) : Prop where
  clock : start ≤ m.requests.world.now
  spaced : Spaced loginCooldown m.admissions
  since : ∀ t ∈ m.admissions, start ≤ t
  past : ∀ t ∈ m.admissions, t ≤ m.requests.world.now
  remembers : m.requests.world.cooldowns.Remembers (cooldownKey who.1 who.2) loginCooldown m.admissions
  counted : m.calls + m.requests.tasks.countP (·.awaits = some who) ≤ m.admissions.length

namespace MeterInv

variable {who : UserId × String} {start : ℕ} {m m' : Metered}

theorem initial (who : UserId × String) (w : World) : MeterInv who w.now (.initial w) where
  clock := le_rfl
  spaced := List.Pairwise.nil
  since t ht := by cases ht
  past t ht := by cases ht
  remembers t ht := by cases ht
  counted := le_rfl

/-- A request has come; it awaits nothing yet. -/
theorem arrive (h : MeterInv who start m) (task : Task) (hnone : task.awaits = none) :
    MeterInv who start
      { m with requests := { m.requests with tasks := m.requests.tasks ++ [task] } } where
  clock := h.clock
  spaced := h.spaced
  since := h.since
  past := h.past
  remembers := h.remembers
  counted := by
    rw [List.countP_append]
    simpa [hnone] using h.counted

theorem wait (h : MeterInv who start m) (duration : ℕ) :
    MeterInv who start { m with requests := { m.requests with
      world := { m.requests.world with now := m.requests.world.now + duration } } } where
  clock := h.clock.trans (Nat.le_add_right _ _)
  spaced := h.spaced
  since := h.since
  past t ht := (h.past t ht).trans (Nat.le_add_right _ _)
  remembers := h.remembers
  counted := h.counted

theorem advance (h : MeterInv who start m) {i : ℕ} {task : Task}
    (htask : m.requests.tasks[i]? = some task)
    {records : List LogRecord} :
    MeterInv who start {
      requests := {
        world := (task.next py p m.requests.world).2.1
        tasks := m.requests.tasks.set i (task.next py p m.requests.world).1
        records := records }
      admissions := m.admissions ++
        if task.admitted? m.requests.world = some who then [m.requests.world.now] else []
      calls := m.calls + if task.awaits = some who then 1 else 0 } := by
  obtain ⟨hcooldowns, hawaits⟩ := Task.next_cooldown py p m.requests.world task
  have hnow : (task.next py p m.requests.world).2.1.now = m.requests.world.now :=
    (Task.next_cache m.requests.world task).2
  -- the task that moves may have been counted, and may be counted now
  have hcount := countP_set_add (q := fun task => task.awaits = some who) htask
    (task.next py p m.requests.world).1
  simp only [hawaits, decide_eq_true_eq] at hcount
  have hcounted := h.counted
  by_cases hadmitted : task.admitted? m.requests.world = some who
  · have hfree := Task.cooldown_of_admitted hadmitted
    have hover := h.remembers.elapsed hfree
    simp only [hadmitted, if_true] at hcount hcooldowns ⊢
    constructor
    · exact hnow ▸ h.clock
    · exact h.spaced.concat hover
    · exact List.forall_mem_append.mpr ⟨h.since, by simpa using h.clock⟩
    · rw [hnow]
      exact List.forall_mem_append.mpr ⟨h.past, by simp⟩
    · rw [hcooldowns]
      exact h.remembers.set_self hfree ()
    · rw [List.length_append, List.length_singleton]
      dsimp only
      omega
  · simp only [hadmitted, if_false, List.append_nil] at hcount ⊢
    refine ⟨hnow ▸ h.clock, h.spaced, h.since, hnow ▸ h.past, ?_, by dsimp only; omega⟩
    rw [hcooldowns]
    rcases hother : task.admitted? m.requests.world with _ | ⟨userId, name⟩
    · exact h.remembers
    · -- another user or another brokerage has another key
      refine h.remembers.set_of_ne (fun hkey => hadmitted ?_) _ _
      obtain ⟨huser, hname⟩ := cooldownKey_inj.mp hkey
      rw [hother, ← huser, ← hname]

theorem step (h : MeterInv who start m) {e : Event} (hstep : meteredStep py p who m e = some m') :
    MeterInv who start m' := by
  obtain ⟨requests, hrequests, rfl⟩ := Option.map_eq_some_iff.mp hstep
  cases e with
  | arriveLogin broker user name loginSecrets =>
      cases hrequests
      simpa [Requests.admitted?, Requests.calling?] using
        h.arrive (.login broker user name loginSecrets .resolve) rfl
  | arriveLogout broker user name =>
      cases hrequests
      simpa [Requests.admitted?, Requests.calling?] using
        h.arrive (.logout broker user name .resolve) rfl
  | wait duration =>
      cases hrequests
      simpa [Requests.admitted?, Requests.calling?] using h.wait duration
  | advance i =>
      simp only [Concurrency.step] at hrequests
      split at hrequests
      · cases hrequests
      · rename_i task htask
        cases hrequests
        simp only [Requests.admitted?, Requests.calling?, htask, Option.bind_some]
        exact h.advance htask

end MeterInv

/-- **The cooldown bounds the calls.**  Of any number of concurrent logins of a user at a brokerage,
in any interleaving and with calls of any length, those that are let through are let through two
seconds apart, and over a run that takes `T` no more than `T / 2s + 1` of them get to call the broker. -/
theorem login_calls_le {start : World} {es : List Event} {r : Requests}
    (hrun : Run (step py p) (.initial start) es r) (who : UserId × String) :
    ∃ m, Run (meteredStep py p who) (.initial start) es m ∧ m.requests = r ∧
      Spaced loginCooldown m.admissions ∧
        m.calls * loginCooldown ≤ r.world.now - start.now + loginCooldown := by
  obtain ⟨m, hm, rfl⟩ := exists_metered who hrun
  have hinv : MeterInv who start.now m :=
    hm.invariant (I := MeterInv who start.now) (.initial who start) fun _ _ _ h hstep => h.step hstep
  refine ⟨m, hm, rfl, hinv.spaced, ?_⟩
  calc m.calls * loginCooldown
      ≤ m.admissions.length * loginCooldown :=
        Nat.mul_le_mul_right _ ((Nat.le_add_right _ _).trans hinv.counted)
    _ ≤ m.requests.world.now - start.now + loginCooldown :=
        hinv.spaced.length_mul_le hinv.clock hinv.since hinv.past

/-- Two logins of the trader at once: the second is refused, and comes back after the cooldown. -/
def loginsAtOnce : List Event :=
  [.arriveLogin (issuing "first") trader "angel_one" (secretsWith "hunter2"),
    .arriveLogin (issuing "second") trader "angel_one" (secretsWith "hunter2"), .advance 0, .advance 1,
    .advance 1, .advance 0, .wait (2 * second), .advance 1,
    .arriveLogin (issuing "third") trader "angel_one" (secretsWith "hunter2"), .advance 2, .advance 2,
    .advance 2]

theorem login_calls_le_loginsAtOnce :
    ∃ r m, Run (step .default bothEndpoints) (.initial linkedTrader) loginsAtOnce r ∧
      Run (meteredStep .default bothEndpoints (1, "angel_one")) (.initial linkedTrader) loginsAtOnce m ∧
        m.requests = r ∧ Spaced loginCooldown m.admissions ∧
          m.calls * loginCooldown ≤ r.world.now - linkedTrader.now + loginCooldown := by
  obtain ⟨r, hrun⟩ : ∃ r, Run (step .default bothEndpoints) (.initial linkedTrader) loginsAtOnce r :=
    Option.isSome_iff_exists.mp (by decide +kernel)
  obtain ⟨m, hm⟩ := login_calls_le hrun (1, "angel_one")
  exact ⟨r, m, hrun, hm⟩

end DjasktTrading.Brokerage.Concurrency
