import DjasktTrading.Reasoning.Latch
import DjasktTrading.Reasoning.Progress
import DjasktTrading.Reasoning.Slots
import Mathlib.Algebra.Group.Action.Defs
import Mathlib.Algebra.Order.BigOperators.Group.List
import Mathlib.Algebra.Order.Ring.Nat

/-!
# Vault — secrets and logins at the same time

Threads ask one manager for secrets.  The flag `_authenticated` is set under a lock, by a login, and
cleared without it, by a fetch that has failed.  Between any two accesses of a thread to the flag, the
lock or the network the others go on.
-/

open Reasoning

namespace DjasktTrading.Extensions.Vault

/-! ## 1. The manager -/

structure InfisicalVaultManager where
  vaultUrl : String
  clientId : Option String
  clientSecret : Option String
  projectId : Option String
  defaultEnvironment : String
  secretPath : String

/-- `str.rstrip("/")` -/
def rstripSlash (s : String) : String :=
  String.ofList (s.toList.reverse.dropWhile (· = '/')).reverse

/-- `__init__`, over what `os.getenv` finds -/
def InfisicalVaultManager.init (getenv : String → Option String) : InfisicalVaultManager where
  vaultUrl := rstripSlash ((getenv "INFISICAL_URL").getD "http://localhost:8081")
  clientId := getenv "INFISICAL_CLIENT_ID"
  clientSecret := getenv "INFISICAL_CLIENT_SECRET"
  projectId := getenv "INFISICAL_PROJECT_ID"
  defaultEnvironment := (getenv "INFISICAL_ENVIRONMENT").getD "dev"
  secretPath := (getenv "INFISICAL_SECRET_PATH").getD "/"

/-- The arguments of `get_secret_by_name`. -/
structure FetchRequest where
  secretName : String
  projectId : Option String
  environmentSlug : String
  secretPath : String

/-- What the SDK raises. -/
inductive SdkError where
  | infisicalError
  | other

inductive Exn where
  | vaultNotConfigured
  | vaultSecretUnavailable
  /-- of the SDK, and not its own -/
  | other

/-- The first fetch of a call, or its second; then as many logins had been made when it cleared the
flag. -/
inductive Attempt where
  | first
  | retry (seen : ℕ)

/-- Where a call stands. -/
inductive Phase where
  /-- `_authenticate` looks at the flag -/
  | checking
  | locking
  | rechecking
  | loggingIn
  /-- the login is made, the flag not yet set -/
  | loggedIn
  | unlocking
  | sending
  /-- with the logins that have been made when it was sent -/
  | fetching (request : FetchRequest) (logins : ℕ)
  /-- the first fetch has failed, the flag is not yet cleared -/
  | failed
  | done (outcome : Except Exn String)

/-- A call of `get_secret`. -/
structure Call where
  secretName : String
  environment : Option String
  attempt : Attempt
  phase : Phase

/-- What a step of a call waits for from outside. -/
inductive Answer where
  | nothing
  | login (reply : Except SdkError Unit)
  | fetch (reply : Except SdkError String)

section

variable (manager : InfisicalVaultManager)

/-- Both credentials are there and not empty. -/
def InfisicalVaultManager.configured : Bool :=
  manager.clientId.any (· ≠ "") && manager.clientSecret.any (· ≠ "")

/-- What `_fetch` asks for. -/
def InfisicalVaultManager.fetchRequest (secretName : String) (environment : Option String) :
    FetchRequest where
  secretName := secretName
  projectId := manager.projectId
  -- `environment or self.default_environment`
  environmentSlug := (environment.filter (· ≠ "")).getD manager.defaultEnvironment
  secretPath := manager.secretPath

/-! ## 2. Steps -/

/-- The next step of a call, and what it does to the flag and the lock. -/
def Call.next (i : ℕ) (latch : Latch Unit) (call : Call) (answer : Answer) :
    Option (Call × Option (Latch.Event Unit)) :=
  match call.phase, answer with
  | .checking, .nothing =>
      if latch.value.isSome then some ({ call with phase := .sending }, none)
      else if manager.configured then some ({ call with phase := .locking }, none)
      else some ({ call with phase := .done (.error .vaultNotConfigured) }, none)
  | .locking, .nothing => some ({ call with phase := .rechecking }, some (.acquire i))
  | .rechecking, .nothing =>
      if latch.value.isSome then some ({ call with phase := .sending }, some (.release i))
      else some ({ call with phase := .loggingIn }, some (.make i))
  | .loggingIn, .login (.ok ()) => some ({ call with phase := .loggedIn }, none)
  | .loggingIn, .login (.error .infisicalError) =>
      some ({ call with phase := .done (.error .vaultSecretUnavailable) }, some (.release i))
  | .loggingIn, .login (.error .other) =>
      some ({ call with phase := .done (.error .other) }, some (.release i))
  | .loggedIn, .nothing => some ({ call with phase := .unlocking }, some (.set i ()))
  | .unlocking, .nothing => some ({ call with phase := .sending }, some (.release i))
  | .sending, .nothing =>
      let request := manager.fetchRequest call.secretName call.environment
      some ({ call with phase := .fetching request latch.made }, none)
  | .fetching _ _, .fetch (.ok value) => some ({ call with phase := .done (.ok value) }, none)
  | .fetching _ _, .fetch (.error .infisicalError) =>
      match call.attempt with
      | .first => some ({ call with phase := .failed }, none)
      | .retry _ => some ({ call with phase := .done (.error .vaultSecretUnavailable) }, none)
  | .fetching _ _, .fetch (.error .other) =>
      some ({ call with phase := .done (.error .other) }, none)
  | .failed, .nothing =>
      some ({ call with attempt := .retry latch.made, phase := .checking }, some .drop)
  | _, _ => none

/-- The flag with its lock, and the calls. -/
structure World where
  latch : Latch Unit
  calls : List Call

def World.initial : World := ⟨.empty, []⟩

inductive Event where
  | getSecret (secretName : String) (environment : Option String)
  | advance (i : ℕ) (answer : Answer)

def step (w : World) : Event → Option World
  | .getSecret secretName environment =>
      some { w with calls := w.calls ++ [⟨secretName, environment, .first, .checking⟩] }
  | .advance i answer =>
      match (w.calls[i]?).bind fun call => call.next manager i w.latch answer with
      | none => none
      | some (call, e?) => (w.latch.act e?).map fun latch => { latch, calls := w.calls.set i call }

/-- Everything that a step of a call can be. -/
inductive Call.Moves (i : ℕ) (latch : Latch Unit) (call : Call) :
    Call → Option (Latch.Event Unit) → Prop where
  | known (here : call.phase = .checking) (set : latch.value.isSome) :
      Moves i latch call { call with phase := .sending } none
  | unconfigured (here : call.phase = .checking) :
      Moves i latch call { call with phase := .done (.error .vaultNotConfigured) } none
  | waits (here : call.phase = .checking) (configured : manager.configured = true) :
      Moves i latch call { call with phase := .locking } none
  | acquires (here : call.phase = .locking) :
      Moves i latch call { call with phase := .rechecking } (some (.acquire i))
  | knownInside (here : call.phase = .rechecking) (set : latch.value.isSome) :
      Moves i latch call { call with phase := .sending } (some (.release i))
  | logsIn (here : call.phase = .rechecking) :
      Moves i latch call { call with phase := .loggingIn } (some (.make i))
  | loggedIn (here : call.phase = .loggingIn) :
      Moves i latch call { call with phase := .loggedIn } none
  | refused (here : call.phase = .loggingIn) (e : Exn) :
      Moves i latch call { call with phase := .done (.error e) } (some (.release i))
  | registers (here : call.phase = .loggedIn) :
      Moves i latch call { call with phase := .unlocking } (some (.set i ()))
  | unlocks (here : call.phase = .unlocking) :
      Moves i latch call { call with phase := .sending } (some (.release i))
  | sends (here : call.phase = .sending) :
      Moves i latch call { call with
        phase := .fetching (manager.fetchRequest call.secretName call.environment) latch.made } none
  | answered {request : FetchRequest} {logins : ℕ} (here : call.phase = .fetching request logins)
      (outcome : Except Exn String) :
      Moves i latch call { call with phase := .done outcome } none
  | fetchFails {request : FetchRequest} {logins : ℕ} (here : call.phase = .fetching request logins)
      (first : call.attempt = .first) :
      Moves i latch call { call with phase := .failed } none
  | drops (here : call.phase = .failed) :
      Moves i latch call { call with attempt := .retry latch.made, phase := .checking } (some .drop)

variable {manager} {w w' : World} {e : Event} {es : List Event} {i : ℕ} {latch latch' : Latch Unit}
  {call call' : Call} {answer : Answer} {e? : Option (Latch.Event Unit)}

theorem Call.next_moves (h : call.next manager i latch answer = some (call', e?)) :
    call.Moves manager i latch call' e? := by
  unfold Call.next at h
  split at h
  case h_1 here =>
    split at h
    · rename_i hset
      cases h
      exact .known here hset
    · split at h
      · rename_i hconfigured
        cases h
        exact .waits here hconfigured
      · cases h
        exact .unconfigured here
  case h_2 here =>
    cases h
    exact .acquires here
  case h_3 here =>
    split at h
    · rename_i hset
      cases h
      exact .knownInside here hset
    · cases h
      exact .logsIn here
  case h_4 here =>
    cases h
    exact .loggedIn here
  case h_5 here =>
    cases h
    exact .refused here _
  case h_6 here =>
    cases h
    exact .refused here _
  case h_7 here =>
    cases h
    exact .registers here
  case h_8 here =>
    cases h
    exact .unlocks here
  case h_9 here =>
    cases h
    exact .sends here
  case h_10 here =>
    cases h
    exact .answered here _
  case h_11 here =>
    split at h
    · rename_i hfirst
      cases h
      exact .fetchFails here hfirst
    · cases h
      exact .answered here _
  case h_12 here =>
    cases h
    exact .answered here _
  case h_13 here =>
    cases h
    exact .drops here
  case h_14 => cases h

theorem step_cases (hstep : step manager w e = some w') :
    (∃ secretName environment, e = .getSecret secretName environment ∧
      w' = { w with calls := w.calls ++ [⟨secretName, environment, .first, .checking⟩] }) ∨
    ∃ i answer call call' e? latch, e = .advance i answer ∧ w.calls[i]? = some call ∧
      call.Moves manager i w.latch call' e? ∧ w.latch.act e? = some latch ∧
        w' = { latch, calls := w.calls.set i call' } := by
  cases e with
  | getSecret secretName environment =>
      cases hstep
      exact .inl ⟨secretName, environment, rfl, rfl⟩
  | advance i answer =>
      simp only [step] at hstep
      split at hstep
      · cases hstep
      · rename_i call' e? hnext
        obtain ⟨call, hcall, hnext⟩ := Option.bind_eq_some_iff.mp hnext
        obtain ⟨latch, hact, rfl⟩ := Option.map_eq_some_iff.mp hstep
        exact .inr ⟨i, answer, call, call', e?, latch, rfl, hcall, Call.next_moves hnext, hact, rfl⟩

/-! ## 3. What holds in every run -/

/-- The logins that had been made when the call cleared the flag. -/
def Attempt.seen : Attempt → ℕ
  | .first => 0
  | .retry seen => seen

def Attempt.retries : Attempt → Bool
  | .first => false
  | .retry _ => true

/-- The call has the lock. -/
def Phase.holds : Phase → Bool
  | .rechecking => true
  | .loggingIn => true
  | .loggedIn => true
  | .unlocking => true
  | _ => false

/-- The call has found that it has to log in. -/
def Phase.makes : Phase → Bool
  | .loggingIn => true
  | .loggedIn => true
  | _ => false

/-- The call has credentials. -/
def Phase.knocks (phase : Phase) : Bool :=
  phase.holds || match phase with
    | .locking => true
    | _ => false

/-- A flag that is set now was set after this call has cleared it. -/
def Attempt.Waits (latch : Latch Unit) (attempt : Attempt) : Prop :=
  attempt.seen ≤ latch.made ∧ (latch.value.isSome → attempt.seen < latch.made)

variable (manager) in
def Call.Ready (latch : Latch Unit) (call : Call) : Prop :=
  match call.phase with
  | .unlocking | .sending => call.attempt.seen < latch.made
  | .fetching request logins => call.attempt.seen < logins ∧ logins ≤ latch.made ∧
      request = manager.fetchRequest call.secretName call.environment
  | .failed => call.attempt.retries = false
  | .done _ => True
  | _ => call.attempt.Waits latch

theorem Attempt.Waits.act {attempt : Attempt} (h : attempt.Waits latch)
    (hact : latch.act e? = some latch') : attempt.Waits latch' := by
  have hmade := Latch.made_le_of_act hact
  refine ⟨Nat.le_trans h.1 hmade, fun hset => ?_⟩
  rcases Latch.made_lt_of_act hact hset with hold | hnew
  · exact Nat.lt_of_lt_of_le (h.2 hold) hmade
  · exact Nat.lt_of_le_of_lt h.1 hnew

theorem Call.Ready.act (h : call.Ready manager latch) (hact : latch.act e? = some latch') :
    call.Ready manager latch' := by
  have hmade := Latch.made_le_of_act hact
  unfold Call.Ready at h ⊢
  split at h
  · exact Nat.lt_of_lt_of_le h hmade
  · exact Nat.lt_of_lt_of_le h hmade
  · exact ⟨h.1, Nat.le_trans h.2.1 hmade, h.2.2⟩
  · exact h
  · trivial
  · exact h.act hact

/-- A call goes on to its fetch only past a login that it has not seen fail. -/
theorem Call.Ready.moves (h : call.Ready manager latch) (hmoves : call.Moves manager i latch call' e?)
    (hact : latch.act e? = some latch') : call'.Ready manager latch' := by
  have hold := h.act hact
  unfold Call.Ready at h hold
  cases hmoves with
  | known here set =>
      rw [here] at h
      obtain rfl := Latch.act_none_iff.mp hact
      exact h.2 set
  | unconfigured here => trivial
  | waits here configured =>
      rw [here] at hold
      exact hold
  | acquires here =>
      rw [here] at hold
      exact hold
  | knownInside here set =>
      rw [here] at h
      exact Nat.lt_of_lt_of_le (h.2 set) (Latch.made_le_of_act hact)
  | logsIn here =>
      rw [here] at hold
      exact hold
  | loggedIn here =>
      rw [here] at hold
      exact hold
  | refused here e => trivial
  | registers here =>
      -- one more login than before
      rw [here] at h
      obtain ⟨-, -, rfl⟩ := Latch.step_set_iff.mp hact
      exact Nat.lt_succ_of_le h.1
  | unlocks here =>
      rw [here] at hold
      exact hold
  | sends here =>
      rw [here] at h
      obtain rfl := Latch.act_none_iff.mp hact
      exact ⟨h, Nat.le_refl _, rfl⟩
  | answered here outcome => trivial
  | fetchFails here first =>
      show call.attempt.retries = false
      rw [first]
      rfl
  | drops here =>
      -- the flag is not set now
      obtain rfl := Latch.step_drop_iff.mp hact
      exact ⟨Nat.le_refl _, nofun⟩

variable (manager) in
structure Inv (w : World) : Prop where
  latch : w.latch.Inv
  known : w.latch.value.isSome → 0 < w.latch.made
  holder : ∀ i : ℕ, w.latch.holder = some i ↔
    ∃ call, w.calls[i]? = some call ∧ call.phase.holds = true
  making : ∀ (i : ℕ) (call : Call), w.calls[i]? = some call → call.phase.makes = true →
    w.latch.making = true
  ready : ∀ call ∈ w.calls, call.Ready manager w.latch
  configured : (0 < w.latch.made → manager.configured = true) ∧
    ∀ call ∈ w.calls, call.phase.knocks = true → manager.configured = true
  dropped : w.latch.dropped = w.calls.countP (·.attempt.retries)

theorem inv_initial : Inv manager .initial where
  latch := Latch.inv_empty
  known := nofun
  holder i := by simp [World.initial, Latch.empty]
  making := nofun
  ready := nofun
  configured := ⟨nofun, nofun⟩
  dropped := rfl

/-- Only with the lock does a call enter and leave it. -/
theorem Call.Moves.holds (hmoves : call.Moves manager i latch call' e?)
    (hact : latch.act e? = some latch') :
    (latch.holder = none ∧ latch'.holder = some i ∧ call'.phase.holds = true) ∨
    (latch.holder = some i ∧ latch'.holder = none ∧ call'.phase.holds = false) ∨
    (latch'.holder = latch.holder ∧ call'.phase.holds = call.phase.holds) := by
  cases hmoves with
  | acquires here =>
      obtain ⟨hfree, rfl⟩ := Latch.step_acquire_iff.mp hact
      exact .inl ⟨hfree, rfl, rfl⟩
  | knownInside here set =>
      obtain ⟨hheld, rfl⟩ := Latch.step_release_iff.mp hact
      exact .inr (.inl ⟨hheld, rfl, rfl⟩)
  | refused here e =>
      obtain ⟨hheld, rfl⟩ := Latch.step_release_iff.mp hact
      exact .inr (.inl ⟨hheld, rfl, rfl⟩)
  | unlocks here =>
      obtain ⟨hheld, rfl⟩ := Latch.step_release_iff.mp hact
      exact .inr (.inl ⟨hheld, rfl, rfl⟩)
  | logsIn here =>
      obtain ⟨-, -, rfl⟩ := Latch.step_make_iff.mp hact
      exact .inr (.inr ⟨rfl, by rw [here]; rfl⟩)
  | registers here =>
      obtain ⟨-, -, rfl⟩ := Latch.step_set_iff.mp hact
      exact .inr (.inr ⟨rfl, by rw [here]; rfl⟩)
  | drops here =>
      obtain rfl := Latch.step_drop_iff.mp hact
      exact .inr (.inr ⟨rfl, by rw [here]; rfl⟩)
  | _ =>
      obtain rfl := Latch.act_none_iff.mp hact
      exact .inr (.inr ⟨rfl, by simp [*, Phase.holds]⟩)

theorem Call.Moves.by (hmoves : call.Moves manager i latch call' e?) : ∀ e ∈ e?, e.By i := by
  cases hmoves with
  | acquires here => exact fun _ he => Option.some.inj he ▸ rfl
  | knownInside here set => exact fun _ he => Option.some.inj he ▸ rfl
  | logsIn here => exact fun _ he => Option.some.inj he ▸ rfl
  | refused here e => exact fun _ he => Option.some.inj he ▸ rfl
  | registers here => exact fun _ he => Option.some.inj he ▸ rfl
  | unlocks here => exact fun _ he => Option.some.inj he ▸ rfl
  | drops here => exact fun _ he => Option.some.inj he ▸ trivial
  | _ => exact nofun

/-- Who makes a login holds the latch at it. -/
theorem Call.Moves.makes (hmoves : call.Moves manager i latch call' e?)
    (hact : latch.act e? = some latch') (hmaking : call.phase.makes = true → latch.making = true)
    (hmakes : call'.phase.makes = true) : latch'.making = true := by
  cases hmoves with
  | logsIn here =>
      obtain ⟨-, -, rfl⟩ := Latch.step_make_iff.mp hact
      rfl
  | loggedIn here =>
      obtain rfl := Latch.act_none_iff.mp hact
      exact hmaking (by rw [here]; rfl)
  | _ => cases hmakes

theorem Call.Moves.knocks (hmoves : call.Moves manager i latch call' e?)
    (hconfigured : call.phase.knocks = true → manager.configured = true)
    (hknocks : call'.phase.knocks = true) : manager.configured = true := by
  cases hmoves with
  | waits here configured => exact configured
  | acquires here => exact hconfigured (by rw [here]; rfl)
  | logsIn here => exact hconfigured (by rw [here]; rfl)
  | loggedIn here => exact hconfigured (by rw [here]; rfl)
  | registers here => exact hconfigured (by rw [here]; rfl)
  | _ => cases hknocks

/-- The flag is set by a login only, and cleared by a call that retries. -/
theorem Call.Moves.counts (hmoves : call.Moves manager i latch call' e?)
    (hact : latch.act e? = some latch') :
    (latch'.made ≠ latch.made → call.phase = .loggedIn) ∧
      (latch'.dropped = latch.dropped ∧ call'.attempt = call.attempt ∨
        latch'.dropped = latch.dropped + 1 ∧ call.phase = .failed ∧ call'.attempt.retries = true) := by
  cases hmoves with
  | registers here =>
      obtain ⟨-, -, rfl⟩ := Latch.step_set_iff.mp hact
      exact ⟨fun _ => here, .inl ⟨rfl, rfl⟩⟩
  | drops here =>
      obtain rfl := Latch.step_drop_iff.mp hact
      exact ⟨fun hne => absurd rfl hne, .inr ⟨rfl, here, rfl⟩⟩
  | acquires here =>
      obtain ⟨-, rfl⟩ := Latch.step_acquire_iff.mp hact
      exact ⟨fun hne => absurd rfl hne, .inl ⟨rfl, rfl⟩⟩
  | logsIn here =>
      obtain ⟨-, -, rfl⟩ := Latch.step_make_iff.mp hact
      exact ⟨fun hne => absurd rfl hne, .inl ⟨rfl, rfl⟩⟩
  | knownInside here set =>
      obtain ⟨-, rfl⟩ := Latch.step_release_iff.mp hact
      exact ⟨fun hne => absurd rfl hne, .inl ⟨rfl, rfl⟩⟩
  | refused here e =>
      obtain ⟨-, rfl⟩ := Latch.step_release_iff.mp hact
      exact ⟨fun hne => absurd rfl hne, .inl ⟨rfl, rfl⟩⟩
  | unlocks here =>
      obtain ⟨-, rfl⟩ := Latch.step_release_iff.mp hact
      exact ⟨fun hne => absurd rfl hne, .inl ⟨rfl, rfl⟩⟩
  | _ =>
      obtain rfl := Latch.act_none_iff.mp hact
      exact ⟨fun hne => absurd rfl hne, .inl ⟨rfl, rfl⟩⟩

theorem Inv.arrive (h : Inv manager w) (secretName : String) (environment : Option String) :
    Inv manager { w with calls := w.calls ++ [⟨secretName, environment, .first, .checking⟩] } where
  latch := h.latch
  known := h.known
  holder j := by
    rw [h.holder j]
    constructor
    · rintro ⟨call, hcall, hholds⟩
      exact ⟨call, List.getElem?_append_left (List.getElem?_eq_some_iff.mp hcall).1 ▸ hcall, hholds⟩
    · rintro ⟨call, hcall, hholds⟩
      rcases getElem?_append_singleton_cases hcall with hold | ⟨-, rfl⟩
      · exact ⟨call, hold, hholds⟩
      · cases hholds
  making j call hcall hmakes := by
    rcases getElem?_append_singleton_cases hcall with hold | ⟨-, rfl⟩
    · exact h.making j call hold hmakes
    · cases hmakes
  ready call hcall := by
    rcases List.mem_append.mp hcall with hold | hnew
    · exact h.ready call hold
    · rw [List.mem_singleton.mp hnew]
      exact ⟨Nat.zero_le _, h.known⟩
  configured := by
    refine ⟨h.configured.1, fun call hcall hknocks => ?_⟩
    rcases List.mem_append.mp hcall with hold | hnew
    · exact h.configured.2 call hold hknocks
    · rw [List.mem_singleton.mp hnew] at hknocks
      cases hknocks
  dropped := by
    rw [List.countP_append, h.dropped]
    rfl

/-- The lock is held by the call that says so. -/
theorem Inv.holder_move (h : Inv manager w) (hcall : w.calls[i]? = some call)
    (hmoves : call.Moves manager i w.latch call' e?) (hact : w.latch.act e? = some latch) (j : ℕ) :
    latch.holder = some j ↔
      ∃ other, (w.calls.set i call')[j]? = some other ∧ other.phase.holds = true := by
  have hbefore := h.holder j
  by_cases hij : i = j
  · subst hij
    -- its own place says what the lock says
    rw [hcall] at hbefore
    rw [List.getElem?_set_self (List.getElem?_eq_some_iff.mp hcall).1]
    simp only [Option.some.injEq, exists_eq_left'] at hbefore ⊢
    rcases hmoves.holds hact with ⟨-, hheld, hholds⟩ | ⟨-, hfree, hholds⟩ | ⟨hsame, hholds⟩
    · exact iff_of_true hheld hholds
    · exact iff_of_false (by rw [hfree]; nofun) (by rw [hholds]; nofun)
    · rw [hsame, hholds]
      exact hbefore
  · rw [List.getElem?_set_ne hij, ← hbefore]
    -- and no other place has it then
    rcases hmoves.holds hact with ⟨hfree, hheld, -⟩ | ⟨hheld, hfree, -⟩ | ⟨hsame, -⟩
    · rw [hfree, hheld]
      exact iff_of_false (by simpa using hij) nofun
    · rw [hfree, hheld]
      exact iff_of_false nofun (by simpa using hij)
    · rw [hsame]

theorem Inv.move (h : Inv manager w) (hcall : w.calls[i]? = some call)
    (hmoves : call.Moves manager i w.latch call' e?) (hact : w.latch.act e? = some latch) :
    Inv manager { latch, calls := w.calls.set i call' } := by
  have hmem : call ∈ w.calls := List.mem_of_getElem? hcall
  have hself : (w.calls.set i call')[i]? = some call' :=
    List.getElem?_set_self (List.getElem?_eq_some_iff.mp hcall).1
  have hother {j : ℕ} (hij : i ≠ j) : (w.calls.set i call')[j]? = w.calls[j]? :=
    List.getElem?_set_ne hij
  obtain ⟨hmade, hdropped⟩ := hmoves.counts hact
  constructor
  case latch => exact h.latch.act hact
  case known =>
    intro hset
    rcases Latch.made_lt_of_act hact hset with hold | hnew
    · exact Nat.lt_of_lt_of_le (h.known hold) (Latch.made_le_of_act hact)
    · exact Nat.lt_of_le_of_lt (Nat.zero_le _) hnew
  case holder => exact h.holder_move hcall hmoves hact
  case making =>
    intro j other hplace hmakes
    by_cases hij : i = j
    · subst hij
      obtain rfl := Option.some.inj (hself.symm.trans hplace)
      exact hmoves.makes hact (h.making i call hcall) hmakes
    · rw [hother hij] at hplace
      have hholds : other.phase.holds = true := by
        cases hphase : other.phase <;> simp_all [Phase.makes, Phase.holds]
      have hheld : w.latch.holder = some j := (h.holder j).mpr ⟨other, hplace, hholds⟩
      rw [(Latch.act_of_holder_ne hact hmoves.by hheld hij).2]
      exact h.making j other hplace hmakes
  case ready =>
    intro other hplace
    rcases List.mem_or_eq_of_mem_set hplace with hold | rfl
    · exact (h.ready other hold).act hact
    · exact (h.ready call hmem).moves hmoves hact
  case configured =>
    refine ⟨fun hpos => ?_, fun other hplace hknocks => ?_⟩
    · by_cases hsame : latch.made = w.latch.made
      · exact h.configured.1 (hsame ▸ hpos)
      · exact h.configured.2 call hmem (by rw [hmade hsame]; rfl)
    · rcases List.mem_or_eq_of_mem_set hplace with hold | rfl
      · exact h.configured.2 other hold hknocks
      · exact hmoves.knocks (h.configured.2 call hmem) hknocks
  case dropped =>
    rcases hdropped with ⟨hsame, hattempt⟩ | ⟨hone, hfailed, hretries⟩
    · rw [hsame, h.dropped, countP_set_of_eq hcall (by rw [hattempt])]
    · have hfirst : call.attempt.retries = false := by
        have hready := h.ready call hmem
        rw [Call.Ready, hfailed] at hready
        exact hready
      have hcount := countP_set_add (q := (·.attempt.retries)) hcall call'
      rw [hfirst, hretries] at hcount
      rw [hone, h.dropped]
      exact hcount.symm

theorem Inv.step (h : Inv manager w) (hstep : step manager w e = some w') : Inv manager w' := by
  rcases step_cases hstep with ⟨secretName, environment, -, rfl⟩ |
    ⟨i, answer, call, call', e?, latch, -, hcall, hmoves, hact, rfl⟩
  · exact h.arrive secretName environment
  · exact h.move hcall hmoves hact

theorem Inv.of_run (hrun : Run (Vault.step manager) .initial es w) : Inv manager w :=
  hrun.invariant inv_initial fun _ _ _ h hstep => h.step hstep

/-! ## 4. Logins and fetches -/

variable (manager) in
/-- One login at a time; no request without credentials; one login, and one more for each call that
retries; a fetch for what the call asks, after a login, and the second after one since the first has
failed. -/
structure Orderly (w : World) : Prop where
  oneLogin : ∀ (i j : ℕ) (call call' : Call), w.calls[i]? = some call → w.calls[j]? = some call' →
    call.phase = .loggingIn → call'.phase = .loggingIn → i = j
  credentials : ∀ call ∈ w.calls, (call.phase = .loggingIn ∨
    ∃ request logins, call.phase = .fetching request logins) → manager.configured = true
  logins : w.latch.made ≤ 1 + w.calls.countP (·.attempt.retries)
  fetches : ∀ call ∈ w.calls, ∀ request logins, call.phase = .fetching request logins →
    request = manager.fetchRequest call.secretName call.environment ∧ call.attempt.seen < logins

/-- **Logins are made when they have to be.**  Whatever threads ask for secrets at the same time, and
whatever Vault answers. -/
theorem orderly_of_run (hrun : Run (Vault.step manager) .initial es w) : Orderly manager w := by
  have h := Inv.of_run hrun
  have hfetching : ∀ call ∈ w.calls, ∀ request logins, call.phase = .fetching request logins →
      call.attempt.seen < logins ∧ logins ≤ w.latch.made ∧
        request = manager.fetchRequest call.secretName call.environment := by
    intro call hcall request logins hphase
    have hready := h.ready call hcall
    rw [Call.Ready, hphase] at hready
    exact hready
  constructor
  case oneLogin =>
    intro i j call call' hcall hcall' hphase hphase'
    -- both have the lock
    have hi : w.latch.holder = some i := (h.holder i).mpr ⟨call, hcall, by rw [hphase]; rfl⟩
    have hj : w.latch.holder = some j := (h.holder j).mpr ⟨call', hcall', by rw [hphase']; rfl⟩
    exact Option.some.inj (hi.symm.trans hj)
  case credentials =>
    rintro call hcall (hphase | ⟨request, logins, hphase⟩)
    · exact h.configured.2 call hcall (by rw [hphase]; rfl)
    · obtain ⟨hseen, hmade, -⟩ := hfetching call hcall request logins hphase
      exact h.configured.1 (Nat.lt_of_lt_of_le (Nat.zero_lt_of_lt hseen) hmade)
  case logins =>
    have hmade := h.latch.made_le
    rw [h.dropped] at hmade
    omega
  case fetches =>
    intro call hcall request logins hphase
    obtain ⟨hseen, -, hrequest⟩ := hfetching call hcall request logins hphase
    exact ⟨hrequest, hseen⟩

/-! ## 5. Every call comes to an end -/

/-- How many steps a call still takes, at most. -/
def Call.work (call : Call) : ℕ :=
  let more := if call.attempt.retries then 0 else 9
  match call.phase with
  | .checking => 8 + more
  | .locking => 7 + more
  | .rechecking => 6 + more
  | .loggingIn => 5 + more
  | .loggedIn => 4 + more
  | .unlocking => 3 + more
  | .sending => 2 + more
  | .fetching _ _ => 1 + more
  | .failed => 9
  | .done _ => 0

theorem Call.work_le (call : Call) : call.work ≤ 17 := by
  have hmore : (if call.attempt.retries then 0 else 9) ≤ 9 := by split <;> omega
  unfold Call.work
  cases call.phase <;> dsimp only <;> omega

def World.work (w : World) : ℕ := (w.calls.map Call.work).sum

def Event.Arrives : Event → Prop
  | .getSecret _ _ => True
  | .advance _ _ => False

theorem Call.Moves.work_lt (hmoves : call.Moves manager i latch call' e?) :
    call'.work < call.work := by
  cases hmoves with
  | fetchFails here first => simp [Call.work, here, first, Attempt.retries]
  | drops here => simp [Call.work, here, Attempt.retries]
  | _ => simp [Call.work, *]

theorem step_spends : Spends (Vault.step manager) (fun e => ¬ e.Arrives) World.work := by
  intro w e w' hown hstep
  rcases step_cases hstep with ⟨secretName, environment, rfl, -⟩ |
    ⟨i, answer, call, call', e?, latch, -, hcall, hmoves, -, rfl⟩
  · exact absurd trivial hown
  · have hsum := sum_map_set Call.work hcall call'
    have hless := hmoves.work_lt
    unfold World.work
    dsimp only
    omega

theorem step_isSome (hcall : w.calls[i]? = some call)
    (hnext : call.next manager i w.latch answer = some (call', e?))
    (hact : w.latch.act e? = some latch) : (Vault.step manager w (.advance i answer)).isSome := by
  simp [Vault.step, hcall, hnext, hact]

/-- Who has the lock can go on. -/
theorem Inv.exists_step_of_holds (h : Inv manager w) (hcall : w.calls[i]? = some call)
    (hholds : call.phase.holds = true) :
    ∃ answer, (Vault.step manager w (.advance i answer)).isSome := by
  have hheld : w.latch.holder = some i := (h.holder i).mpr ⟨call, hcall, hholds⟩
  have hrelease : w.latch.act (some (.release i)) = some _ :=
    Latch.step_release_iff.mpr ⟨hheld, rfl⟩
  cases hphase : call.phase with
  | rechecking =>
      refine ⟨.nothing, ?_⟩
      by_cases hset : w.latch.value.isSome
      · have hnext : call.next manager i w.latch .nothing =
            some ({ call with phase := .sending }, some (.release i)) := by
          simp [Call.next, hphase, hset]
        exact step_isSome hcall hnext hrelease
      · have hnext : call.next manager i w.latch .nothing =
            some ({ call with phase := .loggingIn }, some (.make i)) := by
          simp [Call.next, hphase, hset]
        have hmake : w.latch.act (some (.make i)) = some _ :=
          Latch.step_make_iff.mpr ⟨hheld, by simpa using hset, rfl⟩
        exact step_isSome hcall hnext hmake
  | loggingIn =>
      have hnext : call.next manager i w.latch (.login (.ok ())) =
          some ({ call with phase := .loggedIn }, none) := by
        simp [Call.next, hphase]
      exact ⟨_, step_isSome hcall hnext rfl⟩
  | loggedIn =>
      have hnext : call.next manager i w.latch .nothing =
          some ({ call with phase := .unlocking }, some (.set i ())) := by
        simp [Call.next, hphase]
      have hset : w.latch.act (some (.set i ())) = some _ :=
        Latch.step_set_iff.mpr ⟨hheld, h.making i call hcall (by rw [hphase]; rfl), rfl⟩
      exact ⟨_, step_isSome hcall hnext hset⟩
  | unlocking =>
      have hnext : call.next manager i w.latch .nothing =
          some ({ call with phase := .sending }, some (.release i)) := by
        simp [Call.next, hphase]
      exact ⟨_, step_isSome hcall hnext hrelease⟩
  | _ =>
      rw [hphase] at hholds
      cases hholds

/-- As long as a call is not over, some call can go on. -/
theorem Inv.exists_step (h : Inv manager w) (hcall : w.calls[i]? = some call)
    (hopen : ∀ outcome, call.phase ≠ .done outcome) :
    ∃ j answer, (Vault.step manager w (.advance j answer)).isSome := by
  by_cases hholds : call.phase.holds = true
  · exact ⟨i, h.exists_step_of_holds hcall hholds⟩
  cases hphase : call.phase with
  | checking =>
      refine ⟨i, .nothing, ?_⟩
      simp only [Vault.step, hcall, Option.bind_some, Call.next, hphase]
      split_ifs <;> rfl
  | locking =>
      cases hholder : w.latch.holder with
      | none =>
          have hnext : call.next manager i w.latch .nothing =
              some ({ call with phase := .rechecking }, some (.acquire i)) := by
            simp [Call.next, hphase]
          have hacquire : w.latch.act (some (.acquire i)) = some _ :=
            Latch.step_acquire_iff.mpr ⟨hholder, rfl⟩
          exact ⟨i, _, step_isSome hcall hnext hacquire⟩
      | some j =>
          -- it waits for one that can go on
          obtain ⟨other, hother, hheld⟩ := (h.holder j).mp hholder
          exact ⟨j, h.exists_step_of_holds hother hheld⟩
  | sending =>
      refine ⟨i, .nothing, ?_⟩
      simp only [Vault.step, hcall, Option.bind_some, Call.next, hphase]
      rfl
  | fetching request logins =>
      refine ⟨i, .fetch (.ok ""), ?_⟩
      simp only [Vault.step, hcall, Option.bind_some, Call.next, hphase]
      rfl
  | failed =>
      refine ⟨i, .nothing, ?_⟩
      simp only [Vault.step, hcall, Option.bind_some, Call.next, hphase]
      rfl
  | done outcome => exact absurd hphase (hopen outcome)
  | _ => simp [hphase, Phase.holds] at hholds

/-- **Every call comes to an end.**  From any state that is reached, a schedule of the calls under way
takes no more steps than the work that is left, at most seventeen for a call; and where none of them
can go on, each has returned a secret or raised. -/
theorem calls_end {es' : List Event} (hrun : Run (Vault.step manager) .initial es w)
    (hrest : Run (Vault.step manager) w es' w') (hown : ∀ e ∈ es', ¬ e.Arrives) :
    es'.length ≤ w.work ∧ w.work ≤ 17 * w.calls.length ∧
      ((∀ i answer, Vault.step manager w' (.advance i answer) = none) →
        ∀ call ∈ w'.calls, ∃ outcome, call.phase = .done outcome) := by
  refine ⟨?_, ?_, ?_⟩
  · have hlength := hrest.length_add_le step_spends hown
    omega
  · exact sum_map_le Call.work_le w.calls
  · intro hstuck call hcall
    by_contra hopen
    push Not at hopen
    obtain ⟨i, hplace⟩ := List.mem_iff_getElem?.mp hcall
    have hinv : Inv manager w' := Inv.of_run (run_append_iff.mpr ⟨w, hrun, hrest⟩)
    obtain ⟨j, answer, hsome⟩ := hinv.exists_step hplace hopen
    rw [hstuck j answer] at hsome
    cases hsome

end

/-! ## 6. Two threads -/

def configuredManager : InfisicalVaultManager := .init fun name =>
  if name = "INFISICAL_CLIENT_ID" then some "ledger"
  else if name = "INFISICAL_CLIENT_SECRET" then some "s3cret"
  else none

def twoCalls : List Event :=
  [.getSecret "SECRET_KEY" none, .getSecret "DB_PASSWORD" (some "prod")]

/-- The first thread logs in and the second waits; its fetch fails, and it logs in anew. -/
def expiredToken : List Event :=
  [.advance 0 .nothing, .advance 1 .nothing, .advance 0 .nothing, .advance 0 .nothing,
    .advance 0 (.login (.ok ())), .advance 0 .nothing, .advance 0 .nothing, .advance 1 .nothing,
    .advance 1 .nothing, .advance 1 .nothing, .advance 1 (.fetch (.error .infisicalError)),
    .advance 1 .nothing, .advance 1 .nothing, .advance 1 .nothing, .advance 1 .nothing,
    .advance 1 (.login (.ok ())), .advance 1 .nothing, .advance 1 .nothing, .advance 1 .nothing]

theorem orderly_of_run_expiredToken : ∃ w,
    Run (Vault.step configuredManager) .initial (twoCalls ++ expiredToken) w ∧
      w.latch.made = 2 ∧ w.calls.countP (·.attempt.retries) = 1 ∧ Orderly configuredManager w := by
  have hvalues : (exec (Vault.step configuredManager) .initial (twoCalls ++ expiredToken)).map
      (fun w => (w.latch.made, w.calls.countP (·.attempt.retries))) = some (2, 1) := by
    decide +kernel
  obtain ⟨w, hrun, hw⟩ := Option.map_eq_some_iff.mp hvalues
  obtain ⟨hmade, hretries⟩ := Prod.mk.inj hw
  exact ⟨w, hrun, hmade, hretries, orderly_of_run hrun⟩

theorem calls_end_expiredToken : ∃ w w',
    Run (Vault.step configuredManager) .initial twoCalls w ∧
      Run (Vault.step configuredManager) w expiredToken w' ∧ expiredToken.length ≤ w.work ∧
        w.work ≤ 17 * w.calls.length ∧
          ((∀ i answer, Vault.step configuredManager w' (.advance i answer) = none) →
            ∀ call ∈ w'.calls, ∃ outcome, call.phase = .done outcome) := by
  have hruns : ((exec (Vault.step configuredManager) .initial twoCalls).bind fun w =>
      exec (Vault.step configuredManager) w expiredToken).isSome := by decide +kernel
  obtain ⟨w', hruns⟩ := Option.isSome_iff_exists.mp hruns
  obtain ⟨w, hcalled, hrun⟩ := Option.bind_eq_some_iff.mp hruns
  refine ⟨w, w', hcalled, hrun, calls_end hcalled hrun ?_⟩
  unfold expiredToken
  simp [Event.Arrives]

end DjasktTrading.Extensions.Vault
