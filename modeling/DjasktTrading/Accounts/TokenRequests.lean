import DjasktTrading.Accounts.Revocation

/-!
# Token requests — refreshes and logouts in steps

`refresh`, `logout` and `logout_all` between the clock, the denylist and the database: each step reads
or writes one of them, and the steps of all requests interleave.
-/

open Reasoning

namespace DjasktTrading.Accounts.Clocked.Rotation

/-! ## 1. Steps of a request -/

/-- Where a refresh stands; its `remaining_ttl` is of what the clock showed at `read`. -/
inductive RefreshPhase (τ : Type) where
  | verify
  | checkDenylist
  | loadUser
  | readClock
  | writeDenylist (read : τ)
  | mint
  | answered (response : Response)
  /-- `User.DoesNotExist` -/
  | raised

/-- Where `validate_and_get_user` stands. -/
inductive BearerCheck where
  | decode
  | isDenied
  | isDeniedForUser
deriving DecidableEq

/-- Where a logout stands; `now_ts` is what the clock showed at `read`. -/
inductive LogoutPhase (τ : Type) where
  | authenticate (check : BearerCheck)
  | readClock
  | decodeAccess (read : τ)
  | denyAccess (read : τ) (token : Token)
  | decodeRefresh (read : τ)
  | denyRefresh (read : τ) (token : Token)
  /-- about to return; of the refresh token that it was given, it has been issued -/
  | returning (named : Option Token)
  | answered (response : Response)

/-- Where a logout from everywhere stands. -/
inductive LogoutAllPhase where
  | authenticate (check : BearerCheck)
  | readClock
  | writeCutoff (cutoff : ℕ)
  | answered (response : Response)

variable {τ : Type} [LinearOrder τ] (c : Clock τ)

/-- The next step of `validate_and_get_user`: it is still `checking`, the token has `passed`, or it is
`rejected`. -/
def BearerCheck.next {α : Type} (server : Server τ) (now : τ) (token : Token)
    (checking : BearerCheck → α) (passed : α) (rejected : Response → α) : BearerCheck → α
  | .decode =>
      match Clocked.decode c server.signed now .access token with
      | .error e => rejected (InvalidToken.token e).response
      | .ok _ => checking .isDenied
  | .isDenied =>
      if Clocked.isDenied server.redis now token.jti then
        rejected (InvalidToken.detail "Token has been revoked.").response
      else checking .isDeniedForUser
  | .isDeniedForUser =>
      if Clocked.isDeniedForUser server.redis now token.userId token.iat then
        rejected
          (InvalidToken.detail "All sessions for this account have been logged out.").response
      else passed

/-- The next step of `refresh`; `pair` is what it mints if it does. -/
def RefreshPhase.next (server : Server τ) (now : τ) (oldRefresh : Token) (pair : TokenPair) :
    RefreshPhase τ → RefreshPhase τ × Server τ
  | .verify =>
      match decode c server.signed now .refresh oldRefresh with
      | .error e => (.answered ⟨401, .tokenError e⟩, server)
      | .ok _ => (.checkDenylist, server)
  | .checkDenylist =>
      if isDenied server.redis now oldRefresh.jti then
        (.answered ⟨401, .detail "Refresh token has been revoked."⟩, server)
      else (.loadUser, server)
  | .loadUser => (.readClock, server)
  | .readClock => (.writeDenylist now, server)
  | .writeDenylist read => (.mint, server.denyToken c now (c.units read) oldRefresh)
  | .mint => (.answered ⟨200, .tokens pair⟩, server.sign pair)
  | .answered response => (.answered response, server)
  | .raised => (.raised, server)

/-- The next step of `logout`. -/
def LogoutPhase.next (server : Server τ) (now : τ) (bearer : Token)
    (access refresh : Option Token) : LogoutPhase τ → LogoutPhase τ × Server τ
  | .authenticate check =>
      (check.next c server now bearer .authenticate .readClock .answered, server)
  | .readClock => (.decodeAccess now, server)
  | .decodeAccess read =>
      match access with
      | none => (.decodeRefresh read, server)
      | some token =>
          match decode c server.signed now .access token with
          | .error _ => (.decodeRefresh read, server)
          | .ok _ => (.denyAccess read token, server)
  | .denyAccess read token => (.decodeRefresh read, server.denyToken c now (c.units read) token)
  | .decodeRefresh read =>
      match refresh with
      | none => (.returning none, server)
      | some token =>
          match decode c server.signed now .refresh token with
          | .error _ =>
              let issued := token ∈ server.signed ∧ token.tokenType = .refresh
              (.returning (if issued then some token else none), server)
          | .ok _ => (.denyRefresh read token, server)
  | .denyRefresh read token =>
      (.returning (some token), server.denyToken c now (c.units read) token)
  | .returning _ => (.answered ⟨200, .detail "Logged out."⟩, server)
  | .answered response => (.answered response, server)

/-- The next step of `logout_all`. -/
def LogoutAllPhase.next (server : Server τ) (now : τ) (bearer : Token) :
    LogoutAllPhase → LogoutAllPhase × Server τ
  | .authenticate check =>
      (check.next c server now bearer .authenticate .readClock .answered, server)
  | .readClock => (.writeCutoff (c.units now), server)
  | .writeCutoff cutoff =>
      (.answered ⟨200, .detail "Logged out of all sessions."⟩,
        { server with redis := denyAllForUser c server.redis now bearer.userId cutoff })
  | .answered response => (.answered response, server)

/-- Steps in a row are the refresh of the endpoint. -/
theorem RefreshPhase.iterate_next (server : Server τ) (now : τ) (oldRefresh : Token)
    (pair : TokenPair) :
    (fun r : RefreshPhase τ × Server τ => r.1.next c r.2 now oldRefresh pair)^[6] (.verify, server) =
      Prod.map RefreshPhase.answered id
        (AuthController.refresh c server now oldRefresh pair) := by
  unfold AuthController.refresh
  cases hdecode : decode c server.signed now .refresh oldRefresh with
  | error e => simp [RefreshPhase.next, hdecode]
  | ok u =>
      cases hdenied : isDenied server.redis now oldRefresh.jti with
      | true => simp [RefreshPhase.next, hdecode, hdenied]
      | false => simp [RefreshPhase.next, hdecode, hdenied, Server.revoke]

/-- The token is rejected, or it has come one step further. -/
theorem BearerCheck.next_cases {α : Type} (server : Server τ) (now : τ) (token : Token)
    (checking : BearerCheck → α) (passed : α) (rejected : Response → α) (check : BearerCheck) :
    (∃ response, check.next c server now token checking passed rejected = rejected response) ∨
      (check = .decode ∧ Clocked.decode c server.signed now .access token = .ok () ∧
        check.next c server now token checking passed rejected = checking .isDenied) ∨
      (check = .isDenied ∧ Clocked.isDenied server.redis now token.jti = false ∧
        check.next c server now token checking passed rejected = checking .isDeniedForUser) ∨
      (check = .isDeniedForUser ∧
        Clocked.isDeniedForUser server.redis now token.userId token.iat = false ∧
          check.next c server now token checking passed rejected = passed) := by
  cases check with
  | decode =>
      cases hdecode : Clocked.decode c server.signed now .access token with
      | error e =>
          exact .inl ⟨(InvalidToken.token e).response, by simp only [BearerCheck.next, hdecode]⟩
      | ok u => exact .inr (.inl ⟨rfl, rfl, by simp only [BearerCheck.next, hdecode]⟩)
  | isDenied =>
      cases hdenied : Clocked.isDenied server.redis now token.jti with
      | true => exact .inl ⟨_, if_pos hdenied⟩
      | false => exact .inr (.inr (.inl ⟨rfl, rfl, if_neg (by simp [hdenied])⟩))
  | isDeniedForUser =>
      cases hcut : Clocked.isDeniedForUser server.redis now token.userId token.iat with
      | true => exact .inl ⟨_, if_pos hcut⟩
      | false => exact .inr (.inr (.inr ⟨rfl, rfl, if_neg (by simp [hcut])⟩))

theorem BearerCheck.next_map {α β : Type} (g : α → β) (server : Server τ) (now : τ) (token : Token)
    (checking : BearerCheck → α) (passed : α) (rejected : Response → α) (check : BearerCheck) :
    g (check.next c server now token checking passed rejected) =
      check.next c server now token (g ∘ checking) (g passed) (g ∘ rejected) := by
  cases check with
  | decode =>
      simp only [BearerCheck.next]
      split
      · rfl
      · rfl
  | isDenied => exact apply_ite g _ _ _
  | isDeniedForUser => exact apply_ite g _ _ _

/-- Steps in a row are the check of the bearer token. -/
theorem BearerCheck.iterate_next {α : Type} {f : α → α} (server : Server τ) (now : τ) (token : Token)
    (checking : BearerCheck → α) (passed : α) (rejected : Response → α)
    (hf : ∀ check, f (checking check) = check.next c server now token checking passed rejected) :
    ∃ n, f^[n] (checking .decode) =
      match validateAndGetUser c server now token with
      | .error e => rejected e.response
      | .ok _ => passed := by
  unfold validateAndGetUser
  cases hdecode : Clocked.decode c server.signed now .access token with
  | error e => exact ⟨1, by simp [hf, BearerCheck.next, hdecode]⟩
  | ok u =>
      cases hdenied : Clocked.isDenied server.redis now token.jti with
      | true => exact ⟨2, by simp [hf, BearerCheck.next, hdecode, hdenied]⟩
      | false =>
          cases hcut : Clocked.isDeniedForUser server.redis now token.userId token.iat with
          | true => exact ⟨3, by simp [hf, BearerCheck.next, hdecode, hdenied, hcut]⟩
          | false => exact ⟨3, by simp [hf, BearerCheck.next, hdecode, hdenied, hcut]⟩

section

variable (server : Server τ) (now : τ) (bearer : Token) (access refresh : Option Token)

/-- A step of a logout at an instant. -/
def LogoutPhase.stepAt (r : LogoutPhase τ × Server τ) : LogoutPhase τ × Server τ :=
  r.1.next c r.2 now bearer access refresh

theorem LogoutPhase.iterate_decodeAccess :
    ∃ n, (LogoutPhase.stepAt c now bearer access refresh)^[n] (.decodeAccess now, server) =
      (.decodeRefresh now, AuthController.logoutToken c server now .access access) := by
  unfold AuthController.logoutToken
  cases access with
  | none => exact ⟨1, rfl⟩
  | some token =>
      cases hdecode : decode c server.signed now .access token with
      | error e => exact ⟨1, by simp [LogoutPhase.stepAt, LogoutPhase.next, hdecode]⟩
      | ok u => exact ⟨2, by simp [LogoutPhase.stepAt, LogoutPhase.next, hdecode, Server.revoke]⟩

theorem LogoutPhase.iterate_decodeRefresh :
    ∃ n named, (LogoutPhase.stepAt c now bearer access refresh)^[n] (.decodeRefresh now, server) =
      (.returning named, AuthController.logoutToken c server now .refresh refresh) := by
  unfold AuthController.logoutToken
  cases refresh with
  | none => exact ⟨1, none, rfl⟩
  | some token =>
      cases hdecode : decode c server.signed now .refresh token with
      | error e => exact ⟨1, _, by simp [LogoutPhase.stepAt, LogoutPhase.next, hdecode]; rfl⟩
      | ok u => exact ⟨2, _, by simp [LogoutPhase.stepAt, LogoutPhase.next, hdecode, Server.revoke]; rfl⟩

/-- Steps in a row are the logout of the endpoint. -/
theorem LogoutPhase.iterate_next :
    ∃ n, (LogoutPhase.stepAt c now bearer access refresh)^[n] (.authenticate .decode, server) =
      Prod.map LogoutPhase.answered id
        (AuthController.logout c server now bearer access refresh) := by
  obtain ⟨k, hcheck⟩ := BearerCheck.iterate_next c server now bearer
    ((·, server) ∘ LogoutPhase.authenticate) (.readClock, server) ((·, server) ∘ .answered)
    (f := LogoutPhase.stepAt c now bearer access refresh) fun check =>
      check.next_map c (·, server) server now bearer LogoutPhase.authenticate .readClock .answered
  unfold AuthController.logout
  cases hbearer : validateAndGetUser c server now bearer with
  | error e =>
      rw [hbearer] at hcheck
      exact ⟨k, hcheck⟩
  | ok user =>
      have hpassed : (LogoutPhase.stepAt c now bearer access refresh)^[k]
          (.authenticate .decode, server) = (.readClock, server) := by
        rw [hbearer] at hcheck
        exact hcheck
      obtain ⟨n, haccess⟩ := LogoutPhase.iterate_decodeAccess c server now bearer access refresh
      obtain ⟨m, named, hrefresh⟩ := LogoutPhase.iterate_decodeRefresh c
        (AuthController.logoutToken c server now .access access) now bearer access refresh
      refine ⟨1 + (m + (n + (1 + k))), ?_⟩
      rw [Function.iterate_add_apply, Function.iterate_add_apply, Function.iterate_add_apply,
        Function.iterate_add_apply, hpassed, Function.iterate_one]
      have hread : LogoutPhase.stepAt c now bearer access refresh (.readClock, server) =
          (.decodeAccess now, server) := rfl
      rw [hread, haccess, hrefresh]
      rfl

/-- Steps in a row are the logout from everywhere of the endpoint. -/
theorem LogoutAllPhase.iterate_next :
    ∃ n, (fun r : LogoutAllPhase × Server τ => r.1.next c r.2 now bearer)^[n]
        (.authenticate .decode, server) =
      Prod.map LogoutAllPhase.answered id (AuthController.logoutAll c server now bearer) := by
  obtain ⟨k, hcheck⟩ := BearerCheck.iterate_next c server now bearer
    ((·, server) ∘ LogoutAllPhase.authenticate) (.readClock, server) ((·, server) ∘ .answered)
    (f := fun r : LogoutAllPhase × Server τ => r.1.next c r.2 now bearer) fun check =>
      check.next_map c (·, server) server now bearer LogoutAllPhase.authenticate .readClock
        .answered
  unfold AuthController.logoutAll
  cases hbearer : validateAndGetUser c server now bearer with
  | error e =>
      rw [hbearer] at hcheck
      exact ⟨k, hcheck⟩
  | ok user =>
      have hpassed : (fun r : LogoutAllPhase × Server τ => r.1.next c r.2 now bearer)^[k]
          (.authenticate .decode, server) = (.readClock, server) := by
        rw [hbearer] at hcheck
        exact hcheck
      have huser : user = bearer.userId := by
        simp only [validateAndGetUser] at hbearer
        split at hbearer
        · cases hbearer
        · split_ifs at hbearer
          exact (Except.ok.inj hbearer).symm
      refine ⟨2 + k, ?_⟩
      rw [Function.iterate_add_apply, hpassed, huser]
      rfl

end

/-! ## 2. All requests -/

inductive Task (τ : Type) where
  | refresh (oldRefresh : Token) (phase : RefreshPhase τ)
  | logout (bearer : Token) (access refresh : Option Token) (phase : LogoutPhase τ)
  | logoutAll (bearer : Token) (phase : LogoutAllPhase)

/-- What has been answered of a refresh token: a new pair for it, or that it is logged out. -/
inductive Outcome where
  | rotated (token : Token)
  | loggedOut (token : Token)
deriving DecidableEq

def Outcome.token : Outcome → Token
  | .rotated token => token
  | .loggedOut token => token

structure World (τ : Type) where
  server : Server τ
  clock : τ
  tasks : List (Task τ)
  log : List Outcome

def World.initial : World τ where
  server := ⟨[], Expiring.empty⟩
  clock := c.start
  tasks := []
  log := []

inductive Event (τ : Type) where
  | login (pair : TokenPair)
  | arriveRefresh (oldRefresh : Token)
  | arriveLogout (bearer : Token) (access refresh : Option Token)
  | arriveLogoutAll (bearer : Token)
  /-- the next step of a request; `pair` is what it mints if it does -/
  | advance (i : ℕ) (pair : TokenPair)
  | userMissing (i : ℕ)
  | wait (now : τ)

/-- What a step answers. -/
def Task.outcome : Task τ → List Outcome
  | .refresh oldRefresh .mint => [.rotated oldRefresh]
  | .logout _ _ _ (.returning (some token)) => [.loggedOut token]
  | _ => []

def Task.mints : Task τ → Bool
  | .refresh _ .mint => true
  | _ => false

/-- The token of a refresh between the denylist check that it has passed and its answer. -/
def Task.passing : Task τ → Option Token
  | .refresh oldRefresh .loadUser => some oldRefresh
  | .refresh oldRefresh .readClock => some oldRefresh
  | .refresh oldRefresh (.writeDenylist _) => some oldRefresh
  | .refresh oldRefresh .mint => some oldRefresh
  | _ => none

def Task.next (server : Server τ) (now : τ) (pair : TokenPair) : Task τ → Task τ × Server τ
  | .refresh oldRefresh phase =>
      let (next, server) := phase.next c server now oldRefresh pair
      (.refresh oldRefresh next, server)
  | .logout bearer rawAccess rawRefresh phase =>
      let (next, server) := phase.next c server now bearer rawAccess rawRefresh
      (.logout bearer rawAccess rawRefresh next, server)
  | .logoutAll bearer phase =>
      let (next, server) := phase.next c server now bearer
      (.logoutAll bearer next, server)

def step (w : World τ) : Event τ → Option (World τ)
  | .login pair => if Fresh w.server.signed pair then some { w with server := w.server.sign pair }
      else none
  | .arriveRefresh oldRefresh => some { w with tasks := w.tasks ++ [.refresh oldRefresh .verify] }
  | .arriveLogout bearer access refresh =>
      some { w with tasks := w.tasks ++ [.logout bearer access refresh (.authenticate .decode)] }
  | .arriveLogoutAll bearer =>
      some { w with tasks := w.tasks ++ [.logoutAll bearer (.authenticate .decode)] }
  | .advance i pair =>
      match w.tasks[i]? with
      | none => none
      | some task =>
          if task.mints = true → Fresh w.server.signed pair then
            let (next, server) := task.next c w.server w.clock pair
            some { w with server, tasks := w.tasks.set i next, log := w.log ++ task.outcome }
          else none
  | .userMissing i =>
      match w.tasks[i]? with
      | some (.refresh oldRefresh .loadUser) =>
          some { w with tasks := w.tasks.set i (.refresh oldRefresh .raised) }
      | _ => none
  | .wait now => if w.clock ≤ now then some { w with clock := now } else none

/-- A request as it comes. -/
inductive Arrives : Event τ → Task τ → Prop where
  | refresh (oldRefresh : Token) : Arrives (.arriveRefresh oldRefresh) (.refresh oldRefresh .verify)
  | logout (bearer : Token) (access refresh : Option Token) :
      Arrives (.arriveLogout bearer access refresh)
        (.logout bearer access refresh (.authenticate .decode))
  | logoutAll (bearer : Token) :
      Arrives (.arriveLogoutAll bearer) (.logoutAll bearer (.authenticate .decode))

/-- Everything a step can do. -/
inductive Fires (w : World τ) : Event τ → World τ → Prop where
  | login {pair : TokenPair} (fresh : Fresh w.server.signed pair) :
      Fires w (.login pair) { w with server := w.server.sign pair }
  | arrive {e : Event τ} {task : Task τ} (new : Arrives e task) :
      Fires w e { w with tasks := w.tasks ++ [task] }
  | advance {i : ℕ} {pair : TokenPair} {task : Task τ} (here : w.tasks[i]? = some task)
      (mints : task.mints = true → Fresh w.server.signed pair) :
      Fires w (.advance i pair) { w with
        server := (task.next c w.server w.clock pair).2
        tasks := w.tasks.set i (task.next c w.server w.clock pair).1
        log := w.log ++ task.outcome }
  | userMissing {i : ℕ} {oldRefresh : Token}
      (here : w.tasks[i]? = some (.refresh oldRefresh .loadUser)) :
      Fires w (.userMissing i) { w with tasks := w.tasks.set i (.refresh oldRefresh .raised) }
  | wait {now : τ} (later : w.clock ≤ now) : Fires w (.wait now) { w with clock := now }

variable {c} in
theorem step_fires {w w' : World τ} {e : Event τ} (h : step c w e = some w') : Fires c w e w' := by
  cases e with
  | login pair =>
      obtain ⟨hfresh, hw'⟩ := Option.ite_none_right_eq_some.mp h
      exact Option.some.inj hw' ▸ .login hfresh
  | arriveRefresh oldRefresh => exact Option.some.inj h ▸ .arrive (.refresh oldRefresh)
  | arriveLogout bearer access refresh =>
      exact Option.some.inj h ▸ .arrive (.logout bearer access refresh)
  | arriveLogoutAll bearer => exact Option.some.inj h ▸ .arrive (.logoutAll bearer)
  | advance i pair =>
      simp only [step] at h
      split at h
      · cases h
      · rename_i task here
        obtain ⟨hmints, hw'⟩ := Option.ite_none_right_eq_some.mp h
        exact Option.some.inj hw' ▸ .advance here hmints
  | userMissing i =>
      simp only [step] at h
      split at h
      · rename_i oldRefresh here
        exact Option.some.inj h ▸ .userMissing here
      · cases h
  | wait now =>
      obtain ⟨hle, hw'⟩ := Option.ite_none_right_eq_some.mp h
      exact Option.some.inj hw' ▸ .wait hle

/-! ## 3. Settled tokens -/

section

variable {c} {server server' : Server τ} {now now' read : τ} {token other : Token} {pair : TokenPair}

/-- An issued token that is over or denied up to its `exp`. -/
def Settled (c : Clock τ) (server : Server τ) (now : τ) (token : Token) : Prop :=
  token ∈ server.signed ∧
    (c.instant token.exp ≤ now ∨
      server.redis.Keeps (.deny token.jti) (fun _ => True) (c.instant token.exp))

theorem Settled.isDenied (h : Settled c server now token) (hvalid : now < c.instant token.exp) :
    isDenied server.redis now token.jti = true := by
  obtain ⟨value, hget, -⟩ := (h.2.resolve_left (not_le.mpr hvalid)).get hvalid
  rw [Clocked.isDenied, hget]
  rfl

/-- A denial settles its token: the token was valid when the clock was read, or is over since. -/
theorem settled_denyToken (hsigned : token ∈ server.signed) (hread : read ≤ now) :
    Settled c (server.denyToken c now (c.units read) token) now token := by
  refine ⟨hsigned, ?_⟩
  rcases lt_or_ge read (c.instant token.exp) with hvalid | hover
  · exact .inr (denyToken_keeps hvalid hread)
  · exact .inl (hover.trans hread)

/-- What issued and settled tokens are later. -/
structure Later (c : Clock τ) (server : Server τ) (now : τ) (server' : Server τ) (now' : τ) :
    Prop where
  signed : ∀ token ∈ server.signed, token ∈ server'.signed
  clock : now ≤ now'
  settled : ∀ token, Settled c server now token → Settled c server' now' token

namespace Later

theorem refl (server : Server τ) (now : τ) : Later c server now server now :=
  ⟨fun _ h => h, le_rfl, fun _ h => h⟩

theorem wait (hle : now ≤ now') : Later c server now server now' where
  signed _ h := h
  clock := hle
  settled _ h := ⟨h.1, h.2.imp_left fun hover => hover.trans hle⟩

theorem sign (server : Server τ) (now : τ) (pair : TokenPair) :
    Later c server now (server.sign pair) now where
  signed _ h := List.mem_append_left _ h
  clock := le_rfl
  settled _ h := ⟨List.mem_append_left _ h.1, h.2⟩

theorem denyAllForUser (server : Server τ) (now : τ) (userId : UserId) (cutoff : ℕ) :
    Later c server now
      { server with redis := Clocked.denyAllForUser c server.redis now userId cutoff } now where
  signed _ h := h
  clock := le_rfl
  settled _ h :=
    ⟨h.1, h.2.imp_right fun hkeeps => hkeeps.set_of_ne RedisKey.noConfusion _ _⟩

theorem denyToken (hnodup : (server.signed.map Token.jti).Nodup) (hother : other ∈ server.signed)
    (hread : read ≤ now) :
    Later c server now (server.denyToken c now (c.units read) other) now where
  signed _ h := h
  clock := le_rfl
  settled token h := by
    refine ⟨h.1, h.2.imp_right fun hkeeps => ?_⟩
    have hdenies : server.Denies c token := ⟨hnodup, h.1, hkeeps⟩
    exact (hdenies.denyToken hother hread).keeps

end Later

/-- What a request has made sure of. -/
def Task.Fits (c : Clock τ) (server : Server τ) (now : τ) : Task τ → Prop
  | .refresh oldRefresh phase =>
      match phase with
      | .checkDenylist => oldRefresh ∈ server.signed ∧ oldRefresh.tokenType = .refresh
      | .loadUser => oldRefresh ∈ server.signed
      | .readClock => oldRefresh ∈ server.signed
      | .writeDenylist read => read ≤ now ∧ oldRefresh ∈ server.signed
      | .mint => Settled c server now oldRefresh
      | _ => True
  | .logout _ _ _ phase =>
      match phase with
      | .decodeAccess read => read ≤ now
      | .denyAccess read token => read ≤ now ∧ token ∈ server.signed
      | .decodeRefresh read => read ≤ now
      | .denyRefresh read token => read ≤ now ∧ token ∈ server.signed
      | .returning (some token) => Settled c server now token
      | _ => True
  | .logoutAll bearer phase =>
      match phase with
      | .authenticate .decode => True
      | .authenticate _ => bearer ∈ server.signed
      | _ => True

theorem Task.Fits.later {task : Task τ} (h : task.Fits c server now)
    (hlater : Later c server now server' now') : task.Fits c server' now' := by
  unfold Task.Fits at h ⊢
  cases task with
  | refresh oldRefresh phase =>
      cases phase with
      | checkDenylist => exact ⟨hlater.signed _ h.1, h.2⟩
      | loadUser => exact hlater.signed _ h
      | readClock => exact hlater.signed _ h
      | writeDenylist read => exact ⟨h.1.trans hlater.clock, hlater.signed _ h.2⟩
      | mint => exact hlater.settled _ h
      | _ => trivial
  | logout bearer access refresh phase =>
      cases phase with
      | decodeAccess read => exact le_trans h hlater.clock
      | denyAccess read token => exact ⟨h.1.trans hlater.clock, hlater.signed _ h.2⟩
      | decodeRefresh read => exact le_trans h hlater.clock
      | denyRefresh read token => exact ⟨h.1.trans hlater.clock, hlater.signed _ h.2⟩
      | returning named =>
          cases named with
          | none => trivial
          | some token => exact hlater.settled _ h
      | _ => trivial
  | logoutAll bearer phase =>
      cases phase with
      | authenticate check =>
          cases check with
          | decode => trivial
          | isDenied => exact hlater.signed _ h
          | isDeniedForUser => exact hlater.signed _ h
      | _ => trivial

/-- What one step of a request leaves. -/
structure Advanced (c : Clock τ) (server : Server τ) (now : τ) (r : Task τ × Server τ) : Prop where
  nodup : (r.2.signed.map Token.jti).Nodup
  later : Later c server now r.2 now
  fits : r.1.Fits c r.2 now

theorem advanced_refresh (hnodup : (server.signed.map Token.jti).Nodup) {phase : RefreshPhase τ}
    (hfits : (Task.refresh token phase).Fits c server now)
    (hmints : phase = .mint → Fresh server.signed pair) :
    Advanced c server now ((Task.refresh token phase).next c server now pair) := by
  have same : ∀ {next : RefreshPhase τ}, (Task.refresh token next).Fits c server now →
      Advanced c server now (Task.refresh token next, server) :=
    fun h => ⟨hnodup, .refl server now, h⟩
  cases phase with
  | verify =>
      dsimp only [Task.next, RefreshPhase.next]
      cases hdecode : decode c server.signed now .refresh token with
      | error e => exact same trivial
      | ok u =>
          obtain ⟨hsigned, -, htype⟩ := decode_eq_ok_iff.mp hdecode
          exact same ⟨hsigned, htype⟩
  | checkDenylist =>
      dsimp only [Task.next, RefreshPhase.next]
      split
      · exact same trivial
      · exact same hfits.1
  | loadUser => exact same hfits
  | readClock => exact same ⟨le_rfl, hfits⟩
  | writeDenylist read =>
      exact ⟨hnodup, .denyToken hnodup hfits.2 hfits.1, settled_denyToken hfits.2 hfits.1⟩
  | mint => exact ⟨nodup_sign hnodup (hmints rfl), .sign server now pair, trivial⟩
  | answered response => exact same trivial
  | raised => exact same trivial

theorem advanced_logout (hnodup : (server.signed.map Token.jti).Nodup) {bearer : Token}
    {access refresh : Option Token} {phase : LogoutPhase τ}
    (hfits : (Task.logout bearer access refresh phase).Fits c server now) :
    Advanced c server now ((Task.logout bearer access refresh phase).next c server now pair) := by
  have same : ∀ {next : LogoutPhase τ}, (Task.logout bearer access refresh next).Fits c server now →
      Advanced c server now (Task.logout bearer access refresh next, server) :=
    fun h => ⟨hnodup, .refl server now, h⟩
  cases phase with
  | authenticate check =>
      dsimp only [Task.next, LogoutPhase.next]
      rcases check.next_cases c server now bearer LogoutPhase.authenticate .readClock .answered with
        ⟨response, hnext⟩ | ⟨-, -, hnext⟩ | ⟨-, -, hnext⟩ | ⟨-, -, hnext⟩
      all_goals
        rw [hnext]
        exact same trivial
  | readClock => exact same le_rfl
  | decodeAccess read =>
      cases access with
      | none => exact same hfits
      | some token =>
          dsimp only [Task.next, LogoutPhase.next]
          cases hdecode : decode c server.signed now .access token with
          | error e => exact same hfits
          | ok u => exact same ⟨hfits, (decode_eq_ok_iff.mp hdecode).1⟩
  | denyAccess read token => exact ⟨hnodup, .denyToken hnodup hfits.2 hfits.1, hfits.1⟩
  | decodeRefresh read =>
      cases refresh with
      | none => exact same trivial
      | some token =>
          dsimp only [Task.next, LogoutPhase.next]
          cases hdecode : decode c server.signed now .refresh token with
          | ok u => exact same ⟨hfits, (decode_eq_ok_iff.mp hdecode).1⟩
          | error e =>
              by_cases hissued : token ∈ server.signed ∧ token.tokenType = .refresh
              · -- an issued refresh token that does not decode is over
                have hover : c.instant token.exp ≤ now := by
                  refine not_lt.mp fun hvalid => ?_
                  rw [(decode_eq_ok_iff (u := ())).mpr ⟨hissued.1, hvalid, hissued.2⟩] at hdecode
                  cases hdecode
                simp only [if_pos hissued]
                exact same ⟨hissued.1, .inl hover⟩
              · simp only [if_neg hissued]
                exact same trivial
  | denyRefresh read token =>
      exact ⟨hnodup, .denyToken hnodup hfits.2 hfits.1, settled_denyToken hfits.2 hfits.1⟩
  | returning named => exact same trivial
  | answered response => exact same trivial

theorem advanced_logoutAll (hnodup : (server.signed.map Token.jti).Nodup) {bearer : Token}
    {phase : LogoutAllPhase} (hfits : (Task.logoutAll bearer phase).Fits c server now) :
    Advanced c server now ((Task.logoutAll bearer phase).next c server now pair) := by
  have same : ∀ {next : LogoutAllPhase}, (Task.logoutAll bearer next).Fits c server now →
      Advanced c server now (Task.logoutAll bearer next, server) :=
    fun h => ⟨hnodup, .refl server now, h⟩
  cases phase with
  | authenticate check =>
      dsimp only [Task.next, LogoutAllPhase.next]
      rcases check.next_cases c server now bearer LogoutAllPhase.authenticate .readClock .answered with
        ⟨response, hnext⟩ | ⟨-, hdecode, hnext⟩ | ⟨rfl, -, hnext⟩ | ⟨-, -, hnext⟩
      · rw [hnext]
        exact same trivial
      · rw [hnext]
        exact same (decode_eq_ok_iff.mp hdecode).1
      · rw [hnext]
        exact same hfits
      · rw [hnext]
        exact same trivial
  | readClock => exact same trivial
  | writeCutoff cutoff => exact ⟨hnodup, .denyAllForUser server now bearer.userId cutoff, trivial⟩
  | answered response => exact same trivial

theorem advanced_next (hnodup : (server.signed.map Token.jti).Nodup) {task : Task τ}
    (hfits : task.Fits c server now) (hmints : task.mints = true → Fresh server.signed pair) :
    Advanced c server now (task.next c server now pair) := by
  cases task with
  | refresh token phase =>
      refine advanced_refresh hnodup hfits fun hmint => hmints ?_
      rw [hmint]
      rfl
  | logout bearer access refresh phase => exact advanced_logout hnodup hfits
  | logoutAll bearer phase => exact advanced_logoutAll hnodup hfits

end

/-! ## 4. Every run -/

/-- What holds in every run. -/
structure Sound (c : Clock τ) (w : World τ) : Prop where
  nodup : (w.server.signed.map Token.jti).Nodup
  fits : ∀ task ∈ w.tasks, task.Fits c w.server w.clock

section

variable {c} {w w' : World τ} {e : Event τ}

theorem Sound.initial : Sound c (.initial c) where
  nodup := List.nodup_nil
  fits _ h := by cases h

theorem Sound.of_later (h : Sound c w) (hnodup : (w'.server.signed.map Token.jti).Nodup)
    (hlater : Later c w.server w.clock w'.server w'.clock)
    (hfits : ∀ task ∈ w'.tasks, task ∈ w.tasks ∨ task.Fits c w'.server w'.clock) :
    Sound c w' ∧ Later c w.server w.clock w'.server w'.clock :=
  ⟨⟨hnodup, fun task htask => (hfits task htask).elim (fun hold => (h.fits task hold).later hlater) id⟩,
    hlater⟩

/-- A step forgets no token and undoes no denial. -/
theorem Sound.step (h : Sound c w) (hstep : Rotation.step c w e = some w') :
    Sound c w' ∧ Later c w.server w.clock w'.server w'.clock := by
  cases step_fires hstep with
  | login fresh => exact h.of_later (nodup_sign h.nodup fresh) (.sign _ _ _) fun _ htask => .inl htask
  | arrive new =>
      refine h.of_later h.nodup (.refl _ _) fun task htask => ?_
      refine (List.mem_append.mp htask).imp_right fun hnew => ?_
      obtain rfl := List.mem_singleton.mp hnew
      cases new <;> trivial
  | @advance i pair task here mints =>
      obtain ⟨hnodup, hlater, hnext⟩ :=
        advanced_next h.nodup (h.fits task (List.mem_of_getElem? here)) mints
      refine h.of_later hnodup hlater fun task' htask' => ?_
      rcases List.mem_or_eq_of_mem_set htask' with hold | rfl
      · exact .inl hold
      · exact .inr hnext
  | userMissing here =>
      refine h.of_later h.nodup (.refl _ _) fun task htask => ?_
      rcases List.mem_or_eq_of_mem_set htask with hold | rfl
      · exact .inl hold
      · exact .inr trivial
  | wait later => exact h.of_later h.nodup (.wait later) fun _ htask => .inl htask

end

end DjasktTrading.Accounts.Clocked.Rotation
