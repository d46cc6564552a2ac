import DjasktTrading.Accounts.TokenRequests

/-!
# Lineage — where a token comes from, and when a user has none left

A refresh mints for the owner of the token that it replaces, so that every token goes back to a login
of its user.  A user whose tokens have all expired, been denied or been cut off gets none by
refreshing: only a login helps.
-/

open Reasoning

namespace DjasktTrading.Accounts.Clocked.Rotation

variable {τ : Type} [LinearOrder τ] (c : Clock τ)

/-! ## 1. Owners -/

/-- The tokens of a pair are the user's; their other claims are any. -/
def IssuedTo (pair : TokenPair) (user : UserId) : Prop :=
  pair.refresh.userId = user ∧ pair.access.userId = user

instance (pair : TokenPair) (user : UserId) : Decidable (IssuedTo pair user) :=
  instDecidableAnd

/-- The owner of the token for which the request mints. -/
def Task.mintsFor? : Task τ → Option UserId
  | .refresh oldRefresh .mint => some oldRefresh.userId
  | _ => none

/-- What the step mints, and for whom. -/
def World.mintsFor? (w : World τ) : Event τ → Option (TokenPair × UserId)
  | .login pair => some (pair, pair.refresh.userId)
  | .advance i pair => (w.tasks[i]?.bind Task.mintsFor?).map fun user => (pair, user)
  | _ => none

/-- What the step mints it mints for one user, and a refresh for the owner of its token. -/
def World.MintsForOwner (w : World τ) (e : Event τ) : Prop :=
  ∀ minted ∈ w.mintsFor? e, IssuedTo minted.1 minted.2

instance (w : World τ) (e : Event τ) : Decidable (w.MintsForOwner e) :=
  Option.decidableForallMem _

def ownStep (w : World τ) (e : Event τ) : Option (World τ) :=
  if w.MintsForOwner e then step c w e else none

/-- The request whose step it is. -/
def World.task? (w : World τ) : Event τ → Option (Task τ)
  | .advance i _ => w.tasks[i]?
  | _ => none

/-- The token whose denial the step writes. -/
def Task.denies? : Task τ → Option Token
  | .refresh oldRefresh (.writeDenylist _) => some oldRefresh
  | .logout _ _ _ (.denyAccess _ token) => some token
  | .logout _ _ _ (.denyRefresh _ token) => some token
  | _ => none

/-- The user whose cutoff the step writes, and the cutoff. -/
def Task.cutsOff? : Task τ → Option (UserId × ℕ)
  | .logoutAll bearer (.writeCutoff cutoff) => some (bearer.userId, cutoff)
  | _ => none

def World.denies? (w : World τ) (e : Event τ) : Option Token := (w.task? e).bind Task.denies?

def World.cutsOff? (w : World τ) (e : Event τ) : Option (UserId × ℕ) := (w.task? e).bind Task.cutsOff?

/-! ## 2. What a step does to the server -/

section

variable {c} {w w' : World τ} {e : Event τ} {server : Server τ} {now : τ} {pair : TokenPair}
  {task : Task τ} {token : Token} {user : UserId} {cutoff : ℕ}

/-- Everything a step of a request can do to the server. -/
inductive Effect (c : Clock τ) (server : Server τ) (now : τ) (pair : TokenPair) (task : Task τ) :
    Server τ → Prop where
  | none : Effect c server now pair task server
  | sign {oldRefresh : Token} (mints : task = .refresh oldRefresh .mint) :
      Effect c server now pair task (server.sign pair)
  | deny {token : Token} {read : τ} (denies : task.denies? = some token)
      (signed : token ∈ server.signed) (hread : read ≤ now) :
      Effect c server now pair task (server.denyToken c now (c.units read) token)
  | cutOff {user : UserId} {cutoff : ℕ} (cuts : task.cutsOff? = some (user, cutoff)) :
      Effect c server now pair task
        { server with redis := denyAllForUser c server.redis now user cutoff }

theorem next_effect (pair : TokenPair) (hfits : task.Fits c server now) :
    Effect c server now pair task (task.next c server now pair).2 := by
  cases task with
  | refresh oldRefresh phase =>
      cases phase with
      | verify =>
          dsimp only [Task.next, RefreshPhase.next]
          split
          · exact .none
          · exact .none
      | checkDenylist =>
          dsimp only [Task.next, RefreshPhase.next]
          split
          · exact .none
          · exact .none
      | writeDenylist read => exact .deny rfl hfits.2 hfits.1
      | mint => exact .sign rfl
      | _ => exact .none
  | logout bearer access refresh phase =>
      cases phase with
      | decodeAccess read =>
          dsimp only [Task.next, LogoutPhase.next]
          split
          · exact .none
          · split
            · exact .none
            · exact .none
      | denyAccess read token => exact .deny rfl hfits.2 hfits.1
      | decodeRefresh read =>
          dsimp only [Task.next, LogoutPhase.next]
          split
          · exact .none
          · split
            · exact .none
            · exact .none
      | denyRefresh read token => exact .deny rfl hfits.2 hfits.1
      | _ => exact .none
  | logoutAll bearer phase =>
      cases phase with
      | writeCutoff cutoff => exact .cutOff rfl
      | _ => exact .none

theorem denyToken_logoutAll (server : Server τ) (now : τ) (nowTs : ℕ) (token : Token) (user : UserId) :
    (server.denyToken c now nowTs token).redis (.logoutAll user) = server.redis (.logoutAll user) := by
  rw [denyToken_redis]
  split
  · rfl
  · exact Expiring.set_of_ne RedisKey.noConfusion _ _

/-- Only a logout of the user from everywhere writes the user's cutoff. -/
theorem step_logoutAll (hsound : Sound c w) (hstep : step c w e = some w')
    (hother : ∀ cutoff, w.cutsOff? e ≠ some (user, cutoff)) :
    w'.server.redis (.logoutAll user) = w.server.redis (.logoutAll user) := by
  cases step_fires hstep with
  | @advance i pair task here mints =>
      have heffect := next_effect pair (hsound.fits task (List.mem_of_getElem? here))
      dsimp only
      generalize (task.next c w.server w.clock pair).2 = server at heffect
      cases heffect with
      | none => rfl
      | sign mints => rfl
      | deny denies signed hread => exact denyToken_logoutAll _ _ _ _ _
      | @cutOff other cutoff cuts =>
          refine Expiring.set_of_ne (fun heq => hother cutoff ?_) _ _
          rw [World.cutsOff?, World.task?, here, RedisKey.logoutAll.inj heq]
          exact cuts
  | _ => rfl

omit [LinearOrder τ] in
theorem task?_eq_some (h : w.task? e = some task) :
    ∃ i pair, e = .advance i pair ∧ w.tasks[i]? = some task := by
  cases e with
  | advance i pair => exact ⟨i, pair, rfl, h⟩
  | _ => cases h

theorem ownStep_eq_some (h : ownStep c w e = some w') :
    w.MintsForOwner e ∧ step c w e = some w' := by
  simpa only [ownStep, Option.ite_none_right_eq_some] using h

/-- A token that a step signs is of the user who logs in, or of the owner of the token that a refresh
replaces. -/
theorem mem_signed_step (hsound : Sound c w) (hstep : ownStep c w e = some w')
    (h : token ∈ w'.server.signed) :
    token ∈ w.server.signed ∨ (∃ pair, e = .login pair ∧ IssuedTo pair token.userId) ∨
      ∃ oldRefresh, .refresh oldRefresh .mint ∈ w.tasks ∧ token.userId = oldRefresh.userId := by
  obtain ⟨howner, hstep⟩ := ownStep_eq_some hstep
  have aux : ∀ {pair user}, IssuedTo pair user → token ∈ [pair.refresh, pair.access] →
      token.userId = user := by
    rintro pair user ⟨hrefresh, haccess⟩ hmem
    rcases List.mem_pair.mp hmem with rfl | rfl
    · exact hrefresh
    · exact haccess
  cases step_fires hstep with
  | @login pair fresh =>
      refine (List.mem_append.mp h).imp_right fun hnew => .inl ⟨pair, rfl, ?_⟩
      have hissued : IssuedTo pair pair.refresh.userId := howner _ rfl
      rw [aux hissued hnew]
      exact hissued
  | @advance i pair task here mints =>
      have heffect := next_effect pair (hsound.fits task (List.mem_of_getElem? here))
      dsimp only at h
      generalize (task.next c w.server w.clock pair).2 = server at heffect h
      cases heffect with
      | none => exact .inl h
      | @sign oldRefresh mints =>
          subst mints
          refine (List.mem_append.mp h).imp_right fun hnew =>
            .inr ⟨oldRefresh, List.mem_of_getElem? here, aux ?_ hnew⟩
          have hminted : w.mintsFor? (.advance i pair) = some (pair, oldRefresh.userId) := by
            rw [World.mintsFor?, here]
            rfl
          exact howner _ hminted
      | deny denies signed hread => exact .inl h
      | cutOff cuts => exact .inl h
  | _ => exact .inl h

/-! ## 3. Logins -/

/-- Every token descends from a login of its user. -/
def Rooted (es : List (Event τ)) (w : World τ) : Prop :=
  ∀ token ∈ w.server.signed, ∃ pair, .login pair ∈ es ∧ IssuedTo pair token.userId

theorem Rooted.step {es : List (Event τ)} (h : Rooted es w) (hsound : Sound c w)
    (hstep : ownStep c w e = some w') : Rooted (es ++ [e]) w' := by
  have hold : ∀ token ∈ w.server.signed, ∃ pair, .login pair ∈ es ++ [e] ∧
      IssuedTo pair token.userId := by
    intro token htoken
    obtain ⟨pair, hlogin, howner⟩ := h token htoken
    exact ⟨pair, List.mem_append_left _ hlogin, howner⟩
  intro token htoken
  rcases mem_signed_step hsound hstep htoken with
    htoken | ⟨pair, rfl, howner⟩ | ⟨oldRefresh, htask, huser⟩
  · exact hold token htoken
  · exact ⟨pair, by simp, howner⟩
  · -- the new pair has the login of the token that it replaces
    rw [huser]
    exact hold oldRefresh (hsound.fits _ htask).1

end

/-! ## 4. A user with no token left -/

/-- Up to its `exp` the token is no younger than the cutoff of its user. -/
def CutOff (server : Server τ) (token : Token) : Prop :=
  server.redis.Keeps (.logoutAll token.userId) (token.iat ≤ ·) (c.instant token.exp)

/-- The token has expired, is denied for the rest of its lifetime or, as an access token, cut off for
the rest of it. -/
def Dead (server : Server τ) (now : τ) (token : Token) : Prop :=
  Settled c server now token ∨ token.tokenType = .access ∧ CutOff c server token

/-- The request is no refresh of the user's past its check and no logout from everywhere of the user's
on its way to a cutoff. -/
def Task.Idle (server : Server τ) (user : UserId) : Task τ → Prop
  | .refresh oldRefresh phase =>
      oldRefresh.userId = user → (Task.refresh (τ := τ) oldRefresh phase).passing = none
  | .logout _ _ _ _ => True
  | .logoutAll bearer phase => bearer.userId = user →
      match phase with
      | .authenticate .isDeniedForUser => CutOff c server bearer
      | .readClock => False
      | .writeCutoff _ => False
      | _ => True

/-- The user has no token left, and no request that is about to make up for it. -/
structure World.Bereft (w : World τ) (user : UserId) : Prop where
  dead : ∀ token ∈ w.server.signed, token.userId = user → Dead c w.server w.clock token
  idle : ∀ task ∈ w.tasks, task.Idle c w.server user

instance (server : Server τ) (now : τ) (token : Token) : Decidable (Settled c server now token) :=
  instDecidableAnd

instance (server : Server τ) (token : Token) : Decidable (CutOff c server token) :=
  inferInstanceAs (Decidable (server.redis.Keeps _ _ _))

instance (server : Server τ) (now : τ) (token : Token) : Decidable (Dead c server now token) :=
  instDecidableOr

instance (server : Server τ) (user : UserId) (task : Task τ) : Decidable (task.Idle c server user) := by
  unfold Task.Idle
  split
  · infer_instance
  · exact instDecidableTrue
  · split <;> infer_instance

instance (w : World τ) (user : UserId) : Decidable (w.Bereft c user) :=
  decidable_of_iff ((∀ token ∈ w.server.signed, token.userId = user → Dead c w.server w.clock token) ∧
    ∀ task ∈ w.tasks, task.Idle c w.server user) ⟨fun ⟨hdead, hidle⟩ => ⟨hdead, hidle⟩,
      fun h => ⟨h.dead, h.idle⟩⟩

/-- The token that the check looks up in Redis next. -/
def BearerCheck.looksUp? (token : Token) : BearerCheck → Option Token
  | .decode => none
  | .isDenied => some token
  | .isDeniedForUser => some token

/-- The token that the next step looks up in Redis. -/
def Task.looksUp? : Task τ → Option Token
  | .refresh oldRefresh .checkDenylist => some oldRefresh
  | .logout bearer _ _ (.authenticate check) => check.looksUp? bearer
  | .logoutAll bearer (.authenticate check) => check.looksUp? bearer
  | _ => none

/-- The user does not log in, and no token of the user's expires between its decoding and its lookups
in Redis. -/
structure World.Quiet (w : World τ) (user : UserId) (e : Event τ) : Prop where
  noLogin : ∀ pair, e = .login pair → ¬ IssuedTo pair user
  prompt : ∀ task token, w.task? e = some task → task.looksUp? = some token →
    token.userId = user → w.clock < c.instant token.exp

section

variable {c} {w w' : World τ} {e : Event τ} {server server' : Server τ} {now : τ} {pair : TokenPair}
  {task : Task τ} {token : Token} {user : UserId}

theorem CutOff.isDeniedForUser (h : CutOff c server token) (hvalid : now < c.instant token.exp) :
    isDeniedForUser server.redis now token.userId token.iat = true := by
  obtain ⟨cutoff, hget, hle⟩ := h.get hvalid
  unfold Clocked.isDeniedForUser
  rw [hget]
  exact decide_eq_true hle

/-- A dead token that is not found denied is cut off. -/
theorem Dead.cutOff (h : Dead c server now token) (hvalid : now < c.instant token.exp)
    (hfree : isDenied server.redis now token.jti = false) :
    token.tokenType = .access ∧ CutOff c server token := by
  refine h.resolve_left fun hsettled => ?_
  rw [hsettled.isDenied hvalid] at hfree
  cases hfree

theorem CutOff.congr (h : CutOff c server token)
    (hsame : server'.redis (.logoutAll token.userId) = server.redis (.logoutAll token.userId)) :
    CutOff c server' token := by
  obtain ⟨cutoff, ends, hkey, hrest⟩ := h
  exact ⟨cutoff, ends, hsame.trans hkey, hrest⟩

theorem Task.Idle.mono (h : task.Idle c server user)
    (hkeeps : ∀ token, token.userId = user → CutOff c server token → CutOff c server' token) :
    task.Idle c server' user := by
  cases task with
  | refresh oldRefresh phase => exact h
  | logout bearer access refresh phase => trivial
  | logoutAll bearer phase =>
      intro huser
      have hphase := h huser
      cases phase with
      | authenticate check =>
          cases check with
          | isDeniedForUser => exact hkeeps bearer huser hphase
          | _ => trivial
      | _ => exact hphase

/-- A request of a user with no token left stays idle. -/
theorem Task.Idle.next (h : task.Idle c server user) (hfits : task.Fits c server now)
    (hdead : ∀ token ∈ server.signed, token.userId = user → Dead c server now token)
    (hprompt : ∀ token, task.looksUp? = some token → token.userId = user →
      now < c.instant token.exp) :
    (task.next c server now pair).1.Idle c server user := by
  cases task with
  | refresh oldRefresh phase =>
      intro huser
      cases phase with
      | verify =>
          dsimp only [RefreshPhase.next]
          split
          · rfl
          · rfl
      | checkDenylist =>
          dsimp only [RefreshPhase.next]
          split
          · rfl
          · rename_i hfree
            obtain ⟨htype, -⟩ := (hdead oldRefresh hfits.1 huser).cutOff
              (hprompt oldRefresh rfl huser) (by simpa using hfree)
            rw [hfits.2] at htype
            cases htype
      | mint => rfl
      | answered response => rfl
      | raised => rfl
      | _ => exact h huser
  | logout bearer access refresh phase => trivial
  | logoutAll bearer phase =>
      intro huser
      cases phase with
      | authenticate check =>
          dsimp only [LogoutAllPhase.next]
          rcases check.next_cases c server now bearer LogoutAllPhase.authenticate .readClock .answered
            with ⟨response, hnext⟩ | ⟨-, -, hnext⟩ | ⟨rfl, hfree, hnext⟩ | ⟨rfl, hyoung, hnext⟩
          · rw [hnext]
            trivial
          · rw [hnext]
            trivial
          · rw [hnext]
            exact ((hdead bearer hfits huser).cutOff (hprompt bearer rfl huser) hfree).2
          · rw [CutOff.isDeniedForUser (h huser) (hprompt bearer rfl huser)] at hyoung
            cases hyoung
      | readClock => exact h huser
      | writeCutoff cutoff => exact (h huser).elim
      | answered response => trivial

/-- A user with no token left gets none, and what is cut off stays so. -/
theorem World.Bereft.step (h : w.Bereft c user) (hsound : Sound c w)
    (hstep : ownStep c w e = some w') (hquiet : w.Quiet c user e) :
    w'.Bereft c user ∧
      ∀ token, token.userId = user → CutOff c w.server token → CutOff c w'.server token := by
  obtain ⟨-, hown⟩ := ownStep_eq_some hstep
  have hkeeps : ∀ token, token.userId = user → CutOff c w.server token →
      CutOff c w'.server token := by
    rintro token rfl hcut
    refine hcut.congr (step_logoutAll hsound hown fun cutoff hcuts => ?_)
    -- nobody is about to write a lower cutoff
    obtain ⟨task, htask, hwrites⟩ := Option.bind_eq_some_iff.mp hcuts
    obtain ⟨i, pair, rfl, here⟩ := task?_eq_some htask
    have hidle := h.idle task (List.mem_of_getElem? here)
    unfold Task.cutsOff? at hwrites
    split at hwrites
    · exact hidle (congrArg Prod.fst (Option.some.inj hwrites))
    · cases hwrites
  refine ⟨⟨fun token htoken huser => ?_, fun task htask => ?_⟩, hkeeps⟩
  · rcases mem_signed_step hsound hstep htoken with
      htoken | ⟨pair, hlogin, howner⟩ | ⟨oldRefresh, htask, howner⟩
    · exact (h.dead token htoken huser).imp ((hsound.step hown).2.settled token)
        (And.imp_right (hkeeps token huser))
    · exact absurd (huser ▸ howner) (hquiet.noLogin pair hlogin)
    · cases h.idle _ htask (howner.symm.trans huser)
  · cases step_fires hown with
    | arrive new =>
        rcases List.mem_append.mp htask with hold | hnew
        · exact (h.idle task hold).mono hkeeps
        · obtain rfl := List.mem_singleton.mp hnew
          cases new with
          | refresh oldRefresh => exact fun _ => rfl
          | logout bearer access refresh => trivial
          | logoutAll bearer => exact fun _ => trivial
    | @advance i pair old here mints =>
        rcases List.mem_or_eq_of_mem_set htask with hold | rfl
        · exact (h.idle task hold).mono hkeeps
        · have hmem := List.mem_of_getElem? here
          exact ((h.idle old hmem).next (hsound.fits old hmem) h.dead
            fun token => hquiet.prompt old token here).mono hkeeps
    | userMissing here =>
        rcases List.mem_or_eq_of_mem_set htask with hold | rfl
        · exact (h.idle task hold).mono hkeeps
        · exact fun _ => rfl
    | login fresh => exact (h.idle task htask).mono hkeeps
    | wait later => exact (h.idle task htask).mono hkeeps

end

end DjasktTrading.Accounts.Clocked.Rotation
