import DjasktTrading.Accounts.Revocation
import Mathlib.Algebra.Order.Floor.Semifield

/-!
# Fresh logins — what is minted after a logout from everywhere

Tokens and cutoff carry whole seconds, and a token of the second of the cutoff counts as older.  A
pair that is minted in a later second works until it expires.
-/

open Reasoning

namespace DjasktTrading.Accounts.Clocked

/-! ## 1. Minting at real times -/

noncomputable section

/-- `_seconds_until_utc_midnight` -/
def secondsUntilUtcMidnight (now : NNReal) : NNReal :=
  let tomorrow := now + 86400
  let midnight : NNReal := (⌊tomorrow / 86400⌋₊ * 86400 : ℕ)
  min (midnight - now) 86400

/-- `EmailTokenObtainPairInputSchema.get_token` -/
def getToken (now : NNReal) (jtis : Jtis) (user : UserId) : TokenPair :=
  let refresh : Token := {
    tokenType := .refresh
    exp := realSeconds.units (now + 604800)
    iat := realSeconds.units now
    jti := jtis.refresh
    userId := user }
  { refresh
    access := {
      tokenType := .access
      exp := realSeconds.units (now + secondsUntilUtcMidnight now)
      iat := refresh.iat
      jti := jtis.access
      userId := refresh.userId } }

end

/-- The access token ends at the next UTC midnight. -/
theorem add_secondsUntilUtcMidnight (now : NNReal) :
    now + secondsUntilUtcMidnight now = ((⌊now / 86400⌋₊ + 1) * 86400 : ℕ) := by
  have hday : (0 : NNReal) < 86400 := by norm_num
  have hmidnight : ⌊(now + 86400) / 86400⌋₊ = ⌊now / 86400⌋₊ + 1 := by
    rw [add_div, div_self hday.ne', Nat.floor_add_one zero_le]
  have hlow : ((⌊now / 86400⌋₊ : NNReal) + 1) * 86400 ≤ now + 86400 := by
    rw [add_one_mul]
    gcongr
    exact (le_div_iff₀ hday).mp (Nat.floor_le zero_le)
  have hhigh : now ≤ ((⌊now / 86400⌋₊ : NNReal) + 1) * 86400 :=
    (div_le_iff₀ hday).mp (Nat.lt_floor_add_one _).le
  unfold secondsUntilUtcMidnight
  dsimp only
  rw [hmidnight]
  push_cast
  rw [min_eq_left (tsub_le_iff_left.mpr hlow), add_tsub_cancel_of_le hhigh]

/-- An access token is alive when it is minted. -/
theorem lt_exp_getToken (now : NNReal) (jtis : Jtis) (user : UserId) :
    now < realSeconds.instant (getToken now jtis user).access.exp := by
  have hexp : (getToken now jtis user).access.exp = (⌊now / 86400⌋₊ + 1) * 86400 := by
    change ⌊now + secondsUntilUtcMidnight now⌋₊ = _
    rw [add_secondsUntilUtcMidnight, Nat.floor_natCast]
  rw [hexp]
  change now < (((⌊now / 86400⌋₊ + 1) * 86400 : ℕ) : NNReal)
  push_cast
  exact (div_lt_iff₀ (by norm_num)).mp (Nat.lt_floor_add_one _)

/-- On whole microseconds, these are the claims of `getToken` of the endpoints. -/
theorem getToken_microseconds (now : ℕ) (jtis : Jtis) (user : UserId) :
    getToken (now / second) jtis user = Accounts.getToken now jtis user := by
  have hread : ∀ t : ℕ, realSeconds.units ((t : NNReal) / second) = timestamp t := fun t =>
    Nat.floor_div_eq_div t second
  have hsecond : (second : NNReal) ≠ 0 := by norm_num [second]
  have hday : (day : NNReal) = 86400 * second := by norm_num [day, second]
  have hlifetime : (now : NNReal) / second + 604800 =
      ((now + refreshTokenLifetime : ℕ) : NNReal) / second := by
    have hseven : (refreshTokenLifetime : NNReal) = 604800 * second := by
      norm_num [refreshTokenLifetime, day, second]
    rw [Nat.cast_add, add_div, hseven, mul_div_cancel_right₀ _ hsecond]
  have hmidnight : (now : NNReal) / second + secondsUntilUtcMidnight (now / second) =
      ((now + Accounts.secondsUntilUtcMidnight now : ℕ) : NNReal) / second := by
    have hdays : ⌊(now : NNReal) / second / 86400⌋₊ = now / day := by
      rw [div_div, mul_comm, ← hday]
      exact Nat.floor_div_eq_div now day
    rw [add_secondsUntilUtcMidnight, Accounts.add_secondsUntilUtcMidnight, hdays]
    push_cast
    rw [hday, ← mul_assoc, mul_div_cancel_right₀ _ hsecond]
  unfold getToken Accounts.getToken refreshTokenForUser
  simp only [hread, hlifetime, hmidnight]

/-! ## 2. What a request leaves alone -/

variable {τ : Type} [LinearOrder τ]

/-- The tokens that a request denies. -/
def Server.denied (c : Clock τ) (server : Server τ) (e : Event τ) : List Token :=
  match e.request with
  | .deny token => [token]
  | _ => server.revoked c e

/-- The request is a logout from everywhere of the account. -/
def Server.CutsOff (c : Clock τ) (server : Server τ) (e : Event τ) (user : UserId) : Prop :=
  ∃ bearer, e.request = .logoutAll bearer ∧ validateAndGetUser c server e.now bearer = .ok user

section

variable {c : Clock τ} {server : Server τ} {now : τ} {user : UserId} {jti : Uuid} {e : Event τ}

theorem revoke_of_ne {token : Token} (hne : token.jti ≠ jti) :
    (server.revoke c now token).redis (.deny jti) = server.redis (.deny jti) := by
  change (server.denyToken c now (c.units now) token).redis (.deny jti) = _
  rw [denyToken_redis]
  split
  · rfl
  · exact Expiring.set_of_ne (fun heq => hne (RedisKey.deny.inj heq).symm) _ _

theorem revoke_logoutAll {token : Token} :
    (server.revoke c now token).redis (.logoutAll user) = server.redis (.logoutAll user) := by
  change (server.denyToken c now (c.units now) token).redis (.logoutAll user) = _
  rw [denyToken_redis]
  split
  · rfl
  · exact Expiring.set_of_ne RedisKey.noConfusion _ _

theorem foldl_revoke {γ : Type} {f : Server τ → γ} {tokens : List Token}
    (hkeep : ∀ server, ∀ token ∈ tokens, f (server.revoke c now token) = f server) :
    f (tokens.foldl (Server.revoke c · now ·) server) = f server := by
  induction tokens generalizing server with
  | nil => rfl
  | cons token tokens ih =>
      rw [List.foldl_cons,
        ih fun server other hother => hkeep server other (List.mem_cons_of_mem _ hother)]
      exact hkeep server token List.mem_cons_self

/-- One token of a logout is revoked if it decodes. -/
theorem logoutToken_eq_foldl (tokenType : TokenType) (rawToken : Option Token) :
    AuthController.logoutToken c server now tokenType rawToken =
      (named c server.signed now tokenType rawToken).foldl (Server.revoke c · now ·) server := by
  cases rawToken with
  | none => rfl
  | some token =>
      unfold AuthController.logoutToken named
      cases hdecode : decode c server.signed now tokenType token with
      | error error => simp [hdecode, Except.isOk, Except.toBool]
      | ok _ => simp [hdecode, Except.isOk, Except.toBool]

theorem logoutAll_cases (c : Clock τ) (server : Server τ) (now : τ) (bearer : Token) :
    (∃ user, validateAndGetUser c server now bearer = .ok user ∧
        (AuthController.logoutAll c server now bearer).2 =
          { server with redis := denyAllForUser c server.redis now user (c.units now) }) ∨
      (AuthController.logoutAll c server now bearer).2 = server := by
  unfold AuthController.logoutAll
  cases validateAndGetUser c server now bearer with
  | ok user => exact .inl ⟨user, rfl, rfl⟩
  | error error => exact .inr rfl

/-- All that a request does: it denies tokens, or sets a cutoff; it may sign a pair. -/
theorem answer_cases (c : Clock τ) (server : Server τ) (e : Event τ) :
    (∃ user, server.CutsOff c e user ∧ server.answer c e =
        { server with redis := denyAllForUser c server.redis e.now user (c.units e.now) }) ∨
      (server.answer c e).redis =
          ((server.denied c e).foldl (Server.revoke c · e.now ·) server).redis ∧
        server.signed ⊆ (server.answer c e).signed := by
  obtain ⟨now, request⟩ := e
  cases request with
  | login pair => exact .inr ⟨rfl, List.subset_append_left _ _⟩
  | refresh oldRefresh pair =>
      refine .inr ?_
      simp only [Server.answer, Server.denied, Server.revoked]
      rcases refresh_cases c server now oldRefresh pair with
        ⟨haccepted, -, -, hafter⟩ | ⟨hrefused, hsame⟩
      · rw [if_pos haccepted, hafter]
        exact ⟨rfl, List.subset_append_left _ _⟩
      · rw [if_neg (by rw [hrefused]; decide), hsame]
        exact ⟨rfl, List.Subset.refl _⟩
  | logout bearer access refresh =>
      refine .inr ?_
      simp only [Server.answer, Server.denied, Server.revoked]
      rcases logout_cases c server now bearer access refresh with
        ⟨user, haccepted, hafter⟩ | ⟨⟨error, hrefused⟩, hsame⟩
      · rw [hafter]
        simp only [haccepted, logoutToken_signed, List.foldl_append]
        rw [logoutToken_eq_foldl .refresh, logoutToken_signed, logoutToken_eq_foldl .access]
        exact ⟨rfl, List.Subset.refl _⟩
      · rw [hsame]
        simp only [hrefused]
        exact ⟨rfl, List.Subset.refl _⟩
  | logoutAll bearer =>
      rcases logoutAll_cases c server now bearer with ⟨user, haccepted, hafter⟩ | hsame
      · exact .inl ⟨user, ⟨bearer, rfl, haccepted⟩, hafter⟩
      · refine .inr ?_
        simp only [Server.answer, Server.denied, Server.revoked]
        rw [hsame]
        exact ⟨rfl, List.Subset.refl _⟩
  | deny other => exact .inr ⟨rfl, List.Subset.refl _⟩

/-- Tokens stay signed. -/
theorem signed_subset_answer (c : Clock τ) (server : Server τ) (e : Event τ) :
    server.signed ⊆ (server.answer c e).signed := by
  rcases answer_cases c server e with ⟨user, -, hafter⟩ | ⟨-, hsigned⟩
  · rw [hafter]
    exact List.Subset.refl _
  · exact hsigned

/-- A request touches the denials of the tokens that it denies, and no others. -/
theorem answer_deny (hother : ∀ token ∈ server.denied c e, token.jti ≠ jti) :
    (server.answer c e).redis (.deny jti) = server.redis (.deny jti) := by
  rcases answer_cases c server e with ⟨user, -, hafter⟩ | ⟨hafter, -⟩
  · have hne : RedisKey.deny jti ≠ .logoutAll user := nofun
    rw [hafter]
    exact Expiring.set_of_ne hne (c.units e.now) (c.after e.now userCutoffTtlSeconds)
  · rw [hafter]
    exact foldl_revoke (f := fun server => server.redis (.deny jti)) fun server token htoken =>
      revoke_of_ne (hother token htoken)

/-- The cutoff of an account is moved by its logout from everywhere alone. -/
theorem answer_logoutAll (hother : ¬ server.CutsOff c e user) :
    (server.answer c e).redis (.logoutAll user) = server.redis (.logoutAll user) := by
  rcases answer_cases c server e with ⟨other, hcut, hafter⟩ | ⟨hafter, -⟩
  · rw [hafter]
    refine Expiring.set_of_ne (fun heq => hother ?_) _ _
    rw [RedisKey.logoutAll.inj heq]
    exact hcut
  · rw [hafter]
    exact foldl_revoke (f := fun server => server.redis (.logoutAll user)) fun _ _ _ =>
      revoke_logoutAll

/-- Only signed tokens are denied. -/
theorem denied_subset_signed (hadmits : server.Admits e.request) :
    server.denied c e ⊆ server.signed := by
  intro token htoken
  obtain ⟨now, request⟩ := e
  cases request with
  | login pair => cases htoken
  | refresh oldRefresh pair =>
      simp only [Server.denied, Server.revoked] at htoken
      rcases refresh_cases c server now oldRefresh pair with ⟨haccepted, hsigned, -⟩ | ⟨hrefused, -⟩
      · rw [if_pos haccepted] at htoken
        exact List.mem_singleton.mp htoken ▸ hsigned
      · rw [if_neg (by rw [hrefused]; decide)] at htoken
        cases htoken
  | logout bearer access refresh =>
      have hnamed : ∀ {tokenType rawToken}, token ∈ named c server.signed now tokenType rawToken →
          token ∈ server.signed := by
        intro tokenType rawToken hmem
        obtain ⟨-, hok⟩ := List.mem_filter.mp hmem
        cases hdecode : decode c server.signed now tokenType token with
        | error error =>
            rw [hdecode] at hok
            cases hok
        | ok _ => exact (decode_eq_ok_iff.mp hdecode).1
      simp only [Server.denied, Server.revoked] at htoken
      split at htoken
      · cases htoken
      · rcases List.mem_append.mp htoken with hmem | hmem
        · exact hnamed hmem
        · exact hnamed hmem
  | logoutAll bearer => cases htoken
  | deny other => exact List.mem_singleton.mp htoken ▸ hadmits

end

/-! ## 3. A token that is alive -/

/-- The token is signed, it is not denied, and the cutoff of its account is `cutoff`. -/
structure Server.Alive (server : Server τ) (token : Token) (cutoff : ℕ) : Prop where
  jtis_nodup : (server.signed.map Token.jti).Nodup
  signed : token ∈ server.signed
  free : server.redis (.deny token.jti) = none
  cutoff : ∃ ends, server.redis (.logoutAll token.userId) = some (cutoff, ends)

/-- The request revokes the token or its account. -/
def Server.Revokes (c : Clock τ) (server : Server τ) (e : Event τ) (token : Token) : Prop :=
  token ∈ server.denied c e ∨ server.CutsOff c e token.userId

section

variable {c : Clock τ} {server : Server τ} {e : Event τ} {token : Token} {cutoff : ℕ}

theorem Server.Alive.answer (h : server.Alive token cutoff) (hadmits : server.Admits e.request)
    (hquiet : ¬ server.Revokes c e token) : (server.answer c e).Alive token cutoff := by
  obtain ⟨hdenied, hcutsOff⟩ := not_or.mp hquiet
  refine ⟨nodup_answer h.jtis_nodup hadmits, signed_subset_answer c server e h.signed, ?_, ?_⟩
  · rw [answer_deny, h.free]
    -- another token with the same `jti` would be the same token
    intro other hother hjti
    obtain rfl := List.inj_on_of_nodup_map h.jtis_nodup (denied_subset_signed hadmits hother)
      h.signed hjti
    exact hdenied hother
  · rw [answer_logoutAll hcutsOff]
    exact h.cutoff

/-- It is accepted while it lasts, if it is newer than the cutoff. -/
theorem Server.Alive.accepted (h : server.Alive token cutoff) (htype : token.tokenType = .access)
    (hnewer : cutoff < token.iat) {t : τ} (hvalid : t < c.instant token.exp) :
    validateAndGetUser c server t token = .ok token.userId := by
  have hdecode : decode c server.signed t .access token = .ok () :=
    decode_eq_ok_iff.mpr ⟨h.signed, hvalid, htype⟩
  have hfree : isDenied server.redis t token.jti = false := by
    rw [isDenied, Expiring.get_of_eq_none h.free]
    rfl
  have hpassed : isDeniedForUser server.redis t token.userId token.iat = false := by
    obtain ⟨ends, hcutoff⟩ := h.cutoff
    unfold isDeniedForUser Expiring.get
    rw [hcutoff]
    dsimp only
    by_cases hlive : t < ends
    · rw [if_pos hlive]
      exact decide_eq_false (not_le.mpr hnewer)
    · rw [if_neg hlive]
  unfold validateAndGetUser
  rw [hdecode, hfree, hpassed]
  rfl

end

/-! ## 4. A pair minted after the cutoff -/

/-- A pair is minted: by a login, or for a refresh token. -/
def Server.Mints (c : Clock τ) (server : Server τ) (e : Event τ) (pair : TokenPair) : Prop :=
  e.request = .login pair ∨ ∃ oldRefresh, e.request = .refresh oldRefresh pair ∧
    (AuthController.refresh c server e.now oldRefresh pair).1.status = 200

section

variable {c : Clock τ} {server : Server τ} {e : Event τ} {pair : TokenPair} {v w : World τ}
  {es : List (Event τ)}

theorem signed_of_mints (h : server.Mints c e pair) : pair.access ∈ (server.answer c e).signed := by
  have hmem : ∀ signed : List Token, pair.access ∈ signed ++ [pair.refresh, pair.access] := by simp
  obtain ⟨now, request⟩ := e
  rcases h with hlogin | ⟨oldRefresh, hrefresh, haccepted⟩
  · obtain rfl : request = .login pair := hlogin
    exact hmem _
  · obtain rfl : request = .refresh oldRefresh pair := hrefresh
    change _ ∈ (AuthController.refresh c server now oldRefresh pair).2.signed
    rcases refresh_cases c server now oldRefresh pair with ⟨-, -, -, hafter⟩ | ⟨hrefused, -⟩
    · rw [hafter]
      exact hmem _
    · cases hrefused.symm.trans haccepted

theorem fresh_of_mints (h : server.Mints c e pair) (hadmits : server.Admits e.request) :
    Fresh server.signed pair := by
  obtain ⟨now, request⟩ := e
  rcases h with hlogin | ⟨oldRefresh, hrefresh, -⟩
  · obtain rfl : request = .login pair := hlogin
    exact hadmits
  · obtain rfl : request = .refresh oldRefresh pair := hrefresh
    exact hadmits

/-- In no run is a `jti` denied that no signed token has. -/
theorem run_free (h : Run (step c) (.initial c) es w) {jti : Uuid}
    (hnew : ∀ token ∈ w.server.signed, token.jti ≠ jti) : w.server.redis (.deny jti) = none := by
  revert hnew
  refine h.invariant (I := fun w => (∀ token ∈ w.server.signed, token.jti ≠ jti) →
    w.server.redis (.deny jti) = none) (fun _ => rfl) ?_
  intro t e u ht hstep hnew
  obtain ⟨hadmits, hafter⟩ := step_eq_some hstep
  rw [hafter] at hnew ⊢
  have hbefore : ∀ token ∈ t.server.signed, token.jti ≠ jti := fun token htoken =>
    hnew token (signed_subset_answer c t.server e htoken)
  rw [answer_deny fun token htoken => hbefore token (denied_subset_signed hadmits htoken)]
  exact ht hbefore

/-- A cutoff stays as long as the account is not logged out again. -/
theorem run_cutoff (h : Run (step c) v es w) {user : UserId}
    (hquiet : EveryStep (step c) v es fun w e => ¬ w.server.CutsOff c e user) :
    w.server.redis (.logoutAll user) = v.server.redis (.logoutAll user) := by
  have hstays := hquiet.everyState (P := fun _ w => w.server.redis (.logoutAll user) =
    v.server.redis (.logoutAll user)) rfl ?_
  · exact hstays es w (List.prefix_refl _) h
  · intro pre t e u _ ht hquiet hstep
    rw [(step_eq_some hstep).2, answer_logoutAll hquiet, ht]

theorem run_alive {token : Token} {cutoff : ℕ} (hv : v.server.Alive token cutoff)
    (h : Run (step c) v es w)
    (hquiet : EveryStep (step c) v es fun w e => ¬ w.server.Revokes c e token) :
    w.server.Alive token cutoff := by
  have halive := hquiet.everyState (P := fun _ w => w.server.Alive token cutoff) hv ?_
  · exact halive es w (List.prefix_refl _) h
  · intro pre t e u _ ht hquiet hstep
    obtain ⟨hadmits, hafter⟩ := step_eq_some hstep
    rw [hafter]
    exact ht.answer hadmits hquiet

end

/-- The token is accepted at every instant of its life, as long as neither it nor its account is
revoked. -/
def Works (v : World NNReal) (token : Token) : Prop :=
  ∀ later w, Run (step realSeconds) v later w →
    EveryStep (step realSeconds) v later (fun w e => ¬ w.server.Revokes realSeconds e token) →
    ∀ t, w.clock ≤ t → t < realSeconds.instant token.exp →
      validateAndGetUser realSeconds w.server t token = .ok token.userId

section

variable {earlier between : List (Event NNReal)} {v v' u u' : World NNReal} {T : NNReal}
  {bearer : Token} {user : UserId} {e : Event NNReal} {jtis : Jtis}

/-- The cutoff that a logout from everywhere leaves is there when the pair is minted. -/
theorem cutoff_of_logoutAll (hlogout : step realSeconds v ⟨T, .logoutAll bearer⟩ = some v')
    (haccepted : validateAndGetUser realSeconds v.server T bearer = .ok user)
    (hbetween : Run (step realSeconds) v' between u)
    (hquiet : EveryStep (step realSeconds) v' between fun w e => ¬ w.server.CutsOff realSeconds e user)
    (hmint : step realSeconds u e = some u') {pair : TokenPair}
    (hminted : u.server.Mints realSeconds e pair) :
    u'.server.redis (.logoutAll user) = some (⌊T⌋₊, T + userCutoffTtlSeconds) := by
  have hset : v'.server.redis (.logoutAll user) = some (⌊T⌋₊, T + userCutoffTtlSeconds) := by
    rw [(step_eq_some hlogout).2]
    change (AuthController.logoutAll realSeconds v.server T bearer).2.redis (.logoutAll user) = _
    unfold AuthController.logoutAll
    rw [haccepted]
    exact Expiring.set_self _ _ _ _
  have hmints : ¬ u.server.CutsOff realSeconds e user := by
    rintro ⟨other, hrequest, -⟩
    rcases hminted with hlogin | ⟨oldRefresh, hrefresh, -⟩
    · cases hlogin.symm.trans hrequest
    · cases hrefresh.symm.trans hrequest
  rw [(step_eq_some hmint).2, answer_logoutAll hmints, run_cutoff hbetween hquiet, hset]

/-- In the second of the cutoff, the new token is refused as soon as it is minted. -/
theorem not_works_of_le (jtis : Jtis) (hmint : step realSeconds u e = some u')
    (hcutoff : u'.server.redis (.logoutAll user) = some (⌊T⌋₊, T + userCutoffTtlSeconds))
    (hle : ⌊e.now⌋₊ ≤ ⌊T⌋₊) : ¬ Works u' (getToken e.now jtis user).access := by
  intro hworks
  have hclock : u'.clock = e.now := by
    unfold step at hmint
    split at hmint
    · cases hmint
      rfl
    · cases hmint
  have hok := hworks [] u' (run_nil_iff.mpr rfl) everyStep_nil e.now hclock.le
    (lt_exp_getToken e.now jtis user)
  -- the cutoff lasts for days
  have hlive : e.now < T + userCutoffTtlSeconds := by
    have hfloor : (⌊e.now⌋₊ : NNReal) ≤ ⌊T⌋₊ := Nat.cast_le.mpr hle
    calc e.now < ⌊e.now⌋₊ + 1 := Nat.lt_floor_add_one _
      _ ≤ T + 1 := by
        gcongr
        exact hfloor.trans (Nat.floor_le zero_le)
      _ ≤ T + userCutoffTtlSeconds := by
        gcongr
        norm_num [userCutoffTtlSeconds]
  have hdenied : isDeniedForUser u'.server.redis e.now (getToken e.now jtis user).access.userId
      (getToken e.now jtis user).access.iat = true := by
    change isDeniedForUser u'.server.redis e.now user ⌊e.now⌋₊ = true
    unfold isDeniedForUser Expiring.get
    rw [hcutoff]
    dsimp only
    rw [if_pos hlive]
    exact decide_eq_true hle
  unfold validateAndGetUser at hok
  split at hok
  · cases hok
  · split at hok
    · cases hok
    · cases hok

/-- **A fresh login after a logout from everywhere.**  The access token that is minted for the user
works until it expires exactly if it is minted in a later whole second than the logout. -/
theorem works_iff_later_second
    (hearlier : Run (step realSeconds) (.initial realSeconds) earlier v)
    (hlogout : step realSeconds v ⟨T, .logoutAll bearer⟩ = some v')
    (haccepted : validateAndGetUser realSeconds v.server T bearer = .ok user)
    (hbetween : Run (step realSeconds) v' between u)
    (hquiet : EveryStep (step realSeconds) v' between fun w e => ¬ w.server.CutsOff realSeconds e user)
    (hmint : step realSeconds u e = some u')
    (hminted : u.server.Mints realSeconds e (getToken e.now jtis user)) :
    Works u' (getToken e.now jtis user).access ↔ ⌊T⌋₊ < ⌊e.now⌋₊ := by
  have hcutoff := cutoff_of_logoutAll hlogout haccepted hbetween hquiet hmint hminted
  constructor
  · intro hworks
    by_contra hle
    exact not_works_of_le jtis hmint hcutoff (not_lt.mp hle) hworks
  · intro hlater later w hrun hrevoked t ht hvalid
    have hu : Run (step realSeconds) (.initial realSeconds)
        (earlier ++ [⟨T, .logoutAll bearer⟩] ++ between) u :=
      run_append_iff.mpr ⟨v', run_concat_iff.mpr ⟨v, hearlier, hlogout⟩, hbetween⟩
    obtain ⟨hadmits, hafter⟩ := step_eq_some hmint
    have hfresh := fresh_of_mints hminted hadmits
    have halive : u'.server.Alive (getToken e.now jtis user).access ⌊T⌋₊ := by
      refine ⟨?_, ?_, ?_, _, hcutoff⟩
      · exact run_nodup (run_concat_iff.mpr ⟨u, hu, hmint⟩)
      · rw [hafter]
        exact signed_of_mints hminted
      · -- nothing has been denied under a `jti` that is drawn now
        have hnew := run_free hu fun token htoken => (hfresh.2 token htoken).2
        rw [hafter, answer_deny, hnew]
        exact fun token htoken => (hfresh.2 token (denied_subset_signed hadmits htoken)).2
    exact (run_alive halive hrun hrevoked).accepted rfl hlater hvalid

end

/-! ## 5. A logout half a second after the epoch -/

/-- Who has logged in at the start is logged out everywhere at the half second. -/
noncomputable def afterLogout : World NNReal where
  server := {
    signed := [sampleToken .refresh 1, sampleToken .access 2]
    redis := Expiring.empty.set (.logoutAll 1) 0 (1 / 2 + userCutoffTtlSeconds) }
  clock := 1 / 2

theorem floor_half : ⌊(1 / 2 : NNReal)⌋₊ = 0 := by
  rw [Nat.floor_eq_zero]
  norm_num

theorem exists_run_afterLogout : ∃ v,
    Run (step realSeconds) (.initial realSeconds) [⟨0, .login (samplePair ⟨1, 2⟩)⟩] v ∧
    validateAndGetUser realSeconds v.server (1 / 2) (sampleToken .access 2) = .ok 1 ∧
    step realSeconds v ⟨1 / 2, .logoutAll (sampleToken .access 2)⟩ = some afterLogout := by
  let server : Server NNReal :=
    ⟨[sampleToken .refresh 1, sampleToken .access 2], Expiring.empty⟩
  have hlogin : Run (step realSeconds) (.initial realSeconds) [⟨0, .login (samplePair ⟨1, 2⟩)⟩]
      ⟨server, 0⟩ :=
    run_cons_iff.mpr ⟨_, if_pos ⟨le_rfl, by decide⟩, run_nil_iff.mpr rfl⟩
  have hdecode : decode realSeconds server.signed (1 / 2) .access (sampleToken .access 2) =
      .ok () := by
    refine decode_eq_ok_iff.mpr ⟨by decide, ?_, rfl⟩
    change (1 / 2 : NNReal) < ((10 : ℕ) : NNReal)
    norm_num
  have hvalid : validateAndGetUser realSeconds server (1 / 2) (sampleToken .access 2) = .ok 1 := by
    unfold validateAndGetUser
    rw [hdecode]
    rfl
  refine ⟨⟨server, 0⟩, hlogin, hvalid, ?_⟩
  have hstep : step realSeconds ⟨server, 0⟩ ⟨1 / 2, .logoutAll (sampleToken .access 2)⟩ =
      some ⟨(AuthController.logoutAll realSeconds server (1 / 2) (sampleToken .access 2)).2, 1 / 2⟩ :=
    if_pos ⟨zero_le, trivial⟩
  rw [hstep]
  unfold AuthController.logoutAll
  rw [hvalid]
  change some (World.mk ⟨server.signed, server.redis.set (.logoutAll 1) ⌊(1 / 2 : NNReal)⌋₊ _⟩ _) = _
  rw [floor_half]
  rfl

/-- A login leaves the cutoff. -/
theorem login_afterLogout {now : NNReal} (hnow : 1 / 2 ≤ now) : ∃ u',
    step realSeconds afterLogout ⟨now, .login (getToken now ⟨3, 4⟩ 1)⟩ = some u' ∧
    u'.server.redis (.logoutAll 1) =
      some (⌊(1 / 2 : NNReal)⌋₊, (1 / 2 + userCutoffTtlSeconds : NNReal)) := by
  have hfresh : Fresh afterLogout.server.signed (getToken now ⟨3, 4⟩ 1) := by
    refine ⟨show (3 : Uuid) ≠ 4 by decide, ?_⟩
    change ∀ token ∈ [sampleToken .refresh 1, sampleToken .access 2], token.jti ≠ 3 ∧ token.jti ≠ 4
    decide
  refine ⟨_, if_pos ⟨hnow, hfresh⟩, ?_⟩
  rw [floor_half]
  rfl

theorem works_iff_later_second_sample : ∃ v u',
    Run (step realSeconds) (.initial realSeconds) [⟨0, .login (samplePair ⟨1, 2⟩)⟩] v ∧
    step realSeconds v ⟨1 / 2, .logoutAll (sampleToken .access 2)⟩ = some afterLogout ∧
    step realSeconds afterLogout ⟨3 / 2, .login (getToken (3 / 2) ⟨3, 4⟩ 1)⟩ = some u' ∧
    (Works u' (getToken (3 / 2) ⟨3, 4⟩ 1).access ↔ ⌊(1 / 2 : NNReal)⌋₊ < ⌊(3 / 2 : NNReal)⌋₊) := by
  obtain ⟨v, hv, hvalid, hlogout⟩ := exists_run_afterLogout
  have hnow : (1 / 2 : NNReal) ≤ 3 / 2 := by
    rw [← NNReal.coe_le_coe]
    norm_num
  obtain ⟨u', hmint, -⟩ := login_afterLogout hnow
  have hbetween : Run (step realSeconds) afterLogout [] afterLogout := run_nil_iff.mpr rfl
  have hminted : afterLogout.server.Mints realSeconds
      ⟨3 / 2, .login (getToken (3 / 2) ⟨3, 4⟩ 1)⟩ (getToken (3 / 2) ⟨3, 4⟩ 1) := .inl rfl
  have hworks := works_iff_later_second hv hlogout hvalid hbetween everyStep_nil hmint hminted
  exact ⟨v, u', hv, hlogout, hmint, hworks⟩

/-- A quarter of a second later, what is minted is refused. -/
theorem not_works_sameSecond : ∃ v u',
    Run (step realSeconds) (.initial realSeconds) [⟨0, .login (samplePair ⟨1, 2⟩)⟩] v ∧
    step realSeconds v ⟨1 / 2, .logoutAll (sampleToken .access 2)⟩ = some afterLogout ∧
    step realSeconds afterLogout ⟨3 / 4, .login (getToken (3 / 4) ⟨3, 4⟩ 1)⟩ = some u' ∧
    ¬ Works u' (getToken (3 / 4) ⟨3, 4⟩ 1).access := by
  obtain ⟨v, hv, -, hlogout⟩ := exists_run_afterLogout
  have hnow : (1 / 2 : NNReal) ≤ 3 / 4 := by
    rw [← NNReal.coe_le_coe]
    norm_num
  have hsame : ⌊(3 / 4 : NNReal)⌋₊ ≤ ⌊(1 / 2 : NNReal)⌋₊ := by
    rw [floor_half, Nat.floor_eq_zero.mpr (by rw [← NNReal.coe_lt_coe]; norm_num)]
  obtain ⟨u', hmint, hcutoff⟩ := login_afterLogout hnow
  have hrefused := not_works_of_le ⟨3, 4⟩ hmint hcutoff hsame
  exact ⟨v, u', hv, hlogout, hmint, hrefused⟩

end DjasktTrading.Accounts.Clocked
