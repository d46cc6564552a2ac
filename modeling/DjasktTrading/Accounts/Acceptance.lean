import DjasktTrading.Accounts.FreshLogin

/-!
# Acceptance — what an access token is worth

Revocations are kept as keys that expire, and cutoffs as whole seconds.  Over a run, all of it comes
to one condition on what has been requested: the token has not expired, no request has revoked it, and
its account has last been logged out everywhere in an earlier second than its `iat`.
-/

open Reasoning

namespace DjasktTrading.Accounts.Clocked

/-! ## 1. Lifetimes -/

/-- The pair that the request brings is what `get_token` mints for it. -/
def Event.MintsByGetToken (e : Event NNReal) : Prop :=
  match e.request with
  | .login pair => ∃ jtis user, pair = getToken e.now jtis user
  | .refresh oldRefresh pair => ∃ jtis, pair = getToken e.now jtis oldRefresh.userId
  | _ => True

/-- No access token outlives the day after its `iat`. -/
def Server.DayLong (server : Server NNReal) : Prop :=
  ∀ token ∈ server.signed, token.tokenType = .access → token.exp ≤ token.iat + 86400

theorem getToken_dayLong (now : NNReal) (jtis : Jtis) (user : UserId) :
    (getToken now jtis user).access.exp ≤ (getToken now jtis user).access.iat + 86400 := by
  change ⌊now + secondsUntilUtcMidnight now⌋₊ ≤ ⌊now⌋₊ + 86400
  rw [add_secondsUntilUtcMidnight, Nat.floor_natCast]
  have hdays : ⌊now / 86400⌋₊ = ⌊now⌋₊ / 86400 := Nat.floor_div_ofNat now 86400
  rw [hdays]
  omega

/-- What a request adds to the signed tokens. -/
theorem mem_signed_answer {τ : Type} [LinearOrder τ] {c : Clock τ} {server : Server τ} {e : Event τ}
    {token : Token} (h : token ∈ (server.answer c e).signed) :
    token ∈ server.signed ∨ ∃ pair, server.Mints c e pair ∧ token ∈ [pair.refresh, pair.access] := by
  obtain ⟨now, request⟩ := e
  cases request with
  | login pair =>
      rcases List.mem_append.mp h with h | h
      · exact .inl h
      · exact .inr ⟨pair, .inl rfl, h⟩
  | refresh oldRefresh pair =>
      change token ∈ (AuthController.refresh c server now oldRefresh pair).2.signed at h
      rcases refresh_cases c server now oldRefresh pair with
        ⟨haccepted, -, -, hafter⟩ | ⟨-, hsame⟩
      · rw [hafter] at h
        rcases List.mem_append.mp h with h | h
        · exact .inl h
        · exact .inr ⟨pair, .inr ⟨oldRefresh, rfl, haccepted⟩, h⟩
      · exact .inl (hsame ▸ h)
  | logout bearer access refresh =>
      change token ∈ (AuthController.logout c server now bearer access refresh).2.signed at h
      rcases logout_cases c server now bearer access refresh with ⟨-, -, hafter⟩ | ⟨-, hsame⟩
      · rw [hafter, logoutToken_signed, logoutToken_signed] at h
        exact .inl h
      · exact .inl (hsame ▸ h)
  | logoutAll bearer =>
      change token ∈ (AuthController.logoutAll c server now bearer).2.signed at h
      rcases logoutAll_cases c server now bearer with ⟨user, -, hafter⟩ | hsame
      · exact .inl (by rwa [hafter] at h)
      · exact .inl (hsame ▸ h)
  | deny other => exact .inl h

theorem Event.MintsByGetToken.exists_getToken {e : Event NNReal} (h : e.MintsByGetToken)
    {server : Server NNReal} {pair : TokenPair} (hmints : server.Mints realSeconds e pair) :
    ∃ jtis user, pair = getToken e.now jtis user := by
  obtain ⟨now, request⟩ := e
  rcases hmints with hlogin | ⟨oldRefresh, hrefresh, -⟩
  · obtain rfl : request = .login pair := hlogin
    exact h
  · obtain rfl : request = .refresh oldRefresh pair := hrefresh
    obtain ⟨jtis, hpair⟩ := h
    exact ⟨jtis, oldRefresh.userId, hpair⟩

theorem Server.DayLong.answer {server : Server NNReal} (h : server.DayLong) {e : Event NNReal}
    (hmints : e.MintsByGetToken) : (server.answer realSeconds e).DayLong := by
  intro token htoken htype
  rcases mem_signed_answer htoken with hold | ⟨pair, hpair, hmem⟩
  · exact h token hold htype
  · obtain ⟨jtis, user, rfl⟩ := hmints.exists_getToken hpair
    rcases List.mem_pair.mp hmem with rfl | rfl
    · cases htype
    · exact getToken_dayLong e.now jtis user

/-! ## 2. What a request does to a token -/

/-- The request does not revoke the token, and does not log its account out in the second of its `iat`
or later. -/
def Server.Spares (server : Server NNReal) (e : Event NNReal) (token : Token) : Prop :=
  token ∉ server.denied realSeconds e ∧
    (server.CutsOff realSeconds e token.userId → ⌊e.now⌋₊ < token.iat)

section

variable {v w : World NNReal} {e : Event NNReal} {es : List (Event NNReal)} {token : Token}

theorem step_clock (h : step realSeconds v e = some w) : v.clock ≤ e.now ∧ w.clock = e.now := by
  unfold step at h
  split at h
  · rename_i hguard
    cases h
    exact ⟨hguard.1, rfl⟩
  · cases h

theorem run_clock (h : Run (step realSeconds) v es w) : v.clock ≤ w.clock := by
  refine h.invariant (I := fun u => v.clock ≤ u.clock) le_rfl fun t e u ht hstep => ?_
  obtain ⟨hle, hclock⟩ := step_clock hstep
  exact ht.trans (hle.trans hclock.ge)

/-- A token that is denied while it is valid is denied ever after. -/
theorem denies_of_denied (hearlier : Run (step realSeconds) (.initial realSeconds) es v)
    (hstep : step realSeconds v e = some w) (hdenied : token ∈ v.server.denied realSeconds e)
    (hvalid : e.now < realSeconds.instant token.exp) : w.server.Denies realSeconds token := by
  obtain ⟨hadmits, hafter⟩ := step_eq_some hstep
  have hnodup := run_nodup hearlier
  rw [hafter]
  obtain ⟨now, request⟩ := e
  cases request with
  | deny other =>
      obtain rfl := List.mem_singleton.mp hdenied
      exact denies_of_valid hnodup hadmits hvalid
  | login pair => exact answer_denies hnodup hadmits hdenied
  | refresh oldRefresh pair => exact answer_denies hnodup hadmits hdenied
  | logout bearer access refresh => exact answer_denies hnodup hadmits hdenied
  | logoutAll bearer => exact answer_denies hnodup hadmits hdenied

/-- Up to the end of the token its account has a cutoff in the second of its `iat` or later. -/
structure World.CutOff (w : World NNReal) (token : Token) : Prop where
  keeps : w.server.redis.Keeps (.logoutAll token.userId) (token.iat ≤ ·)
    (realSeconds.instant token.exp)
  iat_le : token.iat ≤ ⌊w.clock⌋₊

/-- A cutoff lasts for seven days, a token for one. -/
theorem keeps_denyAllForUser {redis : Redis NNReal} {now : NNReal} (hday : token.exp ≤ token.iat + 86400)
    (hle : token.iat ≤ ⌊now⌋₊) :
    (denyAllForUser realSeconds redis now token.userId (realSeconds.units now)).Keeps
      (.logoutAll token.userId) (token.iat ≤ ·) (realSeconds.instant token.exp) := by
  refine Expiring.keeps_set_self hle ?_
  change (token.exp : NNReal) ≤ now + userCutoffTtlSeconds
  have hexp : token.exp ≤ ⌊now⌋₊ + userCutoffTtlSeconds := by
    unfold userCutoffTtlSeconds
    omega
  calc (token.exp : NNReal) ≤ (⌊now⌋₊ + userCutoffTtlSeconds : ℕ) := Nat.cast_le.mpr hexp
    _ = ⌊now⌋₊ + userCutoffTtlSeconds := Nat.cast_add _ _
    _ ≤ now + userCutoffTtlSeconds := by
      gcongr
      exact Nat.floor_le zero_le

theorem cutOff_of_cutsOff (hstep : step realSeconds v e = some w)
    (hcut : v.server.CutsOff realSeconds e token.userId) (hday : token.exp ≤ token.iat + 86400)
    (hle : token.iat ≤ ⌊e.now⌋₊) : w.CutOff token := by
  obtain ⟨-, hafter⟩ := step_eq_some hstep
  obtain ⟨bearer, hrequest, haccepted⟩ := hcut
  refine ⟨?_, by rwa [(step_clock hstep).2]⟩
  rw [hafter]
  unfold Server.answer AuthController.logoutAll
  simp only [hrequest, haccepted]
  exact keeps_denyAllForUser hday hle

theorem World.CutOff.step (h : v.CutOff token) (hday : token.exp ≤ token.iat + 86400)
    (hstep : Clocked.step realSeconds v e = some w) : w.CutOff token := by
  obtain ⟨hle, hclock⟩ := step_clock hstep
  have hlater : token.iat ≤ ⌊e.now⌋₊ := h.iat_le.trans (Nat.floor_mono hle)
  by_cases hcut : v.server.CutsOff realSeconds e token.userId
  · exact cutOff_of_cutsOff hstep hcut hday hlater
  · refine ⟨?_, by rwa [hclock]⟩
    obtain ⟨cutoff, ends, hkey, hrest⟩ := h.keeps
    refine ⟨cutoff, ends, ?_, hrest⟩
    rw [(step_eq_some hstep).2, answer_logoutAll hcut, hkey]

theorem World.CutOff.not_accepted (h : w.CutOff token) {t : NNReal}
    (hvalid : t < realSeconds.instant token.exp) (user : UserId) :
    validateAndGetUser realSeconds w.server t token ≠ .ok user := by
  intro hok
  obtain ⟨cutoff, hget, hle⟩ := h.keeps.get hvalid
  have hdenied : isDeniedForUser w.server.redis t token.userId token.iat = true := by
    unfold isDeniedForUser
    rw [hget]
    exact decide_eq_true hle
  unfold validateAndGetUser at hok
  split at hok
  · cases hok
  · split at hok
    · cases hok
    · cases hok

/-! ## 3. Runs -/

/-- A step that does not spare the token spoils it for the rest of the run. -/
theorem not_accepted_of_not_spares {later : List (Event NNReal)} {v' : World NNReal}
    (hearlier : Run (step realSeconds) (.initial realSeconds) es v)
    (hstep : step realSeconds v e = some v') (hlater : Run (step realSeconds) v' later w)
    (hday : token.exp ≤ token.iat + 86400) (hspoils : ¬ v.server.Spares e token) {t : NNReal}
    (ht : w.clock ≤ t) (hvalid : t < realSeconds.instant token.exp) (user : UserId) :
    validateAndGetUser realSeconds w.server t token ≠ .ok user := by
  have hnow : e.now ≤ t := (step_clock hstep).2 ▸ (run_clock hlater).trans ht
  by_cases hdenied : token ∈ v.server.denied realSeconds e
  · have hdenies := denies_of_denied hearlier hstep hdenied (lt_of_le_of_lt hnow hvalid)
    exact ((run_denies hdenies hlater).rejected t).1 user
  · obtain ⟨hcut, hle⟩ : v.server.CutsOff realSeconds e token.userId ∧ token.iat ≤ ⌊e.now⌋₊ := by
      by_contra hnot
      exact hspoils ⟨hdenied, fun hcut => not_le.mp fun hle => hnot ⟨hcut, hle⟩⟩
    have hcutOff := hlater.invariant (I := fun u => u.CutOff token)
      (cutOff_of_cutsOff hstep hcut hday hle) fun _ _ _ hu hstep => hu.step hday hstep
    exact hcutOff.not_accepted hvalid user

/-- What a run that spares a token leaves of it. -/
structure World.Spared (w : World NNReal) (token : Token) : Prop where
  free : (∀ other ∈ w.server.signed, other.jti = token.jti → other = token) →
    w.server.redis (.deny token.jti) = none
  passed : ∀ cutoff ends, w.server.redis (.logoutAll token.userId) = some (cutoff, ends) →
    cutoff < token.iat

theorem World.Spared.step (h : v.Spared token) (hspares : v.server.Spares e token)
    (hstep : Clocked.step realSeconds v e = some w) : w.Spared token := by
  obtain ⟨hadmits, hafter⟩ := step_eq_some hstep
  obtain ⟨hdenied, hcutoff⟩ := hspares
  constructor
  · intro hown
    have hbefore : ∀ other ∈ v.server.signed, other.jti = token.jti → other = token :=
      fun other hother => hown other (hafter ▸ signed_subset_answer realSeconds v.server e hother)
    rw [hafter, answer_deny, h.free hbefore]
    intro other hother hjti
    exact hdenied (hbefore other (denied_subset_signed hadmits hother) hjti ▸ hother)
  · intro cutoff ends hkey
    by_cases hcut : v.server.CutsOff realSeconds e token.userId
    · obtain ⟨bearer, hrequest, haccepted⟩ := id hcut
      rw [hafter] at hkey
      unfold Server.answer AuthController.logoutAll at hkey
      simp only [hrequest, haccepted] at hkey
      change (v.server.redis.set (.logoutAll token.userId) ⌊e.now⌋₊ _) _ = _ at hkey
      rw [Expiring.set_self] at hkey
      cases hkey
      exact hcutoff hcut
    · rw [hafter, answer_logoutAll hcut] at hkey
      exact h.passed cutoff ends hkey

theorem World.Spared.accepted (h : w.Spared token)
    (hown : ∀ other ∈ w.server.signed, other.jti = token.jti → other = token)
    (hsigned : token ∈ w.server.signed) (htype : token.tokenType = .access) {t : NNReal}
    (hvalid : t < realSeconds.instant token.exp) :
    validateAndGetUser realSeconds w.server t token = .ok token.userId := by
  have hdecode : decode realSeconds w.server.signed t .access token = .ok () :=
    decode_eq_ok_iff.mpr ⟨hsigned, hvalid, htype⟩
  have hfree : isDenied w.server.redis t token.jti = false := by
    rw [isDenied, Expiring.get_of_eq_none (h.free hown)]
    rfl
  have hpassed : isDeniedForUser w.server.redis t token.userId token.iat = false := by
    unfold isDeniedForUser
    cases hget : w.server.redis.get t (.logoutAll token.userId) with
    | none => rfl
    | some cutoff =>
        obtain ⟨ends, hkey, -⟩ := Expiring.get_eq_some_iff.mp hget
        exact decide_eq_false (not_le.mpr (h.passed cutoff ends hkey))
  unfold validateAndGetUser
  rw [hdecode, hfree, hpassed]
  rfl

/-- **What an access token is worth.**  After any run of logins, refreshes, logouts and logouts from
everywhere, of any users at any non-decreasing real times, an access token that the server has signed
is accepted at a later time exactly if it has not expired and every request of the run has spared it.
-/
theorem access_accepted_iff (hrun : Run (step realSeconds) (.initial realSeconds) es w)
    (hmints : ∀ e ∈ es, e.MintsByGetToken) (hsigned : token ∈ w.server.signed)
    (htype : token.tokenType = .access) {t : NNReal} (ht : w.clock ≤ t) :
    validateAndGetUser realSeconds w.server t token = .ok token.userId ↔
      t < realSeconds.instant token.exp ∧
        EveryStep (step realSeconds) (.initial realSeconds) es fun v e => v.server.Spares e token := by
  have hday : w.server.DayLong := by
    have hprefixes := hrun.induction
      (motive := fun es w => (∀ e ∈ es, e.MintsByGetToken) → w.server.DayLong) ?_ ?_
    · exact hprefixes hmints
    · intro _ token htoken
      cases htoken
    · intro es v e u _ ih hstep hmints
      rw [(step_eq_some hstep).2]
      exact (ih fun e he => hmints e (List.mem_append_left _ he)).answer (hmints e (by simp))
  constructor
  · intro hok
    have hvalid : t < realSeconds.instant token.exp := by
      unfold validateAndGetUser at hok
      split at hok
      · cases hok
      · rename_i hdecode
        exact (decode_eq_ok_iff.mp hdecode).2.1
    refine ⟨hvalid, fun pre e v hpre hv => ?_⟩
    by_contra hspoils
    obtain ⟨v', hstep⟩ := hrun.exists_step hpre hv
    obtain ⟨later, rfl⟩ := hpre
    obtain ⟨u, hu, hlater⟩ := run_append_iff.mp hrun
    obtain rfl := hu.unique (run_concat_iff.mpr ⟨v, hv, hstep⟩)
    exact not_accepted_of_not_spares hv hstep hlater (hday token hsigned htype) hspoils ht hvalid _ hok
  · rintro ⟨hvalid, hspares⟩
    have hspared := hspares.invariant (I := fun u => u.Spared token) hrun
      ⟨fun _ => rfl, nofun⟩ fun _ _ _ hu hspares hstep => hu.step hspares hstep
    have hnodup := run_nodup hrun
    exact hspared.accepted (fun other hother hjti => List.inj_on_of_nodup_map hnodup hother hsigned hjti)
      hsigned htype hvalid

end

/-- Two users who have logged in. -/
theorem access_accepted_iff_twoLogins :
    ∃ w, Run (step realSeconds) (.initial realSeconds)
        [⟨0, .login (getToken 0 ⟨1, 2⟩ 1)⟩, ⟨0, .login (getToken 0 ⟨3, 4⟩ 2)⟩] w ∧
      (validateAndGetUser realSeconds w.server 5 (getToken 0 ⟨1, 2⟩ 1).access = .ok 1 ↔
        5 < realSeconds.instant (getToken 0 ⟨1, 2⟩ 1).access.exp ∧
          EveryStep (step realSeconds) (.initial realSeconds)
            [⟨0, .login (getToken 0 ⟨1, 2⟩ 1)⟩, ⟨0, .login (getToken 0 ⟨3, 4⟩ 2)⟩]
            fun v e => v.server.Spares e (getToken 0 ⟨1, 2⟩ 1).access) := by
  have hfirst : Fresh [] (getToken 0 ⟨1, 2⟩ 1) := ⟨show (1 : Uuid) ≠ 2 by decide, nofun⟩
  have hsecond : Fresh [(getToken 0 ⟨1, 2⟩ 1).refresh, (getToken 0 ⟨1, 2⟩ 1).access]
      (getToken 0 ⟨3, 4⟩ 2) := by
    refine ⟨show (3 : Uuid) ≠ 4 by decide, fun token htoken => ?_⟩
    rcases List.mem_pair.mp htoken with rfl | rfl
    · exact show (1 : Uuid) ≠ 3 ∧ (1 : Uuid) ≠ 4 by decide
    · exact show (2 : Uuid) ≠ 3 ∧ (2 : Uuid) ≠ 4 by decide
  have hrun : Run (step realSeconds) (.initial realSeconds)
      [⟨0, .login (getToken 0 ⟨1, 2⟩ 1)⟩, ⟨0, .login (getToken 0 ⟨3, 4⟩ 2)⟩] _ :=
    run_cons_iff.mpr ⟨_, if_pos ⟨le_rfl, hfirst⟩,
      run_cons_iff.mpr ⟨_, if_pos ⟨le_rfl, hsecond⟩, run_nil_iff.mpr rfl⟩⟩
  refine ⟨_, hrun, access_accepted_iff hrun ?_ ?_ rfl zero_le⟩
  · intro e he
    rcases List.mem_pair.mp he with rfl | rfl
    · exact ⟨⟨1, 2⟩, 1, rfl⟩
    · exact ⟨⟨3, 4⟩, 2, rfl⟩
  · exact List.mem_append_left _ (by simp [getToken, Server.sign, Server.answer, World.initial])

end DjasktTrading.Accounts.Clocked
