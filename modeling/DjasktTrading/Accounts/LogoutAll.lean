import DjasktTrading.Accounts.Sessions

/-!
# Logout from everywhere — when the whole lineage of a session is dead

The cutoff denies every token that was minted before it, for as long as the token could live.  The
refresh endpoint does not look at the cutoff: a refresh token that predates it buys tokens that do
not.
-/

open Reasoning

namespace DjasktTrading.Accounts

open TokenDenylist

/-! ## 1. What holds in every run -/

/-- The store agrees with what has happened. -/
structure Inv (w : World) : Prop where
  signed : w.server.signed = w.issues.map (·.token)
  jtis : (w.issues.map (·.token.jti)).Nodup
  iat : ∀ i ∈ w.issues, i.token.iat ≤ timestamp w.clock
  exp : ∀ i ∈ w.issues, i.token.exp ≤ i.token.iat + userCutoffTtlSeconds
  /-- a spent token is denied for as long as it lives -/
  denied : ∀ i ∈ w.issues, i.token.jti ∈ w.spent →
    w.server.redis.Keeps (.deny i.token.jti) (fun _ => True) (i.token.exp * second)
  /-- no other is -/
  free : ∀ jti, jti ∉ w.spent → w.server.redis (.deny jti) = none
  spent : ∀ jti ∈ w.spent, ∃ i ∈ w.issues, i.token.jti = jti
  /-- the cutoff is as late as each logout, and stays until what it denies has expired -/
  cutoff : ∀ x ∈ w.logouts, x.2 ≤ w.clock ∧
    w.server.redis.Keeps (.logoutAll x.1) (timestamp x.2 ≤ ·) (x.2 + userCutoffTtlSeconds * second)

theorem timestamp_mono {s t : ℕ} (h : s ≤ t) : timestamp s ≤ timestamp t := Nat.div_le_div_right h

namespace Inv

variable {w : World}

theorem initial : Inv .initial where
  signed := rfl
  jtis := List.nodup_nil
  iat := by simp [World.initial]
  exp := by simp [World.initial]
  denied := by simp [World.initial]
  free := fun _ _ => rfl
  spent := by simp [World.initial]
  cutoff := by simp [World.initial]

theorem tick (h : Inv w) {now : ℕ} (hnow : w.clock ≤ now) : Inv (w.tick now) where
  signed := h.signed
  jtis := h.jtis
  iat := fun i hi => (h.iat i hi).trans (timestamp_mono hnow)
  exp := h.exp
  denied := h.denied
  free := h.free
  spent := h.spent
  cutoff := fun x hx => ⟨(h.cutoff x hx).1.trans hnow, (h.cutoff x hx).2⟩

/-- A `jti` belongs to one token. -/
theorem eq_of_jti (h : Inv w) {i j : Issue} (hi : i ∈ w.issues) (hj : j ∈ w.issues)
    (heq : i.token.jti = j.token.jti) : i = j :=
  List.inj_on_of_nodup_map h.jtis hi hj heq

/-- A `jti` that no token has is not spent. -/
theorem not_spent (h : Inv w) {jti : Uuid} (hnew : ∀ i ∈ w.issues, i.token.jti ≠ jti) :
    jti ∉ w.spent := by
  intro hspent
  obtain ⟨i, hi, hjti⟩ := h.spent jti hspent
  exact hnew i hi hjti

/-- New tokens are issued now, under a `jti` that is not spent. -/
theorem mem_issue (h : Inv w) {jtis : Jtis} (hdraws : w.Drawable jtis) {user : UserId} {root : ℕ}
    {i : Issue} (hi : i ∈ (w.issue jtis user root).issues) :
    i ∈ w.issues ∨
      (i.token.iat = timestamp w.clock ∧ i.token.exp ≤ timestamp w.clock + userCutoffTtlSeconds ∧
        i.token.jti ∉ w.spent) := by
  obtain ⟨hrefresh, haccess⟩ := getToken_exp_le w.clock jtis user
  rcases List.mem_append.mp hi with hi | hi
  · exact .inl hi
  · simp only [List.mem_cons, List.not_mem_nil, or_false] at hi
    rcases hi with rfl | rfl
    · exact .inr ⟨rfl, hrefresh, h.not_spent fun j hj => (hdraws.2 j hj).1⟩
    · exact .inr ⟨rfl, haccess, h.not_spent fun j hj => (hdraws.2 j hj).2⟩

theorem issue (h : Inv w) {jtis : Jtis} (hdraws : w.Drawable jtis) (user : UserId) (root : ℕ) :
    Inv (w.issue jtis user root) where
  signed := by
    change w.server.signed ++ _ = _
    rw [h.signed]
    simp [World.issue, World.mint]
  jtis := by
    change ((w.issues ++ _).map _).Nodup
    rw [List.map_append, List.nodup_append]
    refine ⟨h.jtis, ?_, ?_⟩
    · simpa [getToken, refreshTokenForUser] using hdraws.1
    · -- an old `jti` is neither of the two that are drawn
      intro a ha b hb
      obtain ⟨i, hi, rfl⟩ := List.mem_map.mp ha
      simp only [List.map_cons, List.map_nil, List.mem_cons, List.not_mem_nil, or_false] at hb
      rcases hb with rfl | rfl
      · exact (hdraws.2 i hi).1
      · exact (hdraws.2 i hi).2
  iat := by
    intro i hi
    rcases h.mem_issue hdraws hi with hi | ⟨hiat, -, -⟩
    · exact h.iat i hi
    · exact hiat.le
  exp := by
    intro i hi
    rcases h.mem_issue hdraws hi with hi | ⟨hiat, hexp, -⟩
    · exact h.exp i hi
    · rw [hiat]
      exact hexp
  denied := by
    intro i hi hspent
    rcases h.mem_issue hdraws hi with hi | ⟨-, -, hnew⟩
    · exact h.denied i hi hspent
    · exact absurd hspent hnew
  free := h.free
  spent := by
    intro jti hspent
    obtain ⟨i, hi, hjti⟩ := h.spent jti hspent
    exact ⟨i, List.mem_append_left _ hi, hjti⟩
  cutoff := h.cutoff

theorem revoke (h : Inv w) {token : Token} (hissued : token ∈ w.server.signed)
    (hvalid : w.clock < token.exp * second) : Inv (w.revoke token) := by
  rw [h.signed] at hissued
  obtain ⟨issued, hmem, rfl⟩ := List.mem_map.mp hissued
  exact {
    signed := h.signed
    jtis := h.jtis
    iat := h.iat
    exp := h.exp
    denied := by
      intro i hi hspent
      -- the token revoked now is denied until it expires; earlier denials stay
      by_cases hjti : i.token.jti = issued.token.jti
      · obtain rfl := h.eq_of_jti hi hmem hjti
        change (deny w.server.redis w.clock i.token.jti _).Keeps _ _ _
        exact keeps_deny hvalid
      · refine Keeps.deny (h.denied i hi ?_) (fun heq => hjti (RedisKey.deny.inj heq)) _
        rcases List.mem_append.mp hspent with hspent | hspent
        · exact hspent
        · exact absurd (List.mem_singleton.mp hspent) hjti
    free := by
      intro jti hjti
      have hne : jti ≠ issued.token.jti := by
        rintro rfl
        exact hjti (List.mem_append_right _ (List.mem_singleton_self _))
      refine (deny_of_ne (fun heq => hne (RedisKey.deny.inj heq)) _).trans (h.free jti ?_)
      exact fun hspent => hjti (List.mem_append_left _ hspent)
    spent := by
      intro jti hspent
      rcases List.mem_append.mp hspent with hspent | hspent
      · exact h.spent jti hspent
      · exact ⟨issued, hmem, (List.mem_singleton.mp hspent).symm⟩
    cutoff := fun x hx => ⟨(h.cutoff x hx).1, Keeps.deny (h.cutoff x hx).2 RedisKey.noConfusion _⟩ }

theorem logOut (h : Inv w) (tokenType : TokenType) (rawToken : Option Token) :
    Inv (w.logOut tokenType rawToken) := by
  unfold World.logOut
  cases rawToken with
  | none => exact h
  | some token =>
      dsimp only
      cases hdecode : decode w.server.signed w.clock tokenType token with
      | error error => exact h
      | ok _ =>
          obtain ⟨hissued, hvalid, -⟩ := decode_eq_ok_iff.mp hdecode
          exact h.revoke hissued hvalid

theorem cutOff (h : Inv w) (user : UserId) : Inv (w.cutOff user) where
  signed := h.signed
  jtis := h.jtis
  iat := h.iat
  exp := h.exp
  denied := fun i hi hspent => Keeps.denyAllForUser (h.denied i hi hspent) _
  free := fun jti hjti =>
    (denyAllForUser_deny w.server.redis w.clock user (timestamp w.clock) jti).trans (h.free jti hjti)
  spent := h.spent
  cutoff := by
    intro x hx
    rcases List.mem_append.mp hx with hx | hx
    · obtain ⟨hclock, hkeeps⟩ := h.cutoff x hx
      refine ⟨hclock, ?_⟩
      by_cases huser : x.1 = user
      · -- the new cutoff takes the place of the old one, and is later
        rw [huser]
        exact Expiring.keeps_set_self (timestamp_mono hclock) (Nat.add_le_add_right hclock _)
      · exact hkeeps.set_of_ne (fun heq => huser (RedisKey.logoutAll.inj heq)) _ _
    · obtain rfl := List.mem_singleton.mp hx
      exact ⟨le_refl _, Expiring.keeps_set_self (le_refl _) (le_refl _)⟩

theorem effect (h : Inv w) {e : Event} {w' : World} (hclock : w.clock ≤ e.now)
    (hdraws : w.Draws e.request) (heffect : Effect w e w') : Inv w' := by
  have htick := h.tick hclock
  cases heffect with
  | none => exact htick
  | login user jtis hrequest =>
      rw [hrequest] at hdraws
      exact htick.issue hdraws user e.now
  | refresh token jtis root hrequest haccepted hroot =>
      rw [hrequest] at hdraws
      -- the old token is revoked before the new pair is minted
      obtain ⟨-, hdecode, -⟩ := (accepted?_refresh hrequest).mp haccepted
      obtain ⟨hissued, hvalid, -⟩ := decode_eq_ok_iff.mp hdecode
      exact (htick.revoke hissued hvalid).issue hdraws token.userId root
  | logout access refresh => exact (htick.logOut .access access).logOut .refresh refresh
  | logoutAll user => exact htick.cutOff user

theorem step (h : Inv w) {e : Event} {w' : World} (hstep : Accounts.step w e = some w') :
    Inv w' := by
  simp only [Accounts.step, Option.ite_none_right_eq_some, Option.some.injEq] at hstep
  obtain ⟨⟨hclock, hdraws⟩, rfl⟩ := hstep
  exact h.effect hclock hdraws (answer_effect h.signed e)

theorem of_run {es : List Event} (hrun : Run Accounts.step .initial es w) : Inv w :=
  hrun.invariant initial fun _ _ _ h hstep => h.step hstep

end Inv

/-! ## 2. Refresh tokens -/

section

variable {w : World}

theorem isDenied_eq_false_iff (h : Inv w) {now : ℕ} {token : Token}
    (hissued : token ∈ w.server.signed) (hvalid : now < token.exp * second) :
    isDenied w.server.redis now token.jti = false ↔ token.jti ∉ w.spent := by
  rw [h.signed] at hissued
  obtain ⟨i, hi, rfl⟩ := List.mem_map.mp hissued
  constructor
  · intro hdenied hspent
    rw [isDenied_of_keeps (h.denied i hi hspent) hvalid] at hdenied
    cases hdenied
  · intro hspent
    exact isDenied_of_eq_none (h.free _ hspent)

/-- A refresh token is accepted exactly if it is issued and has not expired, been exchanged or
logged out. -/
theorem refresh_accepted_iff (h : Inv w) {e : Event} {token : Token} {jtis : Jtis}
    (hrequest : e.request = .refresh token jtis) :
    accepted? w.server e = some token ↔
      token ∈ w.server.signed ∧ e.now < token.exp * second ∧ token.tokenType = .refresh ∧
        token.jti ∉ w.spent := by
  rw [accepted?_refresh hrequest, decode_eq_ok_iff]
  constructor
  · rintro ⟨-, ⟨hissued, hvalid, htype⟩, hdenied⟩
    exact ⟨hissued, hvalid, htype, (isDenied_eq_false_iff h hissued hvalid).mp hdenied⟩
  · rintro ⟨hissued, hvalid, htype, hspent⟩
    exact ⟨rfl, ⟨hissued, hvalid, htype⟩, (isDenied_eq_false_iff h hissued hvalid).mpr hspent⟩

theorem refreshesLoggedOut_iff (h : Inv w) {e : Event} :
    w.RefreshesLoggedOut e ↔ ∃ token jtis, e.request = .refresh token jtis ∧
      accepted? w.server e = some token ∧ w.LoggedOutEverywhere token := by
  constructor
  · rintro ⟨token, jtis, hrequest, htype, hvalid, hspent, hdead⟩
    have hissued : token ∈ w.server.signed := by
      obtain ⟨i, hi, rfl, -⟩ := hdead
      rw [h.signed]
      exact List.mem_map_of_mem hi
    exact ⟨token, jtis, hrequest,
      (refresh_accepted_iff h hrequest).mpr ⟨hissued, hvalid, htype, hspent⟩, hdead⟩
  · rintro ⟨token, jtis, hrequest, haccepted, hdead⟩
    obtain ⟨-, hvalid, htype, hspent⟩ := (refresh_accepted_iff h hrequest).mp haccepted
    exact ⟨token, jtis, hrequest, htype, hvalid, hspent, hdead⟩

end

/-! ## 3. Access tokens -/

/-- Every token of a lineage that was logged out everywhere has been minted by then. -/
def Settled (w : World) : Prop :=
  ∀ i ∈ w.issues, ∀ T, (i.token.userId, T) ∈ w.logouts → i.root ≤ T → i.token.iat ≤ timestamp T

namespace Settled

variable {w : World}

theorem issue (h : Settled w) {jtis : Jtis} {user : UserId} {root : ℕ}
    (hroot : ∀ T, (user, T) ∈ w.logouts → root ≤ T → w.clock ≤ T) :
    Settled (w.issue jtis user root) := by
  intro i hi T hT hle
  rcases List.mem_append.mp hi with hi | hi
  · exact h i hi T hT hle
  · simp only [List.mem_cons, List.not_mem_nil, or_false] at hi
    rcases hi with rfl | rfl
    · exact timestamp_mono (hroot T hT hle)
    · exact timestamp_mono (hroot T hT hle)

theorem revoke (h : Settled w) (token : Token) : Settled (w.revoke token) := h

theorem logOut (h : Settled w) (tokenType : TokenType) (rawToken : Option Token) :
    Settled (w.logOut tokenType rawToken) := by
  rw [logOut_eq]
  exact h

theorem cutOff (h : Settled w) (hinv : Inv w) (user : UserId) : Settled (w.cutOff user) := by
  intro i hi T hT hle
  rcases List.mem_append.mp hT with hT | hT
  · exact h i hi T hT hle
  · obtain ⟨-, rfl⟩ := Prod.mk.inj (List.mem_singleton.mp hT)
    exact hinv.iat i hi

theorem step (h : Settled w) (hinv : Inv w) {e : Event} {w' : World}
    (hstep : Accounts.step w e = some w') (hquiet : ¬ w.RefreshesLoggedOut e) : Settled w' := by
  simp only [Accounts.step, Option.ite_none_right_eq_some, Option.some.injEq] at hstep
  obtain ⟨⟨hclock, -⟩, rfl⟩ := hstep
  have htick : Settled (w.tick e.now) := h
  have hinvTick := hinv.tick hclock
  have heffect := answer_effect hinv.signed e
  generalize w.answer e = w' at heffect ⊢
  cases heffect with
  | none => exact htick
  | login user jtis hrequest => exact htick.issue fun T _ hle => hle
  | refresh token jtis root hrequest haccepted hroot =>
      refine (htick.revoke token).issue fun T hT hle => ?_
      -- a token that has been logged out everywhere is not exchanged
      obtain ⟨i, hi, rfl⟩ := Option.map_eq_some_iff.mp hroot
      have hissue : i ∈ w.issues := List.mem_of_find?_eq_some hi
      have htoken : i.token = token := by simpa using List.find?_some hi
      exact absurd ((refreshesLoggedOut_iff hinv).mpr
        ⟨token, jtis, hrequest, haccepted, i, hissue, htoken, T, hT, hle⟩) hquiet
  | logout access refresh => exact (htick.logOut .access access).logOut .refresh refresh
  | logoutAll user => exact htick.cutOff hinvTick user

/-- By induction on the run; the invariant of the prefix is there at each step. -/
theorem of_run {es : List Event} (hrun : Run Accounts.step .initial es w)
    (hquiet : EveryStep Accounts.step .initial es fun v e => ¬ v.RefreshesLoggedOut e) :
    Settled w := by
  refine hrun.induction (motive := fun es v =>
    EveryStep Accounts.step .initial es (fun v e => ¬ v.RefreshesLoggedOut e) → Settled v) ?_ ?_ hquiet
  · intro _ i hi
    cases hi
  · intro es t e u ht ih hstep hall
    obtain ⟨hearlier, hlast⟩ := (everyStep_concat_iff ht).mp hall
    exact (ih hearlier).step (Inv.of_run ht) hstep hlast

/-- The cutoff denies each of them for as long as it could live. -/
theorem not_accepted (h : Settled w) (hinv : Inv w) {token : Token} {now : ℕ} {user : UserId}
    (hdead : w.LoggedOutEverywhere token) :
    validateAndGetUser w.server now token ≠ .ok user := by
  intro hok
  obtain ⟨-, -, hvalid, -, -, hpassed⟩ := validateAndGetUser_eq_ok hok
  obtain ⟨i, hi, rfl, T, hT, hle⟩ := hdead
  obtain ⟨-, hcutoff⟩ := hinv.cutoff _ hT
  have hiat := h i hi T hT hle
  -- the cutoff outlives the token: it is set for as long as a refresh token lives
  have hend : now < T + userCutoffTtlSeconds * second := by
    have hfloor : timestamp T * second ≤ T := Nat.div_mul_le_self T second
    have hexp := Nat.mul_le_mul_right second ((hinv.exp i hi).trans (Nat.add_le_add_right hiat _))
    rw [Nat.add_mul] at hexp
    omega
  have hkeeps : w.server.redis.Keeps (.logoutAll i.token.userId) (i.token.iat ≤ ·)
      (T + userCutoffTtlSeconds * second) := by
    obtain ⟨value, ends, hkey, hvalue, hends⟩ := hcutoff
    exact ⟨value, ends, hkey, hiat.trans hvalue, hends⟩
  rw [isDeniedForUser_of_keeps hkeeps hend] at hpassed
  cases hpassed

end Settled

/-! ## 4. The lineage is dead -/

/-- The request is accepted with a token that descends from a login at or before a logout from
everywhere. -/
def World.AcceptsLoggedOut (w : World) (e : Event) : Prop :=
  ∃ token, accepted? w.server e = some token ∧ w.LoggedOutEverywhere token

/-- Only a refresh can be accepted with such a token, as long as none has been. -/
theorem Settled.refreshes_of_accepts {w : World} (h : Settled w) (hinv : Inv w) {e : Event}
    (haccepts : w.AcceptsLoggedOut e) : w.RefreshesLoggedOut e := by
  obtain ⟨token, haccepted, hdead⟩ := haccepts
  rcases validated_or_refresh_of_accepted haccepted with ⟨user, hok⟩ | ⟨jtis, hrequest⟩
  · exact absurd hok (h.not_accepted hinv hdead)
  · exact (refreshesLoggedOut_iff hinv).mpr ⟨token, jtis, hrequest, haccepted, hdead⟩

/-- **Logout from everywhere.**  No token of a lineage that was logged out everywhere is accepted in
a run, as access or as refresh token, exactly if none of its live refresh tokens is exchanged. -/
theorem lineageDead_iff_not_refreshed {es : List Event} {w : World}
    (hrun : Run step .initial es w) :
    EveryStep step .initial es (fun v e => ¬ v.AcceptsLoggedOut e) ↔
      EveryStep step .initial es (fun v e => ¬ v.RefreshesLoggedOut e) := by
  constructor
  · -- an exchange is itself an acceptance
    intro h
    refine h.imp hrun fun earlier e v u hv _ _ hquiet hrefreshes => ?_
    obtain ⟨token, jtis, -, haccepted, hdead⟩ :=
      (refreshesLoggedOut_iff (Inv.of_run hv)).mp hrefreshes
    exact hquiet ⟨token, haccepted, hdead⟩
  · -- where no exchange has been, the lineage is settled, and only an exchange is accepted
    intro h
    refine h.imp hrun fun earlier e v u hv hearlier _ hquiet haccepts => ?_
    exact hquiet ((Settled.of_run hv hearlier).refreshes_of_accepts (Inv.of_run hv) haccepts)

/-- What user 1 is given by a login at the start, and for the refresh token of it two seconds
later. -/
def loginPair : TokenPair := getToken 0 ⟨1, 2⟩ 1

def refreshedPair : TokenPair := getToken (2 * second) ⟨3, 4⟩ 1

/-- The user logs in, logs out everywhere, and presents the refresh token of the login. -/
def refreshAfterLogoutAll : List Event :=
  [⟨0, .login 1 ⟨1, 2⟩⟩, ⟨second, .logoutAll loginPair.access⟩,
   ⟨2 * second, .refresh loginPair.refresh ⟨3, 4⟩⟩]

def useRefreshed : Event := ⟨2 * second, .authenticated refreshedPair.access⟩

theorem exists_run_refreshAfterLogoutAll :
    ∃ w, Run step .initial (refreshAfterLogoutAll ++ [useRefreshed]) w := by
  have hrun : (exec step .initial (refreshAfterLogoutAll ++ [useRefreshed])).isSome := by
    decide +kernel
  exact Option.isSome_iff_exists.mp hrun

theorem lineageDead_iff_not_refreshed_refreshAfterLogoutAll :
    EveryStep step .initial (refreshAfterLogoutAll ++ [useRefreshed])
        (fun v e => ¬ v.AcceptsLoggedOut e) ↔
      EveryStep step .initial (refreshAfterLogoutAll ++ [useRefreshed])
        (fun v e => ¬ v.RefreshesLoggedOut e) := by
  obtain ⟨w, hrun⟩ := exists_run_refreshAfterLogoutAll
  exact lineageDead_iff_not_refreshed hrun

/-- The access token of the new pair is accepted, in the lineage that was logged out. -/
theorem not_lineageDead_refreshAfterLogoutAll :
    ¬ EveryStep step .initial (refreshAfterLogoutAll ++ [useRefreshed])
        (fun v e => ¬ v.AcceptsLoggedOut e) := by
  intro h
  have hreached : (exec step .initial refreshAfterLogoutAll).map
      (fun v => (accepted? v.server useRefreshed, v.issues, v.logouts)) =
      some (some refreshedPair.access,
        [⟨loginPair.refresh, 0⟩, ⟨loginPair.access, 0⟩, ⟨refreshedPair.refresh, 0⟩,
          ⟨refreshedPair.access, 0⟩], [(1, second)]) := by
    decide +kernel
  obtain ⟨v, hv, heq⟩ := Option.map_eq_some_iff.mp hreached
  obtain ⟨haccepted, hrest⟩ := Prod.mk.inj heq
  obtain ⟨hissues, hlogouts⟩ := Prod.mk.inj hrest
  refine h refreshAfterLogoutAll useRefreshed v (List.prefix_refl _) hv
    ⟨refreshedPair.access, haccepted, ⟨refreshedPair.access, 0⟩, ?_, rfl, second, ?_, Nat.zero_le _⟩
  · rw [hissues]
    simp
  · rw [hlogouts]
    exact List.mem_singleton_self _

end DjasktTrading.Accounts
