import DjasktTrading.Accounts.Api
import DjasktTrading.Reasoning.Clock
import DjasktTrading.Reasoning.Runs
import Mathlib.Data.NNReal.Basic

/-!
# Revocation — a denied token stays denied

The denylist and the endpoints that check and write it, on any clock.  On the clock of microseconds
they are those of `TokenDenylist` and `AuthController`.  The claims of the tokens that are signed
are any, only `jti`s do not repeat.
-/

open Reasoning

namespace DjasktTrading.Accounts.Clocked

/-! ## 1. The denylist on a clock -/

abbrev Redis (τ : Type) : Type := Expiring RedisKey ℕ τ

structure Server (τ : Type) where
  signed : List Token
  redis : Redis τ

variable {τ : Type} [LinearOrder τ] (c : Clock τ)

def deny (redis : Redis τ) (now : τ) (jti : Uuid) (ttlSeconds : ℤ) : Redis τ :=
  if ttlSeconds ≤ 0 then redis else redis.set (.deny jti) 1 (c.after now ttlSeconds.toNat)

def isDenied (redis : Redis τ) (now : τ) (jti : Uuid) : Bool := (redis.get now (.deny jti)).isSome

def denyAllForUser (redis : Redis τ) (now : τ) (userId : UserId) (cutoffTimestamp : ℕ) : Redis τ :=
  redis.set (.logoutAll userId) cutoffTimestamp (c.after now userCutoffTtlSeconds)

def isDeniedForUser (redis : Redis τ) (now : τ) (userId : UserId) (issuedAt : ℕ) : Bool :=
  match redis.get now (.logoutAll userId) with
  | none => false
  | some cutoff => issuedAt ≤ cutoff

/-! ## 2. The endpoints on a clock -/

/-- A token is valid before its `exp`. -/
def decode (signed : List Token) (now : τ) (tokenType : TokenType) (token : Token) :
    Except TokenError Unit :=
  if token ∉ signed then .error .invalid
  else if c.instant token.exp ≤ now then .error .expired
  else if token.tokenType ≠ tokenType then .error .wrongType
  else .ok ()

def validateAndGetUser (server : Server τ) (now : τ) (token : Token) : Except InvalidToken UserId :=
  match decode c server.signed now .access token with
  | .error e => .error (.token e)
  | .ok _ =>
      if isDenied server.redis now token.jti then .error (.detail "Token has been revoked.")
      else if isDeniedForUser server.redis now token.userId token.iat then
        .error (.detail "All sessions for this account have been logged out.")
      else .ok token.userId

/-- `deny` for what is left of the token's lifetime at the whole second that was read. -/
def Server.denyToken (server : Server τ) (now : τ) (nowTs : ℕ) (token : Token) : Server τ :=
  let remainingTtl : ℤ := token.exp - nowTs
  { server with redis := deny c server.redis now token.jti remainingTtl }

def Server.revoke (server : Server τ) (now : τ) (token : Token) : Server τ :=
  server.denyToken c now (c.units now) token

def Server.sign (server : Server τ) (pair : TokenPair) : Server τ :=
  { server with signed := server.signed ++ [pair.refresh, pair.access] }

namespace AuthController

/-- `refresh`; `pair` is what it mints. -/
def refresh (server : Server τ) (now : τ) (oldRefresh : Token) (pair : TokenPair) :
    Response × Server τ :=
  match decode c server.signed now .refresh oldRefresh with
  | .error e => (⟨401, .tokenError e⟩, server)
  | .ok _ =>
      if isDenied server.redis now oldRefresh.jti then
        (⟨401, .detail "Refresh token has been revoked."⟩, server)
      else (⟨200, .tokens pair⟩, (server.revoke c now oldRefresh).sign pair)

def logoutToken (server : Server τ) (now : τ) (tokenType : TokenType) (rawToken : Option Token) :
    Server τ :=
  match rawToken with
  | none => server
  | some token =>
      match decode c server.signed now tokenType token with
      | .error _ => server
      | .ok _ => server.revoke c now token

def logout (server : Server τ) (now : τ) (bearer : Token) (access refresh : Option Token) :
    Response × Server τ :=
  match validateAndGetUser c server now bearer with
  | .error e => (e.response, server)
  | .ok _ =>
      let server := logoutToken c server now .access access
      let server := logoutToken c server now .refresh refresh
      (⟨200, .detail "Logged out."⟩, server)

def logoutAll (server : Server τ) (now : τ) (bearer : Token) : Response × Server τ :=
  match validateAndGetUser c server now bearer with
  | .error e => (e.response, server)
  | .ok user =>
      (⟨200, .detail "Logged out of all sessions."⟩,
        { server with redis := denyAllForUser c server.redis now user (c.units now) })

end AuthController

/-! ## 3. The clock of microseconds -/

section Microseconds

abbrev microseconds : Clock ℕ := .ticks second

def ofServer (server : Accounts.Server) : Server ℕ := ⟨server.signed, server.redis⟩

variable (server : Accounts.Server) (now : ℕ)

theorem decode_microseconds (tokenType : TokenType) (token : Token) :
    decode microseconds (ofServer server).signed now tokenType token =
      Accounts.decode server.signed now tokenType token := rfl

theorem validateAndGetUser_microseconds (token : Token) :
    validateAndGetUser microseconds (ofServer server) now token =
      Accounts.validateAndGetUser server now token := rfl

theorem revoke_microseconds (token : Token) :
    (ofServer server).revoke microseconds now token = ofServer (server.revoke now token) := rfl

theorem refresh_microseconds (oldRefresh : Token) (jtis : Jtis) :
    AuthController.refresh microseconds (ofServer server) now oldRefresh
        (getToken now jtis oldRefresh.userId) =
      Prod.map id ofServer (Accounts.AuthController.refresh server now oldRefresh jtis) := by
  unfold AuthController.refresh Accounts.AuthController.refresh
  rw [decode_microseconds]
  cases Accounts.decode server.signed now .refresh oldRefresh with
  | error e => rfl
  | ok _ =>
      change (if TokenDenylist.isDenied server.redis now oldRefresh.jti then _ else _) = _
      dsimp only
      split
      · rfl
      · rfl

theorem logoutToken_microseconds (tokenType : TokenType) (rawToken : Option Token) :
    AuthController.logoutToken microseconds (ofServer server) now tokenType rawToken =
      ofServer (Accounts.AuthController.logoutToken server now tokenType rawToken) := by
  cases rawToken with
  | none => rfl
  | some token =>
      unfold AuthController.logoutToken Accounts.AuthController.logoutToken
      dsimp only
      rw [decode_microseconds]
      cases Accounts.decode server.signed now tokenType token with
      | error e => rfl
      | ok _ => rfl

theorem logout_microseconds (bearer : Token) (access refresh : Option Token) :
    AuthController.logout microseconds (ofServer server) now bearer access refresh =
      Prod.map id ofServer (Accounts.AuthController.logout server now bearer access refresh) := by
  unfold AuthController.logout Accounts.AuthController.logout
  rw [validateAndGetUser_microseconds]
  cases Accounts.validateAndGetUser server now bearer with
  | error e => rfl
  | ok user =>
      dsimp only
      rw [logoutToken_microseconds, logoutToken_microseconds]
      rfl

theorem logoutAll_microseconds (bearer : Token) :
    AuthController.logoutAll microseconds (ofServer server) now bearer =
      Prod.map id ofServer (Accounts.AuthController.logoutAll server now bearer) := by
  unfold AuthController.logoutAll Accounts.AuthController.logoutAll
  rw [validateAndGetUser_microseconds]
  cases Accounts.validateAndGetUser server now bearer with
  | error e => rfl
  | ok user => rfl

end Microseconds

/-! ## 4. Runs -/

inductive Request where
  | login (pair : TokenPair)
  | refresh (oldRefresh : Token) (pair : TokenPair)
  | logout (bearer : Token) (access refresh : Option Token)
  | logoutAll (bearer : Token)
  /-- one more denial of a signed token, valid or not -/
  | deny (token : Token)

structure Event (τ : Type) where
  now : τ
  request : Request

structure World (τ : Type) where
  server : Server τ
  clock : τ

def World.initial : World τ where
  server := ⟨[], Expiring.empty⟩
  clock := c.start

/-- `uuid4` draws do not repeat. -/
def Fresh (signed : List Token) (pair : TokenPair) : Prop :=
  pair.refresh.jti ≠ pair.access.jti ∧
    ∀ token ∈ signed, token.jti ≠ pair.refresh.jti ∧ token.jti ≠ pair.access.jti

instance (signed : List Token) (pair : TokenPair) : Decidable (Fresh signed pair) :=
  instDecidableAnd

def Server.Admits (server : Server τ) : Request → Prop
  | .login pair => Fresh server.signed pair
  | .refresh _ pair => Fresh server.signed pair
  | .logout _ _ _ => True
  | .logoutAll _ => True
  | .deny token => token ∈ server.signed

instance (server : Server τ) (request : Request) : Decidable (server.Admits request) := by
  cases request
  · exact inferInstanceAs (Decidable (Fresh _ _))
  · exact inferInstanceAs (Decidable (Fresh _ _))
  · exact instDecidableTrue
  · exact instDecidableTrue
  · exact inferInstanceAs (Decidable (_ ∈ _))

def Server.answer (server : Server τ) (e : Event τ) : Server τ :=
  match e.request with
  | .login pair => server.sign pair
  | .refresh oldRefresh pair => (AuthController.refresh c server e.now oldRefresh pair).2
  | .logout bearer access refresh =>
      (AuthController.logout c server e.now bearer access refresh).2
  | .logoutAll bearer => (AuthController.logoutAll c server e.now bearer).2
  | .deny token => server.revoke c e.now token

def step (w : World τ) (e : Event τ) : Option (World τ) :=
  if w.clock ≤ e.now ∧ w.server.Admits e.request then some ⟨w.server.answer c e, e.now⟩ else none

/-- A token that a logout names, where it decodes. -/
def named (signed : List Token) (now : τ) (tokenType : TokenType) (rawToken : Option Token) :
    List Token :=
  rawToken.toList.filter fun token => (decode c signed now tokenType token).isOk

/-- The tokens that a rotation or a logout revokes. -/
def Server.revoked (server : Server τ) (e : Event τ) : List Token :=
  match e.request with
  | .refresh oldRefresh pair =>
      if (AuthController.refresh c server e.now oldRefresh pair).1.status = 200 then [oldRefresh]
      else []
  | .logout bearer access refresh =>
      match validateAndGetUser c server e.now bearer with
      | .error _ => []
      | .ok _ => named c server.signed e.now .access access ++
          named c server.signed e.now .refresh refresh
  | _ => []

/-! ## 5. Denied tokens -/

/-- A signed token whose denial lasts up to its `exp`, where no two signed tokens have one `jti`. -/
structure Server.Denies (server : Server τ) (token : Token) : Prop where
  jtis_nodup : (server.signed.map Token.jti).Nodup
  signed : token ∈ server.signed
  keeps : server.redis.Keeps (.deny token.jti) (fun _ => True) (c.instant token.exp)

section

variable {c} {server : Server τ} {now : τ} {token other : Token} {tokenType : TokenType}

theorem decode_eq_ok_iff {signed : List Token} {u : Unit} :
    decode c signed now tokenType token = .ok u ↔
      token ∈ signed ∧ now < c.instant token.exp ∧ token.tokenType = tokenType := by
  unfold decode
  by_cases hsigned : token ∈ signed
  · by_cases hexp : c.instant token.exp ≤ now
    · simp [hexp, hsigned]
    · by_cases htype : token.tokenType = tokenType
      · simp [hexp, hsigned, htype, not_le.mp hexp]
      · simp [hexp, hsigned, htype]
  · simp [hsigned]

/-- A denial for the rest of a lifetime is skipped if no whole second is left of it. -/
theorem denyToken_redis (server : Server τ) (now : τ) (nowTs : ℕ) (token : Token) :
    (server.denyToken c now nowTs token).redis =
      if token.exp ≤ nowTs then server.redis
      else server.redis.set (.deny token.jti) 1 (c.after now (token.exp - nowTs)) := by
  unfold Server.denyToken deny
  dsimp only
  by_cases hle : token.exp ≤ nowTs
  · rw [if_pos hle, if_pos (by omega)]
  · have hnat : ((token.exp : ℤ) - nowTs).toNat = token.exp - nowTs := by omega
    rw [if_neg hle, if_neg (by omega), hnat]

/-- The denial of a token that was valid when the second was read lasts up to its `exp`: the seconds
left are counted from a time that is rounded down. -/
theorem denyToken_keeps {read : τ} (hvalid : read < c.instant token.exp) (hread : read ≤ now) :
    (server.denyToken c now (c.units read) token).redis.Keeps (.deny token.jti) (fun _ => True)
      (c.instant token.exp) := by
  have hleft : ¬ token.exp ≤ c.units read := not_le.mpr (c.units_lt hvalid)
  rw [denyToken_redis, if_neg hleft]
  exact Expiring.keeps_set_self trivial (c.instant_le_after hread token.exp)

/-- A refresh rotates a valid token, or is refused and leaves the server as it is. -/
theorem refresh_cases (c : Clock τ) (server : Server τ) (now : τ) (oldRefresh : Token)
    (pair : TokenPair) :
    ((AuthController.refresh c server now oldRefresh pair).1.status = 200 ∧
        oldRefresh ∈ server.signed ∧ now < c.instant oldRefresh.exp ∧
        (AuthController.refresh c server now oldRefresh pair).2 =
          (server.revoke c now oldRefresh).sign pair) ∨
      ((AuthController.refresh c server now oldRefresh pair).1.status = 401 ∧
        (AuthController.refresh c server now oldRefresh pair).2 = server) := by
  unfold AuthController.refresh
  cases hdecode : decode c server.signed now .refresh oldRefresh with
  | error e => exact .inr ⟨rfl, rfl⟩
  | ok u =>
      obtain ⟨hsigned, hvalid, -⟩ := decode_eq_ok_iff.mp hdecode
      cases isDenied server.redis now oldRefresh.jti with
      | true => exact .inr ⟨rfl, rfl⟩
      | false => exact .inl ⟨rfl, hsigned, hvalid, rfl⟩

/-- A logout revokes what it is given, or is refused and leaves the server as it is. -/
theorem logout_cases (c : Clock τ) (server : Server τ) (now : τ) (bearer : Token)
    (access refresh : Option Token) :
    (∃ user, validateAndGetUser c server now bearer = .ok user ∧
        (AuthController.logout c server now bearer access refresh).2 =
          AuthController.logoutToken c (AuthController.logoutToken c server now .access access) now
            .refresh refresh) ∨
      ((∃ e, validateAndGetUser c server now bearer = .error e) ∧
        (AuthController.logout c server now bearer access refresh).2 = server) := by
  unfold AuthController.logout
  cases validateAndGetUser c server now bearer with
  | ok user => exact .inl ⟨user, rfl, rfl⟩
  | error e => exact .inr ⟨⟨e, rfl⟩, rfl⟩

omit [LinearOrder τ] in
theorem nodup_sign (h : (server.signed.map Token.jti).Nodup) {pair : TokenPair}
    (hfresh : Fresh server.signed pair) : ((server.sign pair).signed.map Token.jti).Nodup := by
  obtain ⟨hne, hnew⟩ := hfresh
  have hpair : ([pair.refresh, pair.access].map Token.jti).Nodup := by simpa using hne
  rw [Server.sign, List.map_append, List.nodup_append]
  refine ⟨h, hpair, ?_⟩
  intro jti hjti jti' hjti' heq
  obtain ⟨signed, hsigned, rfl⟩ := List.mem_map.mp hjti
  obtain ⟨hrefresh, haccess⟩ := hnew signed hsigned
  rcases List.mem_pair.mp hjti' with rfl | rfl
  · exact hrefresh heq
  · exact haccess heq

namespace Server.Denies

/-- A denial of a token, of the same one or another, at any time. -/
theorem denyToken (h : server.Denies c token) (hother : other ∈ server.signed) {read : τ}
    (hread : read ≤ now) : (server.denyToken c now (c.units read) other).Denies c token := by
  refine ⟨h.jtis_nodup, h.signed, ?_⟩
  rw [denyToken_redis]
  by_cases hskipped : other.exp ≤ c.units read
  · rw [if_pos hskipped]
    exact h.keeps
  · rw [if_neg hskipped]
    by_cases hjti : token.jti = other.jti
    · -- the same token, so its `exp` is the same
      obtain rfl := List.inj_on_of_nodup_map h.jtis_nodup h.signed hother hjti
      exact Expiring.keeps_set_self trivial (c.instant_le_after hread token.exp)
    · exact h.keeps.set_of_ne (fun heq => hjti (RedisKey.deny.inj heq)) _ _

theorem revoke (h : server.Denies c token) (hother : other ∈ server.signed) (now : τ) :
    (server.revoke c now other).Denies c token :=
  h.denyToken hother le_rfl

theorem sign (h : server.Denies c token) {pair : TokenPair} (hfresh : Fresh server.signed pair) :
    (server.sign pair).Denies c token where
  jtis_nodup := nodup_sign h.jtis_nodup hfresh
  signed := List.mem_append_left _ h.signed
  keeps := h.keeps

theorem denyAllForUser (h : server.Denies c token) (now : τ) (userId : UserId) (cutoff : ℕ) :
    ({ server with redis := Clocked.denyAllForUser c server.redis now userId cutoff } :
      Server τ).Denies c token :=
  ⟨h.jtis_nodup, h.signed, h.keeps.set_of_ne RedisKey.noConfusion _ _⟩

theorem logoutToken (h : server.Denies c token) (now : τ) (tokenType : TokenType)
    (rawToken : Option Token) :
    (AuthController.logoutToken c server now tokenType rawToken).Denies c token := by
  unfold AuthController.logoutToken
  split
  · exact h
  · split
    · exact h
    · rename_i hdecode
      exact h.revoke (decode_eq_ok_iff.mp hdecode).1 now

/-- What is denied stays so, whatever is answered next. -/
theorem answer (h : server.Denies c token) {e : Event τ} (hadmits : server.Admits e.request) :
    (server.answer c e).Denies c token := by
  obtain ⟨now, request⟩ := e
  cases request with
  | login pair => exact h.sign hadmits
  | refresh oldRefresh pair =>
      change (AuthController.refresh c server now oldRefresh pair).2.Denies c token
      rcases refresh_cases c server now oldRefresh pair with
        ⟨-, hsigned, -, hafter⟩ | ⟨-, hsame⟩
      · rw [hafter]
        exact (h.revoke hsigned now).sign hadmits
      · rwa [hsame]
  | logout bearer access refresh =>
      change (AuthController.logout c server now bearer access refresh).2.Denies c token
      rcases logout_cases c server now bearer access refresh with ⟨-, -, hafter⟩ | ⟨-, hsame⟩
      · rw [hafter]
        exact (h.logoutToken now .access access).logoutToken now .refresh refresh
      · rwa [hsame]
  | logoutAll bearer =>
      unfold Server.answer AuthController.logoutAll
      dsimp only
      split
      · exact h
      · exact h.denyAllForUser now _ _
  | deny other => exact h.revoke hadmits now

end Server.Denies

theorem logoutToken_signed (server : Server τ) (now : τ) (tokenType : TokenType)
    (rawToken : Option Token) :
    (AuthController.logoutToken c server now tokenType rawToken).signed = server.signed := by
  unfold AuthController.logoutToken
  split
  · rfl
  · split
    · rfl
    · rfl

/-- No two signed tokens ever have one `jti`. -/
theorem nodup_answer (h : (server.signed.map Token.jti).Nodup) {e : Event τ}
    (hadmits : server.Admits e.request) : ((server.answer c e).signed.map Token.jti).Nodup := by
  obtain ⟨now, request⟩ := e
  cases request with
  | login pair => exact nodup_sign h hadmits
  | refresh oldRefresh pair =>
      change ((AuthController.refresh c server now oldRefresh pair).2.signed.map Token.jti).Nodup
      rcases refresh_cases c server now oldRefresh pair with ⟨-, -, -, hafter⟩ | ⟨-, hsame⟩
      · rw [hafter]
        exact nodup_sign h hadmits
      · rwa [hsame]
  | logout bearer access refresh =>
      change ((AuthController.logout c server now bearer access refresh).2.signed.map Token.jti).Nodup
      rcases logout_cases c server now bearer access refresh with ⟨-, -, hafter⟩ | ⟨-, hsame⟩
      · rwa [hafter, logoutToken_signed, logoutToken_signed]
      · rwa [hsame]
  | logoutAll bearer =>
      unfold Server.answer AuthController.logoutAll
      dsimp only
      split
      · exact h
      · exact h
  | deny other => exact h

theorem denies_of_valid (hnodup : (server.signed.map Token.jti).Nodup)
    (hsigned : token ∈ server.signed) (hvalid : now < c.instant token.exp) :
    (server.revoke c now token).Denies c token :=
  ⟨hnodup, hsigned, denyToken_keeps hvalid le_rfl⟩

theorem logoutToken_denies {rawToken : Option Token}
    (hnodup : (server.signed.map Token.jti).Nodup)
    (h : token ∈ named c server.signed now tokenType rawToken) :
    (AuthController.logoutToken c server now tokenType rawToken).Denies c token := by
  obtain ⟨hraw, hok⟩ := List.mem_filter.mp h
  obtain rfl := Option.mem_toList.mp hraw
  unfold AuthController.logoutToken
  dsimp only
  cases hdecode : decode c server.signed now tokenType token with
  | error e =>
      rw [hdecode] at hok
      cases hok
  | ok u =>
      obtain ⟨hsigned, hvalid, -⟩ := decode_eq_ok_iff.mp hdecode
      exact denies_of_valid hnodup hsigned hvalid

/-- A rotation or a logout denies what it revokes. -/
theorem answer_denies (hnodup : (server.signed.map Token.jti).Nodup) {e : Event τ}
    (hadmits : server.Admits e.request) (h : token ∈ server.revoked c e) :
    (server.answer c e).Denies c token := by
  obtain ⟨now, request⟩ := e
  cases request with
  | login pair => cases h
  | refresh oldRefresh pair =>
      simp only [Server.revoked] at h
      split at h
      · rename_i haccepted
        obtain rfl := List.mem_singleton.mp h
        change (AuthController.refresh c server now token pair).2.Denies c token
        rcases refresh_cases c server now token pair with
          ⟨-, hsigned, hvalid, hafter⟩ | ⟨hrefused, -⟩
        · rw [hafter]
          exact (denies_of_valid hnodup hsigned hvalid).sign hadmits
        · rw [hrefused] at haccepted
          cases haccepted
      · cases h
  | logout bearer access refresh =>
      simp only [Server.revoked] at h
      change (AuthController.logout c server now bearer access refresh).2.Denies c token
      rcases logout_cases c server now bearer access refresh with
        ⟨user, haccepted, hafter⟩ | ⟨⟨e, hrefused⟩, -⟩
      · rw [haccepted] at h
        rw [hafter]
        rcases List.mem_append.mp h with h | h
        · exact (logoutToken_denies hnodup h).logoutToken now .refresh refresh
        · refine logoutToken_denies ?_ ?_
          · rwa [logoutToken_signed]
          · rwa [logoutToken_signed]
      · rw [hrefused] at h
        cases h
  | logoutAll bearer => cases h
  | deny other => cases h

/-- A denied token is over or its key is there. -/
theorem Server.Denies.expired_or_isDenied (h : server.Denies c token) (t : τ) :
    c.instant token.exp ≤ t ∨ isDenied server.redis t token.jti = true := by
  rcases le_or_gt (c.instant token.exp) t with hexpired | hvalid
  · exact .inl hexpired
  · obtain ⟨value, hget, -⟩ := h.keeps.get hvalid
    exact .inr (by rw [isDenied, hget]; rfl)

theorem Server.Denies.rejected (h : server.Denies c token) (t : τ) :
    (∀ user, validateAndGetUser c server t token ≠ .ok user) ∧
      ∀ pair, (AuthController.refresh c server t token pair).1.status = 401 := by
  have hreject : ∀ {tokenType u}, decode c server.signed t tokenType token = .ok u →
      isDenied server.redis t token.jti = true := by
    intro tokenType u hdecode
    obtain ⟨-, hvalid, -⟩ := decode_eq_ok_iff.mp hdecode
    exact (h.expired_or_isDenied t).resolve_left (not_le.mpr hvalid)
  constructor
  · intro user hok
    unfold validateAndGetUser at hok
    split at hok
    · cases hok
    · rename_i hdecode
      rw [hreject hdecode] at hok
      cases hok
  · intro pair
    unfold AuthController.refresh
    split
    · rfl
    · rename_i hdecode
      rw [hreject hdecode]
      rfl

end

/-! ## 6. Every run -/

section

variable {c} {v w : World τ} {e : Event τ} {es : List (Event τ)} {token : Token}

theorem step_eq_some (h : step c v e = some w) :
    v.server.Admits e.request ∧ w.server = v.server.answer c e := by
  unfold step at h
  split at h
  · rename_i hguard
    cases h
    exact ⟨hguard.2, rfl⟩
  · cases h

theorem run_nodup (h : Run (step c) (.initial c) es w) :
    (w.server.signed.map Token.jti).Nodup := by
  refine h.invariant (I := fun w => (w.server.signed.map Token.jti).Nodup) List.nodup_nil ?_
  intro t e u ht hstep
  obtain ⟨hadmits, hafter⟩ := step_eq_some hstep
  rw [hafter]
  exact nodup_answer ht hadmits

theorem run_denies (hv : v.server.Denies c token) (h : Run (step c) v es w) :
    w.server.Denies c token := by
  refine h.invariant (I := fun w => w.server.Denies c token) hv ?_
  intro t e u ht hstep
  obtain ⟨hadmits, hafter⟩ := step_eq_some hstep
  rw [hafter]
  exact ht.answer hadmits

/-- What is revoked in a run is denied ever after. -/
theorem denies_of_revoked {v' : World τ} {later : List (Event τ)}
    (hearlier : Run (step c) (.initial c) es v) (hstep : step c v e = some v')
    (hrevoked : token ∈ v.server.revoked c e) (hlater : Run (step c) v' later w) :
    w.server.Denies c token := by
  obtain ⟨hadmits, hafter⟩ := step_eq_some hstep
  refine run_denies ?_ hlater
  rw [hafter]
  exact answer_denies (run_nodup hearlier) hadmits hrevoked

end

/-- Seconds since the epoch, as real numbers. -/
noncomputable abbrev realSeconds : Clock NNReal := .ofFloor NNReal

/-- **Revocation is permanent.**  A token that a rotation or a logout of a run has revoked is past
its `exp` or has its key, at every time and whatever is answered since, and both checks reject it. -/
theorem rejected_of_revoked {es later : List (Event NNReal)} {e : Event NNReal}
    {v v' w : World NNReal} {token : Token}
    (hearlier : Run (step realSeconds) (.initial realSeconds) es v)
    (hstep : step realSeconds v e = some v') (hrevoked : token ∈ v.server.revoked realSeconds e)
    (hlater : Run (step realSeconds) v' later w) (t : NNReal) :
    ((token.exp : NNReal) ≤ t ∨ isDenied w.server.redis t token.jti = true) ∧
      (∀ user, validateAndGetUser realSeconds w.server t token ≠ .ok user) ∧
        ∀ pair, (AuthController.refresh realSeconds w.server t token pair).1.status = 401 := by
  have hdenies := denies_of_revoked hearlier hstep hrevoked hlater
  exact ⟨hdenies.expired_or_isDenied t, hdenies.rejected t⟩

/-- A token of user 1 that ends ten seconds after the epoch. -/
def sampleToken (tokenType : TokenType) (jti : Uuid) : Token where
  tokenType := tokenType
  exp := 10
  iat := 0
  jti := jti
  userId := 1

def samplePair (jtis : Jtis) : TokenPair where
  refresh := sampleToken .refresh jtis.refresh
  access := sampleToken .access jtis.access

/-- A rotation half a second after the login, and one more denial of the same token. -/
theorem rejected_of_revoked_rotated :
    ∃ v v' w : World NNReal,
      Run (step realSeconds) (.initial realSeconds) [⟨0, .login (samplePair ⟨1, 2⟩)⟩] v ∧
      step realSeconds v ⟨1 / 2, .refresh (sampleToken .refresh 1) (samplePair ⟨3, 4⟩)⟩ = some v' ∧
      sampleToken .refresh 1 ∈ v.server.revoked realSeconds
        ⟨1 / 2, .refresh (sampleToken .refresh 1) (samplePair ⟨3, 4⟩)⟩ ∧
      Run (step realSeconds) v' [⟨3 / 2, .deny (sampleToken .refresh 1)⟩] w ∧
      (((10 : ℕ) : NNReal) ≤ 5 ∨ isDenied w.server.redis 5 1 = true) ∧
      (∀ user, validateAndGetUser realSeconds w.server 5 (sampleToken .refresh 1) ≠ .ok user) ∧
      ∀ pair, (AuthController.refresh realSeconds w.server 5 (sampleToken .refresh 1) pair).1.status =
        401 := by
  let server : Server NNReal :=
    ⟨[sampleToken .refresh 1, sampleToken .access 2], Expiring.empty⟩
  have hlogin : Run (step realSeconds) (.initial realSeconds) [⟨0, .login (samplePair ⟨1, 2⟩)⟩]
      ⟨server, 0⟩ :=
    run_cons_iff.mpr ⟨_, if_pos ⟨le_rfl, by decide⟩, run_nil_iff.mpr rfl⟩
  have hdecode : decode realSeconds server.signed (1 / 2) .refresh (sampleToken .refresh 1) =
      .ok () := by
    refine decode_eq_ok_iff.mpr ⟨by decide, ?_, rfl⟩
    change (1 / 2 : NNReal) < ((10 : ℕ) : NNReal)
    norm_num
  have hrefresh : AuthController.refresh realSeconds server (1 / 2) (sampleToken .refresh 1)
      (samplePair ⟨3, 4⟩) = (⟨200, .tokens (samplePair ⟨3, 4⟩)⟩,
        (server.revoke realSeconds (1 / 2) (sampleToken .refresh 1)).sign (samplePair ⟨3, 4⟩)) := by
    unfold AuthController.refresh
    rw [hdecode]
    rfl
  have hstep : step realSeconds ⟨server, 0⟩
      ⟨1 / 2, .refresh (sampleToken .refresh 1) (samplePair ⟨3, 4⟩)⟩ =
        some ⟨(AuthController.refresh realSeconds server (1 / 2) (sampleToken .refresh 1)
          (samplePair ⟨3, 4⟩)).2, 1 / 2⟩ := if_pos ⟨zero_le, by decide⟩
  have hrevoked : sampleToken .refresh 1 ∈ server.revoked realSeconds
      ⟨1 / 2, .refresh (sampleToken .refresh 1) (samplePair ⟨3, 4⟩)⟩ := by
    simp only [Server.revoked, hrefresh, if_true, List.mem_singleton]
  rw [hrefresh] at hstep
  have hafter : (1 / 2 : NNReal) ≤ 3 / 2 := by
    rw [← NNReal.coe_le_coe]
    norm_num
  have hlater : Run (step realSeconds)
      ⟨(server.revoke realSeconds (1 / 2) (sampleToken .refresh 1)).sign (samplePair ⟨3, 4⟩), 1 / 2⟩
      [⟨3 / 2, .deny (sampleToken .refresh 1)⟩] _ :=
    run_cons_iff.mpr ⟨_, if_pos ⟨hafter, List.mem_cons_self⟩, run_nil_iff.mpr rfl⟩
  exact ⟨_, _, _, hlogin, hstep, hrevoked, hlater,
    rejected_of_revoked hlogin hstep hrevoked hlater 5⟩

end DjasktTrading.Accounts.Clocked
