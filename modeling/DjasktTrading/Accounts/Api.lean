import DjasktTrading.Accounts.TokenDenylist

/-!
# Auth API — tokens, their validation, and the endpoints that mint and revoke them

A token is its payload; that it is signed is that the server has issued it.  Accounts stay as they
are: nobody is deleted or deactivated.  What the token library says about a bad token stands as the
reason it gives.
-/

open Reasoning

namespace DjasktTrading.Accounts

/-! ## 1. Tokens -/

inductive TokenType where
  | access
  | refresh
deriving DecidableEq

structure Token where
  tokenType : TokenType
  exp : ℕ
  iat : ℕ
  jti : Uuid
  userId : UserId
deriving DecidableEq

structure TokenPair where
  refresh : Token
  access : Token
deriving DecidableEq

/-- The `uuid4` draws of a token pair. -/
structure Jtis where
  refresh : Uuid
  access : Uuid
deriving DecidableEq

/-- `NINJA_JWT["REFRESH_TOKEN_LIFETIME"]` -/
def refreshTokenLifetime : ℕ := 7 * day

/-- `_seconds_until_utc_midnight` -/
def secondsUntilUtcMidnight (now : ℕ) : ℕ :=
  let tomorrow := now + day
  let midnight := tomorrow / day * day
  min (midnight - now) day

/-- `RefreshToken.for_user` -/
def refreshTokenForUser (now : ℕ) (jti : Uuid) (user : UserId) : Token where
  tokenType := .refresh
  exp := timestamp (now + refreshTokenLifetime)
  iat := timestamp now
  jti := jti
  userId := user

/-- `EmailTokenObtainPairInputSchema.get_token`: of the refresh token's claims, the access token
copies all but its type, `exp` and `jti`. -/
def getToken (now : ℕ) (jtis : Jtis) (user : UserId) : TokenPair :=
  let refresh := refreshTokenForUser now jtis.refresh user
  { refresh
    access := {
      tokenType := .access
      exp := timestamp (now + secondsUntilUtcMidnight now)
      iat := refresh.iat
      jti := jtis.access
      userId := refresh.userId } }

inductive TokenError where
  | invalid
  | expired
  | wrongType
deriving DecidableEq

/-- `AccessToken(raw)` and `RefreshToken(raw)`: signature, expiry, type. -/
def decode (signed : List Token) (now : ℕ) (tokenType : TokenType) (token : Token) :
    Except TokenError Unit :=
  if token ∉ signed then .error .invalid
  else if token.exp * second ≤ now then .error .expired
  else if token.tokenType ≠ tokenType then .error .wrongType
  else .ok ()

/-! ## 2. The check of every request -/

/-- The tokens that have been signed, and Redis. -/
structure Server where
  signed : List Token
  redis : Redis

def Server.initial : Server where
  signed := []
  redis := Expiring.empty

inductive InvalidToken where
  | token (e : TokenError)
  | detail (text : String)
deriving DecidableEq

open TokenDenylist

/-- `DenylistCheckingJWTAuth.validate_and_get_user` -/
def validateAndGetUser (server : Server) (now : ℕ) (token : Token) :
    Except InvalidToken UserId :=
  match decode server.signed now .access token with
  | .error e => .error (.token e)
  | .ok _ =>
      if isDenied server.redis now token.jti then .error (.detail "Token has been revoked.")
      else if isDeniedForUser server.redis now token.userId token.iat then
        .error (.detail "All sessions for this account have been logged out.")
      else .ok token.userId

/-! ## 3. Endpoints -/

inductive ResponseBody where
  | tokens (pair : TokenPair)
  | detail (text : String)
  | tokenError (e : TokenError)
deriving DecidableEq

structure Response where
  status : ℕ
  body : ResponseBody
deriving DecidableEq

def InvalidToken.response : InvalidToken → Response
  | .token e => ⟨401, .tokenError e⟩
  | .detail text => ⟨401, .detail text⟩

/-- Sign a new pair. -/
def Server.mint (server : Server) (now : ℕ) (jtis : Jtis) (user : UserId) :
    TokenPair × Server :=
  let pair := getToken now jtis user
  (pair, { server with signed := server.signed ++ [pair.refresh, pair.access] })

/-- Deny a token for the rest of its lifetime. -/
def Server.revoke (server : Server) (now : ℕ) (token : Token) : Server :=
  let remainingTtl : ℤ := token.exp - timestamp now
  { server with redis := deny server.redis now token.jti remainingTtl }

namespace AuthController

/-- `login`, once the credentials are accepted. -/
def login (server : Server) (now : ℕ) (user : UserId) (jtis : Jtis) : Response × Server :=
  let (pair, server) := server.mint now jtis user
  (⟨200, .tokens pair⟩, server)

def refresh (server : Server) (now : ℕ) (oldRefresh : Token) (jtis : Jtis) :
    Response × Server :=
  match decode server.signed now .refresh oldRefresh with
  | .error e => (⟨401, .tokenError e⟩, server)
  | .ok _ =>
      if isDenied server.redis now oldRefresh.jti then
        (⟨401, .detail "Refresh token has been revoked."⟩, server)
      else
        let server := server.revoke now oldRefresh
        let (pair, server) := server.mint now jtis oldRefresh.userId
        (⟨200, .tokens pair⟩, server)

/-- One round of the loop of `logout`. -/
def logoutToken (server : Server) (now : ℕ) (tokenType : TokenType) (rawToken : Option Token) :
    Server :=
  match rawToken with
  | none => server
  | some token =>
      match decode server.signed now tokenType token with
      | .error _ => server
      | .ok _ => server.revoke now token

def logout (server : Server) (now : ℕ) (bearer : Token) (access refresh : Option Token) :
    Response × Server :=
  match validateAndGetUser server now bearer with
  | .error e => (e.response, server)
  | .ok _ =>
      let server := logoutToken server now .access access
      let server := logoutToken server now .refresh refresh
      (⟨200, .detail "Logged out."⟩, server)

def logoutAll (server : Server) (now : ℕ) (bearer : Token) : Response × Server :=
  match validateAndGetUser server now bearer with
  | .error e => (e.response, server)
  | .ok user =>
      let cutoff := timestamp now
      (⟨200, .detail "Logged out of all sessions."⟩,
        { server with redis := denyAllForUser server.redis now user cutoff })

end AuthController

/-! ## 4. Lifetimes -/

/-- The access token ends at the next UTC midnight. -/
theorem add_secondsUntilUtcMidnight (now : ℕ) :
    now + secondsUntilUtcMidnight now = (now / day + 1) * day := by
  have hday : 0 < day := by decide
  have hmidnight : (now + day) / day = now / day + 1 := Nat.add_div_right now hday
  have hdiv := Nat.div_add_mod' now day
  have hmod := Nat.mod_lt now hday
  unfold secondsUntilUtcMidnight
  dsimp only
  rw [hmidnight, Nat.add_one_mul]
  omega

/-- No token lives longer than a refresh token. -/
theorem getToken_exp_le (now : ℕ) (jtis : Jtis) (user : UserId) :
    (getToken now jtis user).refresh.exp ≤ timestamp now + userCutoffTtlSeconds ∧
      (getToken now jtis user).access.exp ≤ timestamp now + userCutoffTtlSeconds := by
  have hsecond : 0 < second := by decide
  have hrefresh : timestamp (now + refreshTokenLifetime) =
      timestamp now + userCutoffTtlSeconds :=
    Nat.add_mul_div_right now userCutoffTtlSeconds hsecond
  refine ⟨hrefresh.le, ?_⟩
  -- an access token ends within a day, a refresh token lives seven
  have hle : now + secondsUntilUtcMidnight now ≤ now + refreshTokenLifetime := by
    have hcap : secondsUntilUtcMidnight now ≤ day := min_le_right _ _
    unfold refreshTokenLifetime
    omega
  exact (Nat.div_le_div_right hle).trans hrefresh.le

theorem decode_eq_ok_iff {signed : List Token} {now : ℕ} {tokenType : TokenType} {token : Token}
    {u : Unit} :
    decode signed now tokenType token = .ok u ↔
      token ∈ signed ∧ now < token.exp * second ∧ token.tokenType = tokenType := by
  unfold decode
  by_cases hsigned : token ∈ signed
  · by_cases hexp : token.exp * second ≤ now
    · simp [hexp, hsigned]
    · by_cases htype : token.tokenType = tokenType
      · simp [hexp, hsigned, htype, not_le.mp hexp]
      · simp [hexp, hsigned, htype]
  · simp [hsigned]

theorem validateAndGetUser_eq_ok {server : Server} {now : ℕ} {token : Token} {user : UserId}
    (h : validateAndGetUser server now token = .ok user) :
    user = token.userId ∧ token ∈ server.signed ∧ now < token.exp * second ∧
      token.tokenType = .access ∧ isDenied server.redis now token.jti = false ∧
      isDeniedForUser server.redis now token.userId token.iat = false := by
  unfold validateAndGetUser at h
  cases hdecode : decode server.signed now .access token with
  | error e => simp [hdecode] at h
  | ok u =>
      obtain ⟨hsigned, hexp, htype⟩ := decode_eq_ok_iff.mp hdecode
      simp only [hdecode] at h
      split_ifs at h with hdenied hcutoff
      exact ⟨(Except.ok.inj h).symm, hsigned, hexp, htype, by simpa using hdenied,
        by simpa using hcutoff⟩

/-- A refresh is answered with a pair, or refused and without effect. -/
theorem AuthController.refresh_cases (server : Server) (now : ℕ) (oldRefresh : Token)
    (jtis : Jtis) :
    (decode server.signed now .refresh oldRefresh = .ok () ∧
        isDenied server.redis now oldRefresh.jti = false ∧
        AuthController.refresh server now oldRefresh jtis =
          (⟨200, .tokens (getToken now jtis oldRefresh.userId)⟩,
            ((server.revoke now oldRefresh).mint now jtis oldRefresh.userId).2)) ∨
      ((decode server.signed now .refresh oldRefresh = .ok () →
          isDenied server.redis now oldRefresh.jti = true) ∧
        ∃ body, AuthController.refresh server now oldRefresh jtis = (⟨401, body⟩, server)) := by
  unfold AuthController.refresh
  cases decode server.signed now .refresh oldRefresh with
  | error e => exact .inr ⟨nofun, _, rfl⟩
  | ok _ =>
      cases isDenied server.redis now oldRefresh.jti with
      | false => exact .inl ⟨rfl, rfl, rfl⟩
      | true => exact .inr ⟨fun _ => rfl, _, rfl⟩

end DjasktTrading.Accounts
