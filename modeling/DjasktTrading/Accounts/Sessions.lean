import DjasktTrading.Accounts.Api
import DjasktTrading.Reasoning.Runs

/-!
# Sessions — what a logout from everywhere reaches

Runs of logins, refreshes, logouts and authenticated requests of any users at non-decreasing times.
Next to the server, a run keeps what has happened: the login that each token descends from, the
tokens exchanged or logged out, and the logouts from everywhere.
-/

open Reasoning

namespace DjasktTrading.Accounts

open TokenDenylist

/-! ## 1. Runs -/

inductive Request where
  | login (user : UserId) (jtis : Jtis)
  | refresh (oldRefresh : Token) (jtis : Jtis)
  | logout (bearer : Token) (access refresh : Option Token)
  | logoutAll (bearer : Token)
  /-- any other request that `validate_and_get_user` guards -/
  | authenticated (bearer : Token)

structure Event where
  now : ℕ
  request : Request

/-- A token with the time of the login that it descends from. -/
structure Issue where
  token : Token
  root : ℕ
deriving DecidableEq

structure World where
  server : Server
  clock : ℕ
  issues : List Issue
  /-- the tokens exchanged or logged out -/
  spent : List Uuid
  /-- the logouts from everywhere: who, when -/
  logouts : List (UserId × ℕ)

namespace World

def initial : World where
  server := .initial
  clock := 0
  issues := []
  spent := []
  logouts := []

/-- `uuid4` draws do not repeat. -/
def Drawable (w : World) (jtis : Jtis) : Prop :=
  jtis.refresh ≠ jtis.access ∧ ∀ i ∈ w.issues, i.token.jti ≠ jtis.refresh ∧ i.token.jti ≠ jtis.access

instance (w : World) (jtis : Jtis) : Decidable (w.Drawable jtis) := instDecidableAnd

/-- The pair minted for `user` is entered with its login. -/
def mint (w : World) (now : ℕ) (jtis : Jtis) (user : UserId) (root : ℕ) : List Issue :=
  w.issues ++ [⟨(getToken now jtis user).refresh, root⟩, ⟨(getToken now jtis user).access, root⟩]

/-- The login that a token descends from. -/
def rootOf (w : World) (token : Token) : Option ℕ :=
  (w.issues.find? (·.token = token)).map (·.root)

end World

/-- What a logout revokes of one of its tokens. -/
def loggedOut (signed : List Token) (now : ℕ) (tokenType : TokenType) (rawToken : Option Token) :
    List Uuid :=
  match rawToken with
  | none => []
  | some token =>
      match decode signed now tokenType token with
      | .error _ => []
      | .ok _ => [token.jti]

/-- The token that a request is accepted with. -/
def accepted? (server : Server) (e : Event) : Option Token :=
  let bearer? (bearer : Token) : Option Token :=
    match validateAndGetUser server e.now bearer with
    | .ok _ => some bearer
    | .error _ => none
  match e.request with
  | .login _ _ => none
  | .refresh oldRefresh jtis =>
      if (AuthController.refresh server e.now oldRefresh jtis).1.status = 200 then some oldRefresh
      else none
  | .logout bearer _ _ => bearer? bearer
  | .logoutAll bearer => bearer? bearer
  | .authenticated bearer => bearer? bearer

/-- Answer one request.  What has happened is entered if its token is accepted; the server itself
does not read what is entered. -/
def World.answer (w : World) (e : Event) : World :=
  match e.request with
  | .login user jtis => { w with
      server := (AuthController.login w.server e.now user jtis).2
      clock := e.now
      issues := w.mint e.now jtis user e.now }
  | .refresh oldRefresh jtis =>
      let server := (AuthController.refresh w.server e.now oldRefresh jtis).2
      match accepted? w.server e, w.rootOf oldRefresh with
      | some _, some root => { w with
          server
          clock := e.now
          issues := w.mint e.now jtis oldRefresh.userId root
          spent := w.spent ++ [oldRefresh.jti] }
      | _, _ => { w with server, clock := e.now }
  | .logout bearer access refresh =>
      let server := (AuthController.logout w.server e.now bearer access refresh).2
      match accepted? w.server e with
      | some _ => { w with
          server
          clock := e.now
          spent := w.spent ++ loggedOut w.server.signed e.now .access access ++
            loggedOut w.server.signed e.now .refresh refresh }
      | none => { w with server, clock := e.now }
  | .logoutAll bearer =>
      let server := (AuthController.logoutAll w.server e.now bearer).2
      match accepted? w.server e with
      | some _ => { w with
          server
          clock := e.now
          logouts := w.logouts ++ [(bearer.userId, e.now)] }
      | none => { w with server, clock := e.now }
  | .authenticated _ => { w with clock := e.now }

/-- The draws of a request, where it makes any. -/
def World.Draws (w : World) : Request → Prop
  | .login _ jtis => w.Drawable jtis
  | .refresh _ jtis => w.Drawable jtis
  | _ => True

instance (w : World) (request : Request) : Decidable (w.Draws request) := by
  cases request
  · exact inferInstanceAs (Decidable (w.Drawable _))
  · exact inferInstanceAs (Decidable (w.Drawable _))
  · exact instDecidableTrue
  · exact instDecidableTrue
  · exact instDecidableTrue

def step (w : World) (e : Event) : Option World :=
  if w.clock ≤ e.now ∧ w.Draws e.request then some (w.answer e) else none

/-! ## 2. The lineage of a session -/

/-- The token descends from a login of its user at or before a logout from everywhere. -/
def World.LoggedOutEverywhere (w : World) (token : Token) : Prop :=
  ∃ i ∈ w.issues, i.token = token ∧ ∃ T, (token.userId, T) ∈ w.logouts ∧ i.root ≤ T

/-- The request exchanges such a token, a refresh token that has not expired and has been neither
exchanged nor logged out. -/
def World.RefreshesLoggedOut (w : World) (e : Event) : Prop :=
  ∃ token jtis, e.request = .refresh token jtis ∧ token.tokenType = .refresh ∧
    e.now < token.exp * second ∧ token.jti ∉ w.spent ∧ w.LoggedOutEverywhere token

/-! ## 3. What a request does -/

namespace World

def tick (w : World) (now : ℕ) : World := { w with clock := now }

/-- A pair is minted now. -/
def issue (w : World) (jtis : Jtis) (user : UserId) (root : ℕ) : World :=
  { w with
    server := (w.server.mint w.clock jtis user).2
    issues := w.mint w.clock jtis user root }

/-- A token is revoked now. -/
def revoke (w : World) (token : Token) : World :=
  { w with
    server := w.server.revoke w.clock token
    spent := w.spent ++ [token.jti] }

/-- One of a logout's tokens is revoked now, if it is valid. -/
def logOut (w : World) (tokenType : TokenType) (rawToken : Option Token) : World :=
  match rawToken with
  | none => w
  | some token =>
      match decode w.server.signed w.clock tokenType token with
      | .error _ => w
      | .ok _ => w.revoke token

/-- All tokens of a user are revoked now. -/
def cutOff (w : World) (user : UserId) : World :=
  { w with
    server := { w.server with
      redis := denyAllForUser w.server.redis w.clock user (timestamp w.clock) }
    logouts := w.logouts ++ [(user, w.clock)] }

end World

/-- What a request can come to. -/
inductive Effect (w : World) (e : Event) : World → Prop where
  | none : Effect w e (w.tick e.now)
  | login (user : UserId) (jtis : Jtis) (request : e.request = .login user jtis) :
      Effect w e ((w.tick e.now).issue jtis user e.now)
  | refresh (token : Token) (jtis : Jtis) (root : ℕ) (request : e.request = .refresh token jtis)
      (accepted : accepted? w.server e = some token) (descends : w.rootOf token = some root) :
      Effect w e (((w.tick e.now).revoke token).issue jtis token.userId root)
  | logout (access refresh : Option Token) :
      Effect w e (((w.tick e.now).logOut .access access).logOut .refresh refresh)
  | logoutAll (user : UserId) : Effect w e ((w.tick e.now).cutOff user)

/-- A refresh token is accepted if it is valid and not denied. -/
theorem accepted?_refresh {server : Server} {e : Event} {oldRefresh : Token} {jtis : Jtis}
    (hrequest : e.request = .refresh oldRefresh jtis) {token : Token} :
    accepted? server e = some token ↔
      token = oldRefresh ∧ decode server.signed e.now .refresh oldRefresh = .ok () ∧
        isDenied server.redis e.now oldRefresh.jti = false := by
  simp only [accepted?, hrequest, Option.ite_none_right_eq_some, Option.some.injEq]
  rcases AuthController.refresh_cases server e.now oldRefresh jtis with
    ⟨hdecode, hdenied, heq⟩ | ⟨hdenied, body, heq⟩
  · rw [heq]
    simp [hdecode, hdenied, eq_comm]
  · rw [heq]
    constructor
    · rintro ⟨hstatus, -⟩
      exact absurd hstatus (show (401 : ℕ) ≠ 200 by decide)
    · rintro ⟨-, hdecode, hnot⟩
      rw [hdenied hdecode] at hnot
      cases hnot

/-- An accepted token has passed `validate_and_get_user`, or it is a refresh token to exchange. -/
theorem validated_or_refresh_of_accepted {server : Server} {e : Event} {token : Token}
    (h : accepted? server e = some token) :
    (∃ user, validateAndGetUser server e.now token = .ok user) ∨
      ∃ jtis, e.request = .refresh token jtis := by
  unfold accepted? at h
  dsimp only at h
  split at h
  case h_1 => cases h
  case h_2 oldRefresh jtis hrequest =>
    simp only [Option.ite_none_right_eq_some, Option.some.injEq] at h
    exact .inr ⟨jtis, by rw [hrequest, h.2]⟩
  -- the three requests that carry a bearer token
  all_goals
    split at h
    case h_1 user hok =>
      simp only [Option.some.injEq] at h
      exact .inl ⟨user, h ▸ hok⟩
    case h_2 => cases h

theorem logoutToken_signed (server : Server) (now : ℕ) (tokenType : TokenType)
    (rawToken : Option Token) :
    (AuthController.logoutToken server now tokenType rawToken).signed = server.signed := by
  unfold AuthController.logoutToken
  cases rawToken with
  | none => rfl
  | some token =>
      dsimp only
      rcases decode server.signed now tokenType token <;> rfl

theorem logOut_eq (w : World) (tokenType : TokenType) (rawToken : Option Token) :
    w.logOut tokenType rawToken =
      { w with
        server := AuthController.logoutToken w.server w.clock tokenType rawToken
        spent := w.spent ++ loggedOut w.server.signed w.clock tokenType rawToken } := by
  unfold World.logOut AuthController.logoutToken loggedOut
  cases rawToken with
  | none => simp
  | some token =>
      dsimp only
      cases decode w.server.signed w.clock tokenType token with
      | error error => simp
      | ok _ => rfl

theorem rootOf_eq_none {w : World} {token : Token} (h : w.rootOf token = none) :
    token ∉ w.issues.map (·.token) := by
  intro hmem
  obtain ⟨i, hi, rfl⟩ := List.mem_map.mp hmem
  have hnone := List.find?_eq_none.mp (Option.map_eq_none_iff.mp h) i hi
  exact hnone (decide_eq_true rfl)

theorem answer_effect {w : World} (hsigned : w.server.signed = w.issues.map (·.token))
    (e : Event) : Effect w e (w.answer e) := by
  rcases e with ⟨now, request⟩
  cases request with
  | login user jtis => exact .login user jtis rfl
  | authenticated bearer => exact .none
  | refresh oldRefresh jtis =>
      unfold World.answer
      dsimp only
      rcases AuthController.refresh_cases w.server now oldRefresh jtis with
        ⟨hdecode, hdenied, heq⟩ | ⟨hdenied, body, heq⟩
      · -- an accepted token has been issued, so it has a login
        have haccepted : accepted? w.server ⟨now, .refresh oldRefresh jtis⟩ = some oldRefresh :=
          (accepted?_refresh rfl).mpr ⟨rfl, hdecode, hdenied⟩
        cases hroot : w.rootOf oldRefresh with
        | none =>
            have hissued := (decode_eq_ok_iff.mp hdecode).1
            rw [hsigned] at hissued
            exact absurd hissued (rootOf_eq_none hroot)
        | some root =>
            rw [haccepted, heq]
            exact .refresh oldRefresh jtis root rfl haccepted hroot
      · have haccepted : accepted? w.server ⟨now, .refresh oldRefresh jtis⟩ = none := by
          rw [Option.eq_none_iff_forall_ne_some]
          intro token htoken
          obtain ⟨-, hdecode, hnot⟩ := (accepted?_refresh rfl).mp htoken
          rw [hdenied hdecode] at hnot
          cases hnot
        rw [haccepted, heq]
        exact .none
  | logout bearer access refresh =>
      unfold World.answer AuthController.logout accepted?
      dsimp only
      rcases validateAndGetUser w.server now bearer with error | user
      · exact .none
      · have heffect : Effect w ⟨now, .logout bearer access refresh⟩
            (((w.tick now).logOut .access access).logOut .refresh refresh) := .logout access refresh
        rw [logOut_eq, logOut_eq, logoutToken_signed] at heffect
        exact heffect
  | logoutAll bearer =>
      unfold World.answer AuthController.logoutAll accepted?
      dsimp only
      cases hbearer : validateAndGetUser w.server now bearer with
      | error error => exact .none
      | ok user =>
          obtain ⟨rfl, -⟩ := validateAndGetUser_eq_ok hbearer
          exact .logoutAll bearer.userId

end DjasktTrading.Accounts
