import DjasktTrading.Accounts.Api
import DjasktTrading.Brokerage.Models

/-!
# First-message authentication — `authenticate_first_message`

`json.loads`, the decoding of a token's text and the texts of its exceptions are arguments.
-/

namespace DjasktTrading.Realtime

open Accounts Brokerage

structure Wire where
  loads : String → Except LoadsExn Json
  /-- the token that a text encodes -/
  token? : String → Option Token
  /-- `str(exc)` -/
  excText : InvalidToken → String

inductive FirstMessageExn where
  | webSocketAuthError (detail : String)
  /-- what the consumer does not catch -/
  | other
deriving DecidableEq

/-- The access token in a first message. -/
def readAccessToken (wire : Wire) (rawMessage : String) : Except FirstMessageExn String :=
  match wire.loads rawMessage with
  | .error .other => .error .other
  | .error .jsonDecodeError =>
      .error (.webSocketAuthError "First message was not valid JSON.")
  | .ok (.dict payload) =>
      match Dict.get? payload "type" with
      | some (.str "auth") =>
          match Dict.get? payload "access_token" with
          | some (.str accessToken) =>
              if accessToken = "" then
                .error (.webSocketAuthError "Auth message missing a string access_token.")
              else .ok accessToken
          | _ => .error (.webSocketAuthError "Auth message missing a string access_token.")
      | _ => .error (.webSocketAuthError
          "First message must be \x7b'type': 'auth', 'access_token': ...\x7d.")
  | .ok _ => .error (.webSocketAuthError
      "First message must be \x7b'type': 'auth', 'access_token': ...\x7d.")

def authenticateFirstMessage (wire : Wire) (server : Server) (now : ℕ) (rawMessage : String) :
    Except FirstMessageExn UserId := do
  let accessToken ← readAccessToken wire rawMessage
  let rejected (e : InvalidToken) : FirstMessageExn :=
    .webSocketAuthError ("Invalid or expired token: " ++ wire.excText e)
  match wire.token? accessToken with
  | none => .error (rejected (.token .invalid))
  | some token =>
      match validateAndGetUser server now token with
      | .error e => .error (rejected e)
      | .ok user => .ok user

/-- The message carries a token that `validate_and_get_user` accepts for the user. -/
def CarriesToken (wire : Wire) (server : Server) (now : ℕ) (rawMessage : String) (user : UserId) :
    Prop :=
  ∃ payload accessToken token, wire.loads rawMessage = .ok (.dict payload) ∧
    Dict.get? payload "access_token" = some (.str accessToken) ∧
    wire.token? accessToken = some token ∧ validateAndGetUser server now token = .ok user

section

variable {wire : Wire} {server : Server} {now : ℕ} {rawMessage accessToken : String} {user : UserId}

theorem readAccessToken_eq_ok (h : readAccessToken wire rawMessage = .ok accessToken) :
    ∃ payload, wire.loads rawMessage = .ok (.dict payload) ∧
      Dict.get? payload "access_token" = some (.str accessToken) := by
  unfold readAccessToken at h
  split at h
  · cases h
  · cases h
  · rename_i payload hloads
    refine ⟨payload, hloads, ?_⟩
    split at h
    · split at h
      · rename_i text htext
        split at h
        · cases h
        · cases h
          exact htext
      · cases h
    · cases h
  · cases h

theorem authenticateFirstMessage_eq_ok
    (h : authenticateFirstMessage wire server now rawMessage = .ok user) :
    CarriesToken wire server now rawMessage user := by
  unfold authenticateFirstMessage at h
  cases hread : readAccessToken wire rawMessage with
  | error e =>
      rw [hread] at h
      cases h
  | ok accessToken =>
      rw [hread] at h
      simp only [bind, Except.bind] at h
      obtain ⟨payload, hloads, hget⟩ := readAccessToken_eq_ok hread
      split at h
      · cases h
      · rename_i token htoken
        split at h
        · cases h
        · rename_i accepted hvalid
          cases h
          exact ⟨payload, accessToken, token, hloads, hget, htoken, hvalid⟩

end

end DjasktTrading.Realtime
