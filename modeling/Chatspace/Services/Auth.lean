import Chatspace.Services.Messages
import Chatspace.Services.Sessions

/-!
# Login and refresh

* `authenticateAndLogin` — look the user up, verify the password, open a session;
* `refreshSession` — look the session up by the hash of its token, rotate the token;
* `login`, `refresh` — the routes.

Hashing, bcrypt, lower-casing and the character classes are those of `Primitives`.
-/

namespace Chatspace.Auth

open Interleave Store Sessions

/-- What the credentials code takes from its libraries. -/
structure Primitives where
  hashRefreshToken : RawToken → TokenHash
  hashResetToken : RawToken → TokenHash
  hashInviteToken : RawToken → TokenHash
  hashPassword : Text → Text
  verifyPassword : Text → Text → Bool
  lower : Text → Text
  normalizeNfc : Text → Text
  isAlpha : Char → Bool
  isDigit : Char → Bool

/-- Hashes are the tokens themselves, and passwords their own hashes. -/
def plainEnv : Primitives where
  hashRefreshToken n := n
  hashResetToken n := n
  hashInviteToken n := n
  hashPassword p := p
  verifyPassword p q := p = q
  lower s := s
  normalizeNfc s := s
  isAlpha := Char.isAlpha
  isDigit := Char.isDigit

/-- `str.strip`. -/
def strip (s : Text) : Text :=
  ((s.dropWhile Messages.isSpace).reverse.dropWhile Messages.isSpace).reverse

/-- The claims of an access token. -/
structure AccessToken where
  userId : UserId
  sessionId : SessionId
deriving DecidableEq

structure LoginResult where
  userId : UserId
  user : User
  accessToken : AccessToken
  refreshToken : RawToken

structure RefreshResult where
  accessToken : AccessToken
  refreshToken : RawToken

variable (env : Primitives)

/-- The user of that e-mail address, any letter case. -/
def findUserByEmail (email : Text) : Py (Option (UserId × User)) := do
  let rows ← Py.select .users fun _ u => env.lower u.email = env.lower (strip email)
  return rows.head?

def authenticateAndLogin (email password : Text) (sessionTtlDays : ℕ) : Py LoginResult := do
  match ← findUserByEmail env email with
  | none => .raise .invalidCredentialsError
  | some (userId, user) =>
    if !env.verifyPassword password user.hashedPassword then .raise .invalidCredentialsError
    else if !user.isActive then .raise .accountDeactivatedError
    else if user.mustChangePassword then .raise .mustChangePasswordError
    else
      let created ← createSession env.hashRefreshToken userId sessionTtlDays
      return ⟨userId, user, ⟨userId, created.id⟩, created.rawRefreshToken⟩

/-- `session.refresh_token_hash = …` and the new expiry. -/
def rotate (newHash : TokenHash) (sessionTtlDays : ℕ) (now : Time) (session : Session) : Session :=
  extendSessionExpiry { session with refreshTokenHash := newHash } sessionTtlDays now

/-- The session holding the hash of a token. -/
def findSessionByToken (rawRefreshToken : RawToken) : Py (Option (SessionId × Session)) := do
  let rows ← Py.select .sessions fun _ s =>
    s.refreshTokenHash = env.hashRefreshToken rawRefreshToken
  return rows.head?

/-- The part of a refresh after the checks. -/
def rotateSession (sessionId : SessionId) (userId : UserId) (sessionTtlDays : ℕ) (now : Time) :
    Py RefreshResult := do
  let newRawToken ← Prog.perform Op.tokenUrlsafe
  Py.flushUpdate .sessions sessionId (rotate (env.hashRefreshToken newRawToken) sessionTtlDays now)
  return ⟨⟨userId, sessionId⟩, newRawToken⟩

def refreshSession (rawRefreshToken : RawToken) (sessionTtlDays : ℕ) : Py RefreshResult := do
  let found ← findSessionByToken env rawRefreshToken
  let now ← Prog.perform Op.utcNow
  match found with
  | none => .raise .invalidRefreshTokenError
  | some (sessionId, session) =>
    if session.revokedAt.isSome || session.expiresAt ≤ now then .raise .invalidRefreshTokenError
    else
      match ← Py.get .users session.userId with
      | none => .raise .invalidRefreshTokenError
      | some user =>
        if !user.isActive then .raise .invalidRefreshTokenError
        else rotateSession env sessionId session.userId sessionTtlDays now

/-- `POST /auth/login`: credentials that fail are answered 401, a deactivated account 403. -/
def login (email password : Text) (sessionTtlDays : ℕ) : Py LoginResult :=
  Py.getDbSession <| (authenticateAndLogin env email password sessionTtlDays).handle fun e =>
    .raise (match e with
      | .invalidCredentialsError => .httpException 401
      | .accountDeactivatedError => .httpException 403
      | e => e)

/-- `POST /auth/refresh`: a token that fails is answered 401. -/
def refresh (rawRefreshToken : RawToken) (sessionTtlDays : ℕ) : Py RefreshResult :=
  Py.getDbSession <| (refreshSession env rawRefreshToken sessionTtlDays).handle fun e =>
    .raise (match e with
      | .invalidRefreshTokenError => .httpException 401
      | e => e)

end Chatspace.Auth
