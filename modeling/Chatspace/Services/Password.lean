import Chatspace.Services.Auth

/-!
# Passwords

* `checkPasswordPolicy`, `enforcePasswordPolicy` — what a new password has to be;
* `findValidResetToken` — a reset token that is neither used nor expired;
* `createPasswordResetToken`, `processPasswordResetRequest` — the issue of a new one, in a session of
  its own;
* `confirmPasswordReset`, `changePassword` — the routes that set a new password and revoke the
  user's sessions.

The token, the user and the sessions are changed in one flush, which the model orders by table.
-/

namespace Chatspace.Password

open Interleave Store Sessions Auth

/-- `MIN_LENGTH`. -/
def minLength : ℕ := 6

variable (env : Primitives)

def checkPasswordPolicy (password : Text) : List String :=
  (if password.length < minLength then ["must be at least 6 characters long"] else []) ++
  (if strip password = [] then ["must not be blank"] else []) ++
  (if !(password.any env.isAlpha && password.any env.isDigit) then
    ["must contain at least one letter and one digit"] else [])

def enforcePasswordPolicy (password : Text) (fieldName : String) : Py Unit :=
  let violations := checkPasswordPolicy env password
  if violations = [] then return ()
  else .raise (.passwordPolicyError (violations.map fun violation => (fieldName, violation)))

def findValidResetToken (rawToken : RawToken) : Py (Option (ℕ × PasswordResetToken)) := do
  let ts ← Prog.perform Op.utcNow
  let rows ← Py.select .passwordResetTokens fun _ t => t.tokenHash = env.hashResetToken rawToken
  return rows.head?.filter fun t => t.2.usedAt.isNone && ts < t.2.expiresAt

/-- `mark_reset_token_used`. -/
def markResetTokenUsed (now : Time) (token : PasswordResetToken) : PasswordResetToken :=
  { token with usedAt := some now }

/-- `RESET_TOKEN_TTL`. -/
def resetTokenTtl : Time := 60 * 60

/-- Mark every unused token of the user, the updates in the order of the primary key. -/
def invalidateOutstandingResetTokens (userId : UserId) (ts : Time) : Py Unit := do
  let outstanding ← Py.select .passwordResetTokens fun _ t => t.userId = userId && t.usedAt.isNone
  let _ ← Prog.forEach ((outstanding.map Prod.fst).insertionSort (· ≤ ·)) fun id =>
    Py.flushUpdate .passwordResetTokens id (markResetTokenUsed ts)
  return ()

def createPasswordResetToken (userId : UserId) : Py RawToken := do
  let ts ← Prog.perform Op.utcNow
  invalidateOutstandingResetTokens userId ts
  let rawToken ← Prog.perform Op.tokenUrlsafe
  let id ← Prog.perform Op.generateId
  let _ ← Py.flushInsert .passwordResetTokens id fun _ =>
    ⟨userId, env.hashResetToken rawToken, ts + resetTokenTtl, none⟩
  return rawToken

/-- The part of a request that has the session; whether a token was issued. -/
def issueResetToken (email : Text) : Py Bool := do
  match ← findUserByEmail env email with
  | none => return false
  | some (userId, _) =>
    let _ ← createPasswordResetToken env userId
    Py.commit
    return true

/-- `_process_password_reset_request`: a failed delivery is not reported. -/
def processPasswordResetRequest (email : Text) : Py Unit := do
  let issued ← Py.tryFinally
    (Py.exceptException (issueResetToken env email) fun e => Py.rollback.bind fun _ => .raise e)
    Py.rollback
  if issued then
    (Prog.perform Op.sendEmail).handle fun e => if e = .emailDeliveryError then .ret () else .raise e
  else return ()

/-- `user.hashed_password = …; user.must_change_password = False` on the user as it was loaded: a
column that does not change is not written. -/
def setPassword (loaded : User) (hashedPassword : Text) (user : User) : User :=
  { user with
    hashedPassword := hashedPassword
    mustChangePassword := user.mustChangePassword && !loaded.mustChangePassword }

/-- `POST /auth/password-reset/confirm`. -/
def confirmPasswordReset (resetToken : RawToken) (newPassword : Text) : Py Unit :=
  Py.getDbSession do
    match ← findValidResetToken env resetToken with
    | none => .raise (.httpException 410)
    | some (tokenId, token) =>
      enforcePasswordPolicy env newPassword "new_password"
      match ← Py.get .users token.userId with
      | none => .raise (.httpException 410)
      | some user =>
        let now ← Prog.perform Op.utcNow
        let revokedSessionIds ← revokeSessionsForUser token.userId none
          (Py.flushUpdate .passwordResetTokens tokenId (markResetTokenUsed now))
          (Py.flushUpdate .users token.userId (setPassword user (env.hashPassword newPassword)))
        Py.commit
        let _ ← Prog.forEach revokedSessionIds invalidateSessionCache
        return ()

/-- `POST /auth/password/change` in session `sessionId` of user `userId`. -/
def changePassword (currentPassword newPassword : Text) (userId : UserId)
    (sessionId : SessionId) : Py Unit :=
  Py.getDbSession do
    match ← Py.get .users userId with
    | none => .raise (.httpException 401)
    | some user =>
      if !env.verifyPassword currentPassword user.hashedPassword then .raise (.httpException 401)
      else
        enforcePasswordPolicy env newPassword "new_password"
        let revokedSessionIds ← revokeSessionsForUser userId (some sessionId) (return ())
          (Py.flushUpdate .users userId (setPassword user (env.hashPassword newPassword)))
        Py.commit
        let _ ← Prog.forEach revokedSessionIds invalidateSessionCache
        return ()

end Chatspace.Password
