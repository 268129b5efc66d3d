import Chatspace.Services.Password

/-!
# Invites and registration

* `findValidInviteByToken`, `rotateInviteToken`, `revokeInvite`, `redeemInvite` — the invite;
* `validateRegistrationFields`, `checkIdentityNotTaken`, `buildRegisteredUser` — the new user;
* `resendInvite`, `revokeInviteRoute`, `register` — the routes that write an invite.

`register` writes the new user and the redeemed invite in one flush: the row, its two unique
indexes, and then the invite.
-/

namespace Chatspace.Invites

open Interleave Store Auth

/-- `INVITE_TOKEN_TTL`. -/
def inviteTokenTtl : Time := Sessions.days 7

/-- `USERNAME_MAX_LENGTH`. -/
def usernameMaxLength : ℕ := 32

variable (env : Primitives)

/-! ### The invite -/

/-- The invite of a token, if it is pending and not expired. -/
def findValidInviteByToken (rawToken : RawToken) : Py (Option (InviteId × Invite)) := do
  let ts ← Prog.perform Op.utcNow
  let rows ← Py.select .invites fun _ i => i.tokenHash = env.hashInviteToken rawToken
  return rows.head?.filter fun i => i.2.status = .pending && ts < i.2.expiresAt

/-- `invite.token_hash = …` and the new expiry. -/
def setToken (tokenHash : TokenHash) (ts : Time) (invite : Invite) : Invite :=
  { invite with tokenHash := tokenHash, expiresAt := ts + inviteTokenTtl }

def rotateInviteToken (inviteId : InviteId) : Py RawToken := do
  let ts ← Prog.perform Op.utcNow
  let rawToken ← Prog.perform Op.tokenUrlsafe
  Py.flushUpdate .invites inviteId (setToken (env.hashInviteToken rawToken) ts)
  return rawToken

/-- `invite.status = InviteStatus.REVOKED`. -/
def revokeInvite (invite : Invite) : Invite := { invite with status := .revoked }

/-- `invite.status = InviteStatus.ACCEPTED; invite.accepted_at = ts`. -/
def redeemInvite (ts : Time) (invite : Invite) : Invite :=
  { invite with status := .accepted, acceptedAt := some ts }

def getInviteOr404 (inviteId : InviteId) : Py Invite := do
  match ← Py.get .invites inviteId with
  | none => .raise (.httpException 404)
  | some invite => return invite

/-- `POST /invites/{invite_id}/resend`: a delivery that fails is answered 502 and rolls back. -/
def resendInvite (inviteId : InviteId) : Py Unit :=
  Py.getDbSession do
    let invite ← getInviteOr404 inviteId
    if invite.status ≠ .pending then .raise (.httpException 409)
    else
      let _ ← rotateInviteToken env inviteId
      (Prog.perform Op.sendEmail).handle fun e =>
        if e = .emailDeliveryError then Py.rollback.bind fun _ => .raise (.httpException 502)
        else .raise e
      Py.commit

/-- `DELETE /invites/{invite_id}`: revoking what is revoked already writes nothing. -/
def revokeInviteRoute (inviteId : InviteId) : Py Unit :=
  Py.getDbSession do
    let invite ← getInviteOr404 inviteId
    if invite.status = .accepted then .raise (.httpException 409)
    else if invite.status = .revoked then Py.commit
    else
      Py.flushUpdate .invites inviteId revokeInvite
      Py.commit

/-! ### The new user -/

/-- `_normalize_username`. -/
def normalizeUsername (username : Text) : Text := env.normalizeNfc (strip username)

def registrationErrors (username firstName lastName : Text) : List (String × String) :=
  (if 1 ≤ (normalizeUsername env username).length ∧
      (normalizeUsername env username).length ≤ usernameMaxLength then []
    else [("username", "must be between 1 and 32 characters long")]) ++
  (if strip firstName = [] then [("first_name", "must not be blank")] else []) ++
  (if strip lastName = [] then [("last_name", "must not be blank")] else [])

def validateRegistrationFields (username firstName lastName : Text) : Py Text :=
  if registrationErrors env username firstName lastName = [] then
    return normalizeUsername env username
  else .raise (.registrationFieldError (registrationErrors env username firstName lastName))

def isUsernameRegistered (username : Text) : Py Bool := do
  let rows ← Py.select .users fun _ u => env.lower u.username = env.lower (strip username)
  return !rows.isEmpty

def isEmailRegistered (email : Text) : Py Bool := do
  let rows ← Py.select .users fun _ u => env.lower u.email = env.lower (strip email)
  return !rows.isEmpty

def checkIdentityNotTaken (username email : Text) : Py Unit := do
  if ← isUsernameRegistered env username then .raise .duplicateIdentityError
  else if ← isEmailRegistered env email then .raise .duplicateIdentityError
  else return ()

def buildRegisteredUser (invite : Invite) (username firstName lastName password : Text)
    (createdAt : Time) : User :=
  ⟨username, invite.email, env.hashPassword password, firstName, lastName, true, false, false,
    createdAt⟩

/-- The flush of a registration: `Invite` comes before `User`. -/
def flushRegistration (userId : UserId) (user : Time → User) (username email : Text)
    (inviteId : InviteId) (ts : Time) : Py Unit := do
  Py.flushUpdate .invites inviteId (redeemInvite ts)
  let _ ← Py.flushInsert .users userId user
  let _ ← Py.flushInsert .usersUsernameLower (env.lower username) fun _ => userId
  let _ ← Py.flushInsert .usersEmailLower (env.lower email) fun _ => userId
  return ()

/-- `POST /auth/register`. -/
def register (inviteToken : RawToken) (username firstName lastName password : Text) : Py UserId :=
  Py.getDbSession do
    match ← findValidInviteByToken env inviteToken with
    | none => .raise (.httpException 410)
    | some (inviteId, invite) =>
      Password.enforcePasswordPolicy env password "password"
      let normalizedUsername ← validateRegistrationFields env username firstName lastName
      (checkIdentityNotTaken env normalizedUsername invite.email).handle fun e =>
        .raise (if e = .duplicateIdentityError then .httpException 409 else e)
      let userId ← Prog.perform Op.generateId
      let ts ← Prog.perform Op.utcNow
      (flushRegistration env userId
        (buildRegisteredUser env invite normalizedUsername firstName lastName password)
        normalizedUsername invite.email inviteId ts).handle fun e =>
          if e = .integrityError then Py.rollback.bind fun _ => .raise (.httpException 409)
          else .raise e
      Py.commit
      return userId

end Chatspace.Invites
