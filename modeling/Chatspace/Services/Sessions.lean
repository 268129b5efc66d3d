import Chatspace.Backend.Machine

/-!
# The session store and its revocation cache

* `createSession`, `revokeSession`, `revokeSessionsForUser`, `extendSessionExpiry` — the rows of
  `sessions`;
* `isSessionActive`, `invalidateSessionCache` — the verdict cached in Redis over them;
* `deleteSession`, `logout` — the routes that revoke one session.
-/

namespace Chatspace.Sessions

open Interleave Store

/-- `timedelta(days=…)`. -/
def days (n : ℕ) : Time := n * (24 * 60 * 60)

/-! ### Rows -/

/-- A new session with its id and the token that is handed out once. -/
structure CreatedSession where
  id : SessionId
  session : Session
  rawRefreshToken : RawToken

def createSession (hashRefreshToken : RawToken → TokenHash) (userId : UserId)
    (sessionTtlDays : ℕ) : Py CreatedSession := do
  let issuedAt ← Prog.perform Op.utcNow
  let rawToken ← Prog.perform Op.tokenUrlsafe
  let id ← Prog.perform Op.generateId
  let session ← Py.flushInsert .sessions id fun _ =>
    ⟨userId, hashRefreshToken rawToken, issuedAt, none, issuedAt + days sessionTtlDays, none⟩
  return ⟨id, session, rawToken⟩

/-- The non-revoked sessions of a user, most recently issued first. -/
def listActiveSessionsForUser (userId : UserId) : Py (List (SessionId × Session)) := do
  let rows ← Py.select .sessions fun _ s => s.userId = userId && s.revokedAt.isNone
  return rows.insertionSort fun a b => b.2.issuedAt ≤ a.2.issuedAt

/-- Slide the expiry of a session that is being refreshed. -/
def extendSessionExpiry (session : Session) (sessionTtlDays : ℕ) (now : Time) : Session :=
  { session with lastUsedAt := some now, expiresAt := now + days sessionTtlDays }

/-- `session.revoked_at = ts`. -/
def Session.revoke (ts : Time) (session : Session) : Session := { session with revokedAt := some ts }

/-- Revoke every active session of a user but the one excepted, the updates in the order of the
primary key.  What else the request has changed is flushed with them, in the order of the names of
the mapped classes: `before` those of `Session`, or `after` them. -/
def revokeSessionsForUser (userId : UserId) (exceptSessionId : Option SessionId)
    (before after : Py Unit) : Py (List SessionId) := do
  let ts ← Prog.perform Op.utcNow
  let sessions ← listActiveSessionsForUser userId
  let revokedIds := (sessions.map Prod.fst).filter fun id => exceptSessionId ≠ some id
  before
  let _ ← Prog.forEach (revokedIds.insertionSort (· ≤ ·)) fun id =>
    Py.flushUpdate .sessions id (Session.revoke ts)
  after
  return revokedIds

theorem only_revokeSessionsForUser {P : Op → Prop} {before after : Py Unit} {userId : UserId}
    {exceptSessionId : Option SessionId} (hnow : P .utcNow)
    (hselect : ∀ p, P (.sql (.select .sessions p)))
    (hrevoke : ∀ id ts, P (.sql (.update .sessions id (fun _ => true) (Session.revoke ts))))
    (hbefore : before.Only P) (hafter : after.Only P) :
    (revokeSessionsForUser userId exceptSessionId before after).Only P := by
  refine (Prog.only_perform hnow).bind fun ts => ?_
  refine Prog.Only.bind ((Prog.only_perform (hselect _)).bind fun rows => trivial) fun sessions => ?_
  refine hbefore.bind fun _ => ?_
  refine (Prog.only_forEach _ fun id => Py.only_flushUpdate (hrevoke id ts)).bind fun _ => ?_
  exact hafter.bind fun _ => trivial

inductive RevokeOutcome where
  | revoked
  | notFound
  | forbidden
deriving DecidableEq

def revokeSession (sessionId : SessionId) (userId : UserId) : Py RevokeOutcome := do
  match ← Py.get .sessions sessionId with
  | none => return .notFound
  | some session =>
    if session.userId ≠ userId then return .forbidden
    else if session.revokedAt.isNone then
      let now ← Prog.perform Op.utcNow
      Py.flushUpdate .sessions sessionId (Session.revoke now)
      return .revoked
    else return .revoked

/-! ### The revocation cache -/

def sessionRevocationKey (sessionId : SessionId) : RedisKey := .sessionRevocation sessionId

/-- `_CACHE_VALUE_ACTIVE`. -/
def cacheValueActive : RedisValue := .text ['a', 'c', 't', 'i', 'v', 'e']

/-- `_CACHE_VALUE_REVOKED`. -/
def cacheValueRevoked : RedisValue := .text ['r', 'e', 'v', 'o', 'k', 'e', 'd']

def readSessionActiveFromDb (sessionId : SessionId) : Py Bool := do
  match ← Py.get .sessions sessionId with
  | none => return false
  | some session =>
    let now ← Prog.perform Op.utcNow
    return session.revokedAt.isNone && now < session.expiresAt

/-- The cached verdict, read under `redis_fail_closed`; `none` when Redis is unavailable. -/
def readCache (sessionId : SessionId) : Py (Option (Option RedisValue)) :=
  ((Py.redisFailClosed (Prog.perform (Op.redisGet (sessionRevocationKey sessionId)))).bind
    fun cached => .ret (some cached)).handle fun e =>
      if e = .redisUnavailableError then .ret none else .raise e

/-- `_write_cache`. -/
def writeCache (sessionId : SessionId) (active : Bool) (cacheTtlSeconds : ℕ) : Py Unit :=
  Py.redisFailOpen (Prog.perform (Op.redisSet (sessionRevocationKey sessionId)
    (if active then cacheValueActive else cacheValueRevoked) cacheTtlSeconds)) ()

def isSessionActive (sessionId : SessionId) (cacheTtlSeconds : ℕ) : Py Bool := do
  match ← readCache sessionId with
  | none => readSessionActiveFromDb sessionId
  | some (some cached) => return cached = cacheValueActive
  | some none =>
    let active ← readSessionActiveFromDb sessionId
    writeCache sessionId active cacheTtlSeconds
    return active

def invalidateSessionCache (sessionId : SessionId) : Py Unit :=
  Py.redisFailOpen (Prog.perform (Op.redisDelete (sessionRevocationKey sessionId))) ()

/-! ### Routes -/

/-- `DELETE /auth/sessions/{session_id}` by user `userId`. -/
def deleteSession (sessionId : SessionId) (userId : UserId) : Py Unit :=
  Py.getDbSession do
    match ← revokeSession sessionId userId with
    | .notFound => .raise (.httpException 404)
    | .forbidden => .raise (.httpException 403)
    | .revoked =>
      Py.commit
      invalidateSessionCache sessionId

/-- `POST /auth/logout` in session `sessionId` of user `userId`. -/
def logout (sessionId : SessionId) (userId : UserId) : Py Unit :=
  Py.getDbSession do
    let _ ← revokeSession sessionId userId
    Py.commit
    invalidateSessionCache sessionId

/-- The committed row of a session. -/
def row {T : Type} (w : BackendWorld T) (id : SessionId) : Option Session :=
  (w.state.db .sessions).committed id

end Chatspace.Sessions
