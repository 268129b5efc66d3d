import Chatspace.Services.Channels
import Chatspace.Services.Sessions

/-!
# Deactivating and reactivating users

* `deactivateUser` — the guard of the last system admin, the successions, the flag, the sessions;
* `deactivateUserRoute`, `reactivateUserRoute` — the requests.
-/

namespace Chatspace.AdminUsers

open Interleave Store Sessions Channels

/-- `_lock_and_count_active_system_admins`. -/
def lockAndCountActiveSystemAdmins : Py ℕ := do
  let rows ← Py.selectForUpdate .users (fun _ u => u.isSystemAdmin && u.isActive) fun j k => j ≤ k
  return rows.length

inductive DeactivationResult where
  | deactivated (revokedSessionIds : List SessionId) (promotedChannelIds : List ChannelId)
  | alreadyInactive
  | lastActiveSystemAdmin
deriving DecidableEq

/-- `target.is_active = …`. -/
def setActive (isActive : Bool) (u : User) : User := { u with isActive := isActive }

/-- What deactivation does once it is allowed. -/
def deactivate (targetId : UserId) : Py DeactivationResult := do
  let promotedChannelIds ← runSoleAdminSuccession targetId none
  Py.flushUpdate .users targetId (setActive false)
  let revokedSessionIds ← revokeSessionsForUser targetId none (return ()) (return ())
  return .deactivated revokedSessionIds promotedChannelIds

def deactivateUser (targetId : UserId) (target : User) : Py DeactivationResult := do
  if !target.isActive then return .alreadyInactive
  else if target.isSystemAdmin then
    let activeAdminCount ← lockAndCountActiveSystemAdmins
    if activeAdminCount ≤ 1 then return .lastActiveSystemAdmin
    else deactivate targetId
  else deactivate targetId

def getUserOr404 (userId : UserId) : Py User := do
  match ← Py.get .users userId with
  | none => .raise (.httpException 404)
  | some user => return user

/-- `POST /admin/users/{user_id}/deactivate`. -/
def deactivateUserRoute (userId : UserId) : Py DeactivationResult :=
  Py.getDbSession do
    let target ← getUserOr404 userId
    match ← deactivateUser userId target with
    | .lastActiveSystemAdmin =>
      Py.rollback
      .raise (.httpException 409)
    | .alreadyInactive =>
      Py.commit
      return .alreadyInactive
    | .deactivated revokedSessionIds promotedChannelIds =>
      Py.commit
      let _ ← Prog.forEach revokedSessionIds invalidateSessionCache
      return .deactivated revokedSessionIds promotedChannelIds

/-- `POST /admin/users/{user_id}/reactivate`: the changed flag is flushed by the commit. -/
def reactivateUserRoute (userId : UserId) : Py Unit :=
  Py.getDbSession do
    let target ← getUserOr404 userId
    if !target.isActive then
      Py.flushUpdate .users userId (setActive true)
      Py.commit
    else Py.rollback

end Chatspace.AdminUsers
