import Chatspace.Backend.Machine

/-!
# Channels and their members

Membership rows, the admin locks and the sole-admin succession, with the routes over them and the
events they publish.

* `lockChannelAdminIds` — the admin rows of a channel, locked;
* `runSoleAdminSuccession` — promote a successor where the departing user is the only admin;
* `joinPublicChannel`, `leaveChannel`, `addChannelMember`, `changeMemberRole`,
  `removeChannelMember` — the operations, each with its outcome;
* `joinChannelRoute`, … — the operations as requests run them: commit, then publish.
-/

namespace Chatspace.Channels

open Interleave Store

/-! ### Events -/

/-- `user:{user_id}`. -/
def userTopic (userId : UserId) : Topic := .user userId

def publishChannelEvent (event : Event) (topic : Topic) : Py Unit :=
  Py.redisFailOpen (Prog.perform (Op.redisPublish topic event)) ()

def publishMemberAdded (channelId : ChannelId) (channel : Channel) (userId : UserId)
    (membership : ChannelMember) (memberCount : ℕ) : Py Unit :=
  publishChannelEvent
    (.memberAdded channelId channel userId membership.role membership.joinedAt memberCount)
    (userTopic userId)

def publishMemberRemoved (channelId : ChannelId) (userId : UserId) : Py Unit :=
  publishChannelEvent (.memberRemoved channelId userId) (userTopic userId)

/-! ### Rows -/

def getMembership (channelId : ChannelId) (userId : UserId) : Py (Option ChannelMember) :=
  Py.get .channelMembers (channelId, userId)

def countChannelMembers (channelId : ChannelId) : Py ℕ := do
  let rows ← Py.select .channelMembers fun k _ => k.1 = channelId
  return rows.length

/-- A new channel with its creator as the first admin. -/
def createChannel (name : Text) (isPrivate : Bool) (createdBy : UserId) :
    Py (ChannelId × Channel) := do
  let id ← Prog.perform Op.generateId
  let channel ← Py.flushInsert .channels id fun now => ⟨name, isPrivate, createdBy, now⟩
  let _ ← Py.flushInsert .channelMembers (id, createdBy) fun now => ⟨.admin, now⟩
  return (id, channel)

/-! ### Succession -/

/-- A row of an admin of the channel. -/
def isAdminOf (channelId : ChannelId) (k : ChannelId × UserId) (m : ChannelMember) : Bool :=
  k.1 = channelId && m.role = .admin

/-- `_lock_channel_admin_ids`. -/
def lockChannelAdminIds (channelId : ChannelId) : Py (List UserId) := do
  let rows ← Py.selectForUpdate .channelMembers (isAdminOf channelId) fun j k => j.2 ≤ k.2
  return rows.map fun r => r.1.2

/-- The user whose row joined first. -/
def longestStanding (rows : List ((ChannelId × UserId) × ChannelMember)) :
    Option (UserId × ChannelMember) :=
  ((rows.insertionSort fun a b => a.2.joinedAt ≤ b.2.joinedAt).map fun r => (r.1.2, r.2)).head?

/-- The other member of the channel that joined first. -/
def findSuccessor (channelId : ChannelId) (departingUserId : UserId) :
    Py (Option (UserId × ChannelMember)) := do
  let rows ← Py.select .channelMembers fun k _ => k.1 = channelId && k.2 ≠ departingUserId
  return longestStanding rows

/-- The successor in one channel, if the departing user is its only admin. -/
def successorIn (departingUserId : UserId) (channelId : ChannelId) :
    Py (Option (ChannelId × UserId × ChannelMember)) := do
  let lockedAdminIds ← lockChannelAdminIds channelId
  if lockedAdminIds.length ≠ 1 then return none
  else
    let successor ← findSuccessor channelId departingUserId
    return successor.map fun s => (channelId, s)

/-- `successor.role = ADMIN`. -/
def promote (m : ChannelMember) : ChannelMember := { m with role := .admin }

/-- The flush of the successors: a member that is an admin already is not changed. -/
def flushSuccessors (successors : List (ChannelId × UserId × ChannelMember)) : Py Unit := do
  let changed := successors.filter fun s => s.2.2.role ≠ .admin
  let keys := (changed.map fun s => (s.1, s.2.1)).insertionSort fun j k =>
    j.1 < k.1 ∨ (j.1 = k.1 ∧ j.2 ≤ k.2)
  let _ ← Prog.forEach keys fun k => Py.flushUpdate .channelMembers k promote
  return ()

/-- Promote a successor in the channels (in the one given, or in all) whose only admin departs. -/
def runSoleAdminSuccession (departingUserId : UserId) (channelId : Option ChannelId) :
    Py (List ChannelId) := do
  let rows ← Py.select .channelMembers fun k m =>
    k.2 = departingUserId && m.role = .admin && channelId.all (k.1 = ·)
  let successors ← Prog.forEach (rows.map fun r => r.1.1) (successorIn departingUserId)
  flushSuccessors (successors.filterMap id)
  return (successors.filterMap id).map Prod.fst

/-! ### Membership -/

inductive JoinOutcome where
  | joined (membership : ChannelMember) (channel : Channel) (memberCount : ℕ)
  | alreadyMember (membership : ChannelMember) (channel : Channel)
  | isPrivate (channel : Channel)
  | notFound
deriving DecidableEq

/-- `db.add(membership)` and its flush; a row that is there already is answered, after a rollback,
by the row. -/
def insertMembership (channelId : ChannelId) (userId : UserId) (role : ChannelMemberRole) :
    Py (ChannelMember ⊕ ChannelMember) :=
  ((Py.flushInsert .channelMembers (channelId, userId) fun now => ⟨role, now⟩).bind
    fun membership => .ret (.inl membership)).handle fun e =>
      if e = .integrityError then do
        Py.rollback
        match ← getMembership channelId userId with
        | some existing => return .inr existing
        | none => .raise e
      else .raise e

def joinPublicChannel (channelId : ChannelId) (userId : UserId) : Py JoinOutcome := do
  match ← Py.get .channels channelId with
  | none => return .notFound
  | some channel =>
    match ← getMembership channelId userId with
    | some existing => return .alreadyMember existing channel
    | none =>
      if channel.isPrivate then return .isPrivate channel
      else
        match ← insertMembership channelId userId .member with
        | .inr existing => return .alreadyMember existing channel
        | .inl membership =>
          let memberCount ← countChannelMembers channelId
          return .joined membership channel memberCount

/-- The end of a membership: the succession, where the row read was an admin's, and the deletion. -/
def departMember (channelId : ChannelId) (userId : UserId) (membership : ChannelMember) :
    Py Unit := do
  if membership.role = .admin then
    let _ ← runSoleAdminSuccession userId (some channelId)
  Py.flushDelete .channelMembers (channelId, userId)

inductive LeaveOutcome where
  | left
  | notMember
deriving DecidableEq

def leaveChannel (channelId : ChannelId) (userId : UserId) : Py LeaveOutcome := do
  match ← Py.get .channels channelId with
  | none => return .notMember
  | some _ =>
    match ← getMembership channelId userId with
    | none => return .notMember
    | some membership =>
      departMember channelId userId membership
      return .left

/-- Outcomes shared by the operations an admin performs on somebody else's membership. -/
inductive Refusal where
  | channelNotFound
  | zeroAdmin
  | callerNotAdmin
  | targetNotFound
deriving DecidableEq

/-- The channel, and the caller as one of its locked admins. -/
def authorizeAdmin (channelId : ChannelId) (callerId : UserId) : Py (Except Refusal Channel) := do
  match ← Py.get .channels channelId with
  | none => return .error .channelNotFound
  | some channel =>
    let adminIds ← lockChannelAdminIds channelId
    if adminIds = [] then return .error .zeroAdmin
    else if callerId ∉ adminIds then return .error .callerNotAdmin
    else return .ok channel

inductive AddMemberOutcome where
  | added (membership : ChannelMember) (channel : Channel) (memberCount : ℕ)
  | alreadyMember (membership : ChannelMember) (channel : Channel)
  | refused (refusal : Refusal)
deriving DecidableEq

def addChannelMember (channelId : ChannelId) (callerId targetUserId : UserId)
    (role : ChannelMemberRole) : Py AddMemberOutcome := do
  match ← authorizeAdmin channelId callerId with
  | .error refusal => return .refused refusal
  | .ok channel =>
    match ← Py.get .users targetUserId with
    | none => return .refused .targetNotFound
    | some _ =>
      match ← getMembership channelId targetUserId with
      | some existing => return .alreadyMember existing channel
      | none =>
        match ← insertMembership channelId targetUserId role with
        | .inr existing => return .alreadyMember existing channel
        | .inl membership =>
          let memberCount ← countChannelMembers channelId
          return .added membership channel memberCount

inductive ChangeRoleOutcome where
  | updated (membership : ChannelMember)
  | noOp (membership : ChannelMember)
  | refused (refusal : Refusal)
deriving DecidableEq

/-- `membership.role = role`. -/
def setRole (role : ChannelMemberRole) (m : ChannelMember) : ChannelMember := { m with role := role }

def changeMemberRole (channelId : ChannelId) (callerId targetUserId : UserId)
    (role : ChannelMemberRole) : Py ChangeRoleOutcome := do
  match ← authorizeAdmin channelId callerId with
  | .error refusal => return .refused refusal
  | .ok _ =>
    match ← getMembership channelId targetUserId with
    | none => return .refused .targetNotFound
    | some membership =>
      if membership.role = role then return .noOp membership
      else
        Py.flushUpdate .channelMembers (channelId, targetUserId) (setRole role)
        return .updated (setRole role membership)

inductive RemoveMemberOutcome where
  | removed
  | notMember
  | refused (refusal : Refusal)
deriving DecidableEq

def removeChannelMember (channelId : ChannelId) (callerId targetUserId : UserId) :
    Py RemoveMemberOutcome := do
  match ← authorizeAdmin channelId callerId with
  | .error refusal => return .refused refusal
  | .ok _ =>
    match ← Py.get .users targetUserId with
    | none => return .refused .targetNotFound
    | some _ =>
      match ← getMembership channelId targetUserId with
      | none => return .notMember
      | some membership =>
        departMember channelId targetUserId membership
        return .removed

/-! ### Routes -/

/-- The status a refusal is answered with. -/
def Refusal.status : Refusal → ℕ
  | .channelNotFound => 404
  | .targetNotFound => 404
  | .callerNotAdmin => 403
  | .zeroAdmin => 409

/-- `POST /channels`, after the check of the name. -/
def createChannelRoute (name : Text) (isPrivate : Bool) (userId : UserId) :
    Py (ChannelId × Channel) :=
  Py.getDbSession do
    let channel ← (createChannel name isPrivate userId).handle fun e =>
      if e = .integrityError then do
        Py.rollback
        .raise (.httpException 409)
      else .raise e
    Py.commit
    return channel

/-- `POST /channels/{channel_id}/join`. -/
def joinChannelRoute (channelId : ChannelId) (userId : UserId) : Py ChannelMember :=
  Py.getDbSession do
    match ← joinPublicChannel channelId userId with
    | .notFound => .raise (.httpException 404)
    | .isPrivate _ => .raise (.httpException 403)
    | .alreadyMember membership _ =>
      Py.commit
      return membership
    | .joined membership channel memberCount =>
      Py.commit
      publishMemberAdded channelId channel userId membership memberCount
      return membership

/-- `POST /channels/{channel_id}/leave`. -/
def leaveChannelRoute (channelId : ChannelId) (userId : UserId) : Py Unit :=
  Py.getDbSession do
    match ← leaveChannel channelId userId with
    | .notMember => return ()
    | .left =>
      Py.commit
      publishMemberRemoved channelId userId

/-- `POST /channels/{channel_id}/members`. -/
def addChannelMemberRoute (channelId : ChannelId) (callerId userId : UserId)
    (role : ChannelMemberRole) : Py ChannelMember :=
  Py.getDbSession do
    match ← addChannelMember channelId callerId userId role with
    | .refused refusal => .raise (.httpException refusal.status)
    | .alreadyMember membership _ =>
      Py.commit
      return membership
    | .added membership channel memberCount =>
      Py.commit
      publishMemberAdded channelId channel userId membership memberCount
      return membership

/-- `PATCH /channels/{channel_id}/members/{user_id}`. -/
def updateChannelMemberRoleRoute (channelId : ChannelId) (callerId userId : UserId)
    (role : ChannelMemberRole) : Py ChannelMember :=
  Py.getDbSession do
    match ← changeMemberRole channelId callerId userId role with
    | .refused refusal => .raise (.httpException refusal.status)
    | .updated membership | .noOp membership =>
      Py.commit
      return membership

/-- `DELETE /channels/{channel_id}/members/{user_id}`. -/
def removeChannelMemberRoute (channelId : ChannelId) (callerId userId : UserId) : Py Unit :=
  Py.getDbSession do
    match ← removeChannelMember channelId callerId userId with
    | .refused refusal => .raise (.httpException refusal.status)
    | .notMember => Py.commit
    | .removed =>
      Py.commit
      publishMemberRemoved channelId userId

/-! ### What the succession performs -/

variable {P : Op → Prop}

theorem only_selectForUpdate {τ : Tbl} {p : τ.Key → τ.Row → Bool} {le : τ.Key → τ.Key → Bool}
    (hselect : P (.sql (.select τ p))) (hlock : ∀ k, P (.sql (.lock τ k (p k)))) :
    (Py.selectForUpdate τ p le).Only P := by
  refine (Prog.only_perform hselect).bind fun rows => ?_
  refine (Prog.only_forEach _ fun k => ?_).bind fun locked => Prog.only_ret _
  exact (Prog.only_perform (hlock k)).bind fun x => Prog.only_ret _

theorem only_successorIn (hselect : ∀ p, P (.sql (.select .channelMembers p)))
    (hlock : ∀ k p, P (.sql (.lock .channelMembers k p))) (u : UserId) (c : ChannelId) :
    (successorIn u c).Only P := by
  refine Prog.Only.bind ?_ fun ids => ?_
  · exact (only_selectForUpdate (hselect _) fun k => hlock k _).bind fun rows => Prog.only_ret _
  · show Prog.Only P (if _ then _ else _)
    split
    · trivial
    · refine Prog.Only.bind ?_ fun successor => trivial
      exact (Prog.only_perform (hselect _)).bind fun rows => trivial

theorem only_flushSuccessors
    (hpromote : ∀ k, P (.sql (.update .channelMembers k (fun _ => true) promote)))
    (successors : List (ChannelId × UserId × ChannelMember)) :
    (flushSuccessors successors).Only P := by
  exact (Prog.only_forEach _ fun k => Py.only_flushUpdate (hpromote k)).bind fun _ => trivial

theorem only_runSoleAdminSuccession (hselect : ∀ p, P (.sql (.select .channelMembers p)))
    (hlock : ∀ k p, P (.sql (.lock .channelMembers k p)))
    (hpromote : ∀ k, P (.sql (.update .channelMembers k (fun _ => true) promote)))
    (u : UserId) (c : Option ChannelId) : (runSoleAdminSuccession u c).Only P := by
  refine (Prog.only_perform (hselect _)).bind fun rows => ?_
  refine (Prog.only_forEach _ fun c' => only_successorIn hselect hlock u c').bind fun found => ?_
  exact (only_flushSuccessors hpromote _).bind fun _ => trivial

/-! ### What it raises -/

variable {X : Exc → Prop}

theorem propagates_flushUpdate {τ : Tbl} {k : τ.Key} {f : τ.Row → τ.Row} (hX : X .staleDataError) :
    (Py.flushUpdate τ k f).Propagates X := by
  refine (Prog.propagates_perform _).bind fun matched => ?_
  cases matched with
  | true => trivial
  | false => exact hX

theorem propagates_selectForUpdate {τ : Tbl} {p : τ.Key → τ.Row → Bool}
    {le : τ.Key → τ.Key → Bool} : (Py.selectForUpdate τ p le).Propagates X := by
  refine (Prog.propagates_perform _).bind fun rows => ?_
  refine (Prog.propagates_forEach _ fun k => ?_).bind fun locked => trivial
  exact (Prog.propagates_perform _).bind fun x => trivial

theorem propagates_runSoleAdminSuccession (hX : X .staleDataError) (u : UserId)
    (c : Option ChannelId) : (runSoleAdminSuccession u c).Propagates X := by
  refine (Prog.propagates_perform _).bind fun rows => ?_
  refine (Prog.propagates_forEach _ fun c' => ?_).bind fun found => ?_
  · refine Prog.Propagates.bind (propagates_selectForUpdate.bind fun rows => trivial) fun ids => ?_
    show Prog.Propagates X (if _ then _ else _)
    split
    · trivial
    · exact Prog.Propagates.bind ((Prog.propagates_perform _).bind fun rows => trivial)
        fun successor => trivial
  · refine Prog.Propagates.bind (Prog.Propagates.bind (Prog.propagates_forEach _ fun k => ?_)
      fun _ => trivial) fun _ => trivial
    exact propagates_flushUpdate hX

end Chatspace.Channels
