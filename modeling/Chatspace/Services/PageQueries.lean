import Chatspace.Codec.Text
import Chatspace.Core.Pagination
import Chatspace.Services.Auth

/-!
# The lists that are read in pages

`get_channel_message_history` and `get_dm_message_history` (`services/messages.py`),
`list_my_channels` (`services/channels.py`), `list_admin_users` (`services/admin_users.py`),
`list_invites` (`services/invites.py`) and `search_users` (`services/user_search.py`).  Each is a
single `SELECT`, so a function of the rows its snapshot has.

* `Snapshot` — what one statement sees;
* `fetch` — a request as a client makes it, with the opaque cursor of the page before.
-/

namespace Chatspace

open Store Auth
open Messages (dmPair)

/-- The rows one statement sees: no key twice, and every timestamp and id as PostgreSQL hands it
out. -/
structure Snapshot where
  rows : (τ : Tbl) → List (τ.Key × τ.Row)
  nodup : ∀ τ, ((rows τ).map Prod.fst).Nodup
  typedUsers : ∀ u ∈ rows .users, (CursorKey.mk u.2.createdAt u.1).WellTyped
  typedChannels : ∀ c ∈ rows .channels, (CursorKey.mk c.2.createdAt c.1).WellTyped
  typedInvites : ∀ i ∈ rows .invites, (CursorKey.mk i.2.createdAt i.1).WellTyped
  typedMessages : ∀ m ∈ rows .messages, (CursorKey.mk m.2.createdAt m.1).WellTyped

/-! ### Messages -/

def getChannelMessageHistory (db : Snapshot) (channelId : ChannelId) (limit : ℕ)
    (cursor : Option CursorKey) : Page (MessageId × Message) :=
  let stmt := (db.rows .messages).filter fun m =>
    m.2.target = .channel channelId ∧ m.2.deletedAt = none
  let stmt := applyKeyset stmt (fun m => m.2.createdAt) (fun m => m.1) cursor
  let rows := stmt.take (limit + 1)
  paginateRows rows limit fun m => ⟨m.2.createdAt, m.1⟩

def getDmMessageHistory (db : Snapshot) (callerId otherUserId : UserId) (limit : ℕ)
    (cursor : Option CursorKey) : Page (MessageId × Message) :=
  let (leastId, greatestId) := dmPair callerId otherUserId
  let stmt := (db.rows .messages).filter fun m =>
    match m.2.target with
    | .channel _ => false
    | .dm recipientId => m.2.deletedAt = none ∧ min m.2.senderId recipientId = leastId ∧
        max m.2.senderId recipientId = greatestId
  let stmt := applyKeyset stmt (fun m => m.2.createdAt) (fun m => m.1) cursor
  let rows := stmt.take (limit + 1)
  paginateRows rows limit fun m => ⟨m.2.createdAt, m.1⟩

/-! ### Channels -/

structure ChannelView where
  channelId : ChannelId
  channel : Channel
  memberCount : ℕ
  myRole : Option ChannelMemberRole
deriving DecidableEq

/-- `SELECT channel_id, count(*) … GROUP BY channel_id`, looked up for one channel. -/
def memberCountSubquery (db : Snapshot) (channelId : ChannelId) : Option ℕ :=
  let members := (db.rows .channelMembers).filter fun m => m.1.1 = channelId
  if members = [] then none else some members.length

def listMyChannels (db : Snapshot) (callerId : UserId) (limit : ℕ) (cursor : Option CursorKey) :
    Page ChannelView :=
  let stmt := (db.rows .channels).flatMap fun c =>
    ((db.rows .channelMembers).filter fun m => m.1 = (c.1, callerId)).map fun m =>
      (c, m.2.role, (memberCountSubquery db c.1).getD 0)
  let stmt := applyKeyset stmt (fun r => r.1.2.createdAt) (fun r => r.1.1) cursor
  let rows := (stmt.take (limit + 1)).map fun r => ChannelView.mk r.1.1 r.1.2 r.2.2 (some r.2.1)
  paginateRows rows limit fun view => ⟨view.channel.createdAt, view.channelId⟩

/-! ### Users -/

/-- `_escape_like`: the backslashes first, and then `%` and `_`. -/
def escapeLike (value : Text) : Text :=
  Codec.replaceChar '_' ['\\', '_'] (Codec.replaceChar '%' ['\\', '%']
    (Codec.replaceChar '\\' ['\\', '\\'] value))

/-- `value LIKE pattern ESCAPE '\'`. -/
def like : (pattern value : Text) → Bool
  | [], value => value = []
  | ['\\'], _ => false
  | '\\' :: c :: pattern, value =>
    match value with
    | [] => false
    | d :: value => c = d && like pattern value
  | '%' :: pattern, value => value.tails.any fun rest => like pattern rest
  | '_' :: pattern, value =>
    match value with
    | [] => false
    | _ :: value => like pattern value
  | c :: pattern, value =>
    match value with
    | [] => false
    | d :: value => c = d && like pattern value

section Users

variable (env : Primitives)

/-- `value ILIKE pattern ESCAPE '\'`. -/
def ilike (value pattern : Text) : Bool := like (env.lower pattern) (env.lower value)

inductive AdminUserStatusFilter where
  | active
  | inactive
deriving DecidableEq

def listAdminUsers (db : Snapshot) (q : Option Text) (statusFilter : Option AdminUserStatusFilter)
    (limit : ℕ) (cursor : Option CursorKey) : Page (UserId × User) :=
  let stmt := db.rows .users
  -- `q.strip() if q else None`: an absent and a blank search alike are no search
  let strippedQ := strip (q.getD [])
  let stmt := if strippedQ = [] then stmt else
    let pattern := ['%'] ++ escapeLike strippedQ ++ ['%']
    stmt.filter fun u => ilike env u.2.firstName pattern || ilike env u.2.lastName pattern ||
      ilike env u.2.username pattern || ilike env u.2.email pattern
  let stmt := match statusFilter with
    | some .active => stmt.filter fun u => u.2.isActive
    | some .inactive => stmt.filter fun u => !u.2.isActive
    | none => stmt
  let stmt := applyKeyset stmt (fun u => u.2.createdAt) (fun u => u.1) cursor
  let rows := stmt.take (limit + 1)
  paginateRows rows limit fun user => ⟨user.2.createdAt, user.1⟩

/-- Ordered by id alone: of the cursor only the id is compared. -/
def searchUsers (db : Snapshot) (q : Text) (limit : ℕ) (cursor : Option CursorKey) :
    Page (UserId × User) :=
  let pattern := ['%'] ++ escapeLike q ++ ['%']
  let stmt := (db.rows .users).filter fun u => u.2.isActive &&
    (ilike env u.2.username pattern || ilike env u.2.firstName pattern ||
      ilike env u.2.lastName pattern)
  let stmt := match cursor with
    | some c => stmt.filter fun (u : UserId × User) => c.id < u.1
    | none => stmt
  let stmt := stmt.insertionSort fun (u v : UserId × User) => u.1 ≤ v.1
  let rows := stmt.take (limit + 1)
  paginateRows rows limit fun user => ⟨user.2.createdAt, user.1⟩

end Users

/-! ### Invites -/

inductive InviteListStatusFilter where
  | pending
  | expired
  | accepted
  | revoked
deriving DecidableEq

def listInvites (db : Snapshot) (statusFilter : Option InviteListStatusFilter) (now : Time)
    (limit : ℕ) (cursor : Option CursorKey) : Page (InviteId × Invite) :=
  let stmt := db.rows .invites
  let stmt := match statusFilter with
    | some .pending => stmt.filter fun i => i.2.status = .pending ∧ now < i.2.expiresAt
    | some .expired => stmt.filter fun i => i.2.status = .pending ∧ i.2.expiresAt ≤ now
    | some .accepted => stmt.filter fun i => i.2.status = .accepted
    | some .revoked => stmt.filter fun i => i.2.status = .revoked
    | none => stmt
  let stmt := applyKeyset stmt (fun i => i.2.createdAt) (fun i => i.1) cursor
  let rows := stmt.take (limit + 1)
  paginateRows rows limit fun invite => ⟨invite.2.createdAt, invite.1⟩

/-! ### Requests -/

/-- `_parse_cursor` of `api/messages.py`. -/
def parseCursor (raw : Option Text) : Except PaginationError (Option CursorKey) :=
  match raw with
  | none => .ok none
  | some raw => (decodeCursor raw).map some

/-- `decode_cursor(cursor) if cursor else None`, in the other routes. -/
def cursorKeyOf (cursor : Option Text) : Except PaginationError (Option CursorKey) :=
  match cursor with
  | none => .ok none
  | some cursor => if cursor = [] then .ok none else (decodeCursor cursor).map some

/-- A request with cursor `c` in snapshot `db` is answered by these items and this next cursor. -/
def fetch {α : Type} (parse : Option Text → Except PaginationError (Option CursorKey))
    (query : Snapshot → Option CursorKey → Page α) (db : Snapshot) (c : Option Text)
    (items : List α) (next : Option Text) : Prop :=
  (parse c).map (query db) = .ok ⟨items, next⟩

end Chatspace
