import Chatspace.Store.Sql

/-!
# The database schema

The tables the modelled services read and write, with the columns they use.  Identifiers are
UUIDs, modelled as natural numbers (their order is the order of `ORDER BY … id`); times are
instants of one clock; texts are lists of characters.
-/

namespace Chatspace

abbrev Text : Type := List Char

instance lawfulBEqText : LawfulBEq Text := inferInstance

abbrev Time : Type := ℕ

abbrev UserId : Type := ℕ

abbrev ChannelId : Type := ℕ

abbrev MessageId : Type := ℕ

abbrev SessionId : Type := ℕ

abbrev AttachmentId : Type := ℕ

abbrev InviteId : Type := ℕ

/-- A token of `secrets.token_urlsafe`, read as a number. -/
abbrev RawToken : Type := ℕ

/-- A SHA-256 digest, read as a number. -/
abbrev TokenHash : Type := ℕ

/-- `users`. -/
structure User where
  username : Text
  email : Text
  hashedPassword : Text
  firstName : Text
  lastName : Text
  isActive : Bool
  isSystemAdmin : Bool
  mustChangePassword : Bool
  createdAt : Time
deriving DecidableEq

/-- `channels`. -/
structure Channel where
  name : Text
  isPrivate : Bool
  createdBy : UserId
  createdAt : Time
deriving DecidableEq

/-- `channel_member_role`. -/
inductive ChannelMemberRole where
  | member
  | admin
deriving DecidableEq

/-- `channel_members`, keyed by channel and user. -/
structure ChannelMember where
  role : ChannelMemberRole
  joinedAt : Time
deriving DecidableEq

/-- `sessions`. -/
structure Session where
  userId : UserId
  refreshTokenHash : TokenHash
  issuedAt : Time
  lastUsedAt : Option Time
  expiresAt : Time
  revokedAt : Option Time
deriving DecidableEq

/-- `password_reset_tokens`. -/
structure PasswordResetToken where
  userId : UserId
  tokenHash : TokenHash
  expiresAt : Time
  usedAt : Option Time
deriving DecidableEq

/-- The columns `channel_id` and `recipient_id`, of which `ck_messages_target_xor` has exactly one
set. -/
inductive MessageTargetOf (Id : Type) where
  | channel (channelId : Id)
  | dm (recipientId : Id)
deriving DecidableEq

/-- `messages`. -/
structure MessageOf (Id : Type) where
  target : MessageTargetOf Id
  senderId : Id
  content : Text
  createdAt : Time
  editedAt : Option Time
  deletedAt : Option Time
deriving DecidableEq

abbrev MessageTarget : Type := MessageTargetOf ℕ

abbrev Message : Type := MessageOf ℕ

/-- `invite_status`. -/
inductive InviteStatus where
  | pending
  | accepted
  | revoked
deriving DecidableEq

/-- `invites`. -/
structure Invite where
  email : Text
  tokenHash : TokenHash
  status : InviteStatus
  expiresAt : Time
  acceptedAt : Option Time
  createdAt : Time
deriving DecidableEq

inductive AttachmentKind where
  | image
  | file
  | video
deriving DecidableEq

/-- `attachments`. -/
structure Attachment where
  messageId : Option MessageId
  uploaderId : UserId
  kind : AttachmentKind
  contentType : Text
  filename : Text
  byteSize : ℕ
  createdAt : Time
deriving DecidableEq

/-- The tables, and the unique indexes that keep two transactions from inserting the same value: an
index is a table of its own, keyed by the indexed expression. -/
inductive Tbl where
  | users
  /-- `uq_users_email_lower`. -/
  | usersEmailLower
  /-- `uq_users_username_lower`. -/
  | usersUsernameLower
  | channels
  | channelMembers
  | sessions
  | passwordResetTokens
  | invites
  | messages
  | attachments
deriving DecidableEq

/-- Every table has a UUID key but `channel_members`, whose key is composite. -/
abbrev Tbl.Key : Tbl → Type
  | .channelMembers => ChannelId × UserId
  | .usersEmailLower => Text
  | .usersUsernameLower => Text
  | _ => ℕ

abbrev Tbl.Row : Tbl → Type
  | .users => User
  | .usersEmailLower => UserId
  | .usersUsernameLower => UserId
  | .channels => Channel
  | .channelMembers => ChannelMember
  | .sessions => Session
  | .passwordResetTokens => PasswordResetToken
  | .invites => Invite
  | .messages => Message
  | .attachments => Attachment

instance Tbl.decKey (τ : Tbl) : DecidableEq τ.Key :=
  match τ with
  | .users => inferInstanceAs (DecidableEq ℕ)
  | .usersEmailLower => inferInstanceAs (DecidableEq (List Char))
  | .usersUsernameLower => inferInstanceAs (DecidableEq (List Char))
  | .channels => inferInstanceAs (DecidableEq ℕ)
  | .channelMembers => inferInstanceAs (DecidableEq (ℕ × ℕ))
  | .sessions => inferInstanceAs (DecidableEq ℕ)
  | .passwordResetTokens => inferInstanceAs (DecidableEq ℕ)
  | .invites => inferInstanceAs (DecidableEq ℕ)
  | .messages => inferInstanceAs (DecidableEq ℕ)
  | .attachments => inferInstanceAs (DecidableEq ℕ)

abbrev schema : Store.Schema := ⟨Tbl, Tbl.Key, Tbl.Row⟩

end Chatspace
