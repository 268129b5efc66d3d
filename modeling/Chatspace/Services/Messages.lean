import Chatspace.Backend.Machine

/-!
# Sending messages

The send path of the message service: the idempotency claim in Redis, the bounded wait for a
concurrent winner, the insert with its media, and the published event.

* `resolveExistingClaim` — wait for the row of whoever holds the claim;
* `claimAndPersistMessage` — claim, insert and publish, or resolve;
* `sendChannelMessage`, `sendDmMessage` — the two callers.
-/

namespace Chatspace.Messages

open Interleave Store

def contentMaxLength : ℕ := 4000

/-- `IDEMPOTENCY_TTL_SECONDS`. -/
def idempotencyTtlSeconds : ℕ := 24 * 60 * 60

/-- `_RESOLVE_MAX_ATTEMPTS`. -/
def resolveMaxAttempts : ℕ := 8

/-- `_CLAIM_MAX_ROUNDS`. -/
def claimMaxRounds : ℕ := 3

/-- A message row with its id and its attachments. -/
structure MessageWithMedia where
  id : MessageId
  message : Message
  media : List (AttachmentId × Attachment)
deriving DecidableEq

/-- Outcome of a send; `created = false` is a replay. -/
structure SendMessageResult extends MessageWithMedia where
  created : Bool
deriving DecidableEq

/-! ### Validation -/

/-- `str.isspace` of one character. -/
def isSpace (c : Char) : Bool :=
  c.toNat ∈ [0x20, 0x85, 0xa0, 0x1680, 0x2028, 0x2029, 0x202f, 0x205f, 0x3000] ||
    (0x09 ≤ c.toNat && c.toNat ≤ 0x0d) || (0x1c ≤ c.toNat && c.toNat ≤ 0x1f) ||
    (0x2000 ≤ c.toNat && c.toNat ≤ 0x200a)

/-- `len(content) <= CONTENT_MAX_LENGTH and content.strip() != ""`. -/
def isValidContent (content : Text) : Bool :=
  content.length ≤ contentMaxLength && content.any fun c => !isSpace c

/-! ### Redis -/

def idempotencyRedisKey (senderId : UserId) (idempotencyKey : Text) : RedisKey :=
  .idempotency senderId idempotencyKey

def loadClaimedMessageId (senderId : UserId) (idempotencyKey : Text) : Py (Option MessageId) := do
  match ← Prog.perform (Op.redisGet (idempotencyRedisKey senderId idempotencyKey)) with
  | none => return none
  | some (.uuid id) => return some id
  | some (.text _) => .raise .valueError

def claimIdempotencyKey (senderId : UserId) (idempotencyKey : Text) (messageId : MessageId) :
    Py Bool :=
  Prog.perform (Op.redisSetNx (idempotencyRedisKey senderId idempotencyKey) (.uuid messageId)
    idempotencyTtlSeconds)

def releaseIdempotencyKey (senderId : UserId) (idempotencyKey : Text) : Py Unit :=
  Prog.perform (Op.redisDelete (idempotencyRedisKey senderId idempotencyKey))

/-! ### Media -/

def getMessageMedia (messageId : MessageId) : Py (List (AttachmentId × Attachment)) := do
  let rows ← Py.select .attachments fun _ a => a.messageId = some messageId
  return rows.insertionSort fun a b =>
    a.2.createdAt < b.2.createdAt ∨ (a.2.createdAt = b.2.createdAt ∧ a.1 ≤ b.1)

def loadMessageWithMedia (messageId : MessageId) : Py (Option MessageWithMedia) := do
  match ← Py.get .messages messageId with
  | none => return none
  | some message =>
    let media ← getMessageMedia messageId
    return some ⟨messageId, message, media⟩

/-- Whether an attachment can be used by a send of `senderId`. -/
def isBindable (senderId : UserId) (a : Attachment) : Bool :=
  a.uploaderId = senderId && a.messageId.isNone

def validateAndLoadMedia (mediaIds : List AttachmentId) (senderId : UserId) :
    Py (List (AttachmentId × Attachment)) :=
  if mediaIds = [] then return []
  else do
    let found ← Py.select .attachments fun id _ => id ∈ mediaIds
    let attachments := mediaIds.map fun mediaId =>
      (found.find? fun a => a.1 = mediaId).filter fun a => isBindable senderId a.2
    if attachments.all Option.isSome then return attachments.filterMap id
    else .raise .invalidMediaError

/-- `UPDATE attachments SET message_id = … WHERE id IN mediaIds AND uploader_id = senderId AND
message_id IS NULL`, each row's condition evaluated once no other transaction holds the row; the
answer says of each row found whether it was updated. -/
def updateAttachments (messageId : MessageId) (mediaIds : List AttachmentId) (senderId : UserId) :
    Py (List Bool) := do
  let rows ← Py.select .attachments fun id a => id ∈ mediaIds && isBindable senderId a
  Prog.forEach rows fun r =>
    Py.sql (.update .attachments r.1 (isBindable senderId) fun a =>
      { a with messageId := some messageId })

def bindMediaAtomically (messageId : MessageId) (mediaIds : List AttachmentId)
    (senderId : UserId) : Py (List (AttachmentId × Attachment)) :=
  if mediaIds = [] then return []
  else do
    let updated ← updateAttachments messageId mediaIds senderId
    if updated.count true ≠ mediaIds.length then .raise .invalidMediaError
    else getMessageMedia messageId

/-! ### Events -/

/-- `_dm_pair`. -/
def dmPair {Id : Type} [LE Id] [DecidableLE Id] (userAId userBId : Id) : Id × Id :=
  if userAId ≤ userBId then (userAId, userBId) else (userBId, userAId)

def dmTopic (a b : UserId) : Topic := .dm (min a b) (max a b)

def conversationFor (message : Message) : ConversationRef :=
  match message.target with
  | .channel c => .channel c
  | .dm r => .dm r

def topicFor (message : Message) : Topic :=
  match message.target with
  | .channel c => .chan c
  | .dm r => dmTopic message.senderId r

def buildCreatedEvent (m : MessageWithMedia) : Event :=
  .messageCreated (conversationFor m.message) m.id m.message m.media

/-- Fails open: a Redis error is swallowed. -/
def publishMessageEvent (event : Event) (topic : Topic) : Py Unit :=
  Py.redisFailOpen (Prog.perform (Op.redisPublish topic event)) ()

def publishMessageCreated (m : MessageWithMedia) : Py Unit :=
  publishMessageEvent (buildCreatedEvent m) (topicFor m.message)

/-! ### The claim -/

/-- The attempts of the resolve loop that are left. -/
def resolveLoop (senderId : UserId) (idempotencyKey : Text) : ℕ → Py (Option MessageWithMedia)
  | 0 => .raise .idempotencyResolutionTimeoutError
  | n + 1 => do
    Prog.perform Op.sleep
    match ← loadClaimedMessageId senderId idempotencyKey with
    | none => return none
    | some claimedId =>
      -- only the final attempt looks at the database
      if 0 < n then resolveLoop senderId idempotencyKey n
      else
        match ← loadMessageWithMedia claimedId with
        | some loaded => return some loaded
        | none => resolveLoop senderId idempotencyKey n

def resolveExistingClaim (senderId : UserId) (idempotencyKey : Text) :
    Py (Option MessageWithMedia) := do
  match ← loadClaimedMessageId senderId idempotencyKey with
  | none => return none
  | some claimedId =>
    match ← loadMessageWithMedia claimedId with
    | some loaded => return some loaded
    | none =>
      Py.rollback
      resolveLoop senderId idempotencyKey (resolveMaxAttempts - 1)

/-- The `try` block of the winner: insert, bind, commit. -/
def insertBindCommit (senderId : UserId) (mediaIds : List AttachmentId)
    (buildMessage : Time → Message) (messageId : MessageId) : Py MessageWithMedia := do
  let message ← Py.flushInsert .messages messageId buildMessage
  let boundMedia ← bindMediaAtomically messageId mediaIds senderId
  Py.commit
  return ⟨messageId, message, boundMedia⟩

/-- Its `except Exception`: roll back, release the claim, raise again. -/
def rollbackAndRelease (senderId : UserId) (idempotencyKey : Text) (e : Exc) :
    Py MessageWithMedia := do
  Py.rollback
  releaseIdempotencyKey senderId idempotencyKey
  .raise e

/-- The winner's part of a round. -/
def persistAndPublish (senderId : UserId) (idempotencyKey : Text) (mediaIds : List AttachmentId)
    (buildMessage : Time → Message) (messageId : MessageId) : Py SendMessageResult := do
  let m ← Py.exceptException (insertBindCommit senderId mediaIds buildMessage messageId)
    (rollbackAndRelease senderId idempotencyKey)
  publishMessageCreated m
  return ⟨m, true⟩

/-- The claim rounds that are left. -/
def claimRounds (senderId : UserId) (idempotencyKey : Text) (mediaIds : List AttachmentId)
    (buildMessage : Time → Message) (messageId : MessageId) : ℕ → Py SendMessageResult
  | 0 => .raise .idempotencyResolutionTimeoutError
  | n + 1 => do
    let claimed ← claimIdempotencyKey senderId idempotencyKey messageId
    if claimed then persistAndPublish senderId idempotencyKey mediaIds buildMessage messageId
    else
      match ← resolveExistingClaim senderId idempotencyKey with
      | some m => return ⟨m, false⟩
      | none => claimRounds senderId idempotencyKey mediaIds buildMessage messageId n

def claimAndPersistMessage (senderId : UserId) (idempotencyKey : Text)
    (mediaIds : List AttachmentId) (buildMessage : Time → Message) : Py SendMessageResult := do
  let messageId ← Prog.perform Op.generateId
  claimRounds senderId idempotencyKey mediaIds buildMessage messageId claimMaxRounds

/-! ### The two sends -/

def ensureChannelAndMembership (channelId : ChannelId) (userId : UserId) : Py Unit := do
  match ← Py.get .channels channelId with
  | none => .raise .channelNotFoundError
  | some _ =>
    match ← Py.get .channelMembers (channelId, userId) with
    | none => .raise .notChannelMemberError
    | some _ => return ()

def sendChannelMessage (channelId : ChannelId) (senderId : UserId) (content : Text)
    (mediaIds : List AttachmentId) (idempotencyKey : Text) : Py SendMessageResult := do
  match ← resolveExistingClaim senderId idempotencyKey with
  | some m => return ⟨m, false⟩
  | none =>
    ensureChannelAndMembership channelId senderId
    if !isValidContent content then .raise .invalidContentError
    else
      let _ ← validateAndLoadMedia mediaIds senderId
      claimAndPersistMessage senderId idempotencyKey mediaIds fun now =>
        ⟨.channel channelId, senderId, content, now, none, none⟩

def rejectSelfDm (recipientId senderId : UserId) : Py Unit :=
  if recipientId = senderId then .raise .selfDMError else return ()

def ensureActiveRecipientExists (recipientId : UserId) : Py Unit := do
  match ← Py.get .users recipientId with
  | none => .raise .recipientNotFoundError
  | some recipient =>
    if recipient.isActive then return () else .raise .recipientNotFoundError

def sendDmMessage (recipientId : UserId) (senderId : UserId) (content : Text)
    (mediaIds : List AttachmentId) (idempotencyKey : Text) : Py SendMessageResult := do
  match ← resolveExistingClaim senderId idempotencyKey with
  | some m => return ⟨m, false⟩
  | none =>
    rejectSelfDm recipientId senderId
    ensureActiveRecipientExists recipientId
    if !isValidContent content then .raise .invalidContentError
    else
      let _ ← validateAndLoadMedia mediaIds senderId
      claimAndPersistMessage senderId idempotencyKey mediaIds fun now =>
        ⟨.dm recipientId, senderId, content, now, none, none⟩

/-! ### What the parts of a send perform -/

variable {P : Op → Prop}

theorem only_getMessageMedia (hselect : ∀ τ p, P (.sql (.select τ p))) (id : MessageId) :
    (getMessageMedia id).Only P :=
  (Prog.only_perform (hselect _ _)).bind fun _ => trivial

theorem only_loadMessageWithMedia (hselect : ∀ τ p, P (.sql (.select τ p)))
    (hget : ∀ τ k, P (.sql (.get τ k))) (id : MessageId) : (loadMessageWithMedia id).Only P := by
  refine (Prog.only_perform (hget _ _)).bind fun message => ?_
  cases message with
  | none => trivial
  | some message => exact (only_getMessageMedia hselect id).bind fun _ => trivial

theorem only_validateAndLoadMedia (hselect : ∀ τ p, P (.sql (.select τ p)))
    (ids : List AttachmentId) (u : UserId) : (validateAndLoadMedia ids u).Only P := by
  unfold validateAndLoadMedia
  split
  · trivial
  · refine (Prog.only_perform (hselect _ _)).bind fun found => ?_
    show Prog.Only P (if _ then _ else _)
    split <;> trivial

theorem only_bindMediaAtomically (hselect : ∀ τ p, P (.sql (.select τ p)))
    (hupdate : ∀ k p f, P (.sql (.update .attachments k p f))) (id : MessageId)
    (ids : List AttachmentId) (u : UserId) : (bindMediaAtomically id ids u).Only P := by
  unfold bindMediaAtomically
  split
  · trivial
  · refine Prog.Only.bind ((Prog.only_perform (hselect _ _)).bind fun rows =>
      Prog.only_forEach _ fun r => Prog.only_perform (hupdate _ _ _)) fun updated => ?_
    split
    · trivial
    · exact only_getMessageMedia hselect id

theorem only_loadClaimedMessageId (hredis : ∀ k, P (.redisGet k)) (u : UserId) (key : Text) :
    (loadClaimedMessageId u key).Only P := by
  refine (Prog.only_perform (hredis _)).bind fun v => ?_
  match v with
  | none => trivial
  | some (.uuid _) => trivial
  | some (.text _) => trivial

theorem only_resolveLoop (hselect : ∀ τ p, P (.sql (.select τ p)))
    (hget : ∀ τ k, P (.sql (.get τ k))) (hredis : ∀ k, P (.redisGet k)) (hsleep : P .sleep)
    (u : UserId) (key : Text) (n : ℕ) : (resolveLoop u key n).Only P := by
  induction n with
  | zero => trivial
  | succ n ih =>
    refine (Prog.only_perform hsleep).bind fun _ => ?_
    refine (only_loadClaimedMessageId hredis u key).bind fun claimed => ?_
    cases claimed with
    | none => trivial
    | some id =>
      show Prog.Only P (if _ then _ else _)
      split
      · exact ih
      · refine (only_loadMessageWithMedia hselect hget id).bind fun loaded => ?_
        cases loaded with
        | none => exact ih
        | some m => trivial

theorem only_resolveExistingClaim (hselect : ∀ τ p, P (.sql (.select τ p)))
    (hget : ∀ τ k, P (.sql (.get τ k))) (hredis : ∀ k, P (.redisGet k)) (hsleep : P .sleep)
    (hrollback : P (.sql .rollback)) (u : UserId) (key : Text) :
    (resolveExistingClaim u key).Only P := by
  refine (only_loadClaimedMessageId hredis u key).bind fun claimed => ?_
  cases claimed with
  | none => trivial
  | some id =>
    refine (only_loadMessageWithMedia hselect hget id).bind fun loaded => ?_
    cases loaded with
    | some m => trivial
    | none =>
      exact (Prog.only_perform hrollback).bind fun _ =>
        only_resolveLoop hselect hget hredis hsleep u key _

theorem only_ensureChannelAndMembership (hget : ∀ τ k, P (.sql (.get τ k))) (c : ChannelId)
    (u : UserId) : (ensureChannelAndMembership c u).Only P := by
  refine (Prog.only_perform (hget _ _)).bind fun channel => ?_
  cases channel with
  | none => trivial
  | some channel =>
    refine (Prog.only_perform (hget _ _)).bind fun membership => ?_
    cases membership <;> trivial

theorem only_rejectSelfDm (r u : UserId) : (rejectSelfDm r u).Only P := by
  unfold rejectSelfDm
  split <;> trivial

theorem only_ensureActiveRecipientExists (hget : ∀ τ k, P (.sql (.get τ k))) (r : UserId) :
    (ensureActiveRecipientExists r).Only P := by
  refine (Prog.only_perform (hget _ _)).bind fun recipient => ?_
  cases recipient with
  | none => trivial
  | some recipient =>
    show Prog.Only P (if _ then _ else _)
    split <;> trivial

end Chatspace.Messages
