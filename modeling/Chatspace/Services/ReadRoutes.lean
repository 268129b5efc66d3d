import Chatspace.Backend.Readers
import Chatspace.Core.Filenames
import Chatspace.Services.Channels
import Chatspace.Services.PageQueries
import Chatspace.Services.Messages

/-!
# Requests that read

The channel view, the two histories with their attachments, and the URL of an attachment, while
everybody else goes on writing.

* `getChannelView`, `ensureChannelAndMembership`, `getMediaUrl`, … — the services;
* `Request.program` — the routes;
* `Granted`, `Denied` — what an answer rests on, and what a refusal does;
* `reads_authorized` — **what a request is shown it was entitled to at a moment of the request, and
  it is refused for a reason there was at such a moment.**
-/

namespace Chatspace.ReadRoutes

open Interleave Store Channels Messages

/-! ### Channels -/

def getChannelView (channelId : ChannelId) (callerId : UserId) : Py (Option ChannelView) := do
  match ← Py.get .channels channelId with
  | none => return none
  | some channel =>
    let membership ← getMembership channelId callerId
    if channel.isPrivate && membership.isNone then return none
    else
      let memberCount ← countChannelMembers channelId
      return some ⟨channelId, channel, memberCount, membership.map ChannelMember.role⟩

/-- `GET /channels/{channel_id}`. -/
def getChannelRoute (channelId : ChannelId) (callerId : UserId) : Py ChannelView :=
  Py.getDbSession do
    match ← getChannelView channelId callerId with
    | none => .raise (.httpException 404)
    | some view => return view

/-! ### Histories -/

def isChannelHistory (channelId : ChannelId) (_ : MessageId) (m : Message) : Bool :=
  m.target = .channel channelId && m.deletedAt.isNone

def isDmHistory (callerId otherUserId : UserId) (_ : MessageId) (m : Message) : Bool :=
  match m.target with
  | .channel _ => false
  | .dm recipientId =>
    m.deletedAt.isNone && dmPair m.senderId recipientId = dmPair callerId otherUserId

/-- The page of these rows. -/
def pageOf (rows : List (MessageId × Message)) (limit : ℕ) (cursor : Option CursorKey) :
    Page (MessageId × Message) :=
  let stmt := applyKeyset rows (fun m => m.2.createdAt) (fun m => m.1) cursor
  paginateRows (stmt.take (limit + 1)) limit fun m => ⟨m.2.createdAt, m.1⟩

/-- `get_media_for_messages`: of each message, the attachments in their order. -/
def groupMedia (rows : List (AttachmentId × Attachment)) (messageId : MessageId) :
    List (AttachmentId × Attachment) :=
  (rows.insertionSort fun a b =>
    a.2.createdAt < b.2.createdAt ∨ (a.2.createdAt = b.2.createdAt ∧ a.1 ≤ b.1)).filter
      fun a => a.2.messageId = some messageId

def isMediaOf (messageIds : List MessageId) (_ : AttachmentId) (a : Attachment) : Bool :=
  a.messageId.any (· ∈ messageIds)

def getMediaForMessages (messageIds : List MessageId) :
    Py (MessageId → List (AttachmentId × Attachment)) :=
  if messageIds = [] then return fun _ => []
  else do
    let rows ← Py.select .attachments (isMediaOf messageIds)
    return groupMedia rows

/-- `MessageHistoryResponse`. -/
def withMedia (page : Page (MessageId × Message))
    (media : MessageId → List (AttachmentId × Attachment)) : Page MessageWithMedia :=
  ⟨page.items.map fun m => ⟨m.1, m.2, media m.1⟩, page.nextCursor⟩

/-- A page of the messages that satisfy `p`, with their attachments. -/
def readHistory (p : MessageId → Message → Bool) (limit : ℕ) (cursor : Option CursorKey) :
    Py (Page MessageWithMedia) := do
  let rows ← Py.select .messages p
  let page := pageOf rows limit cursor
  let media ← getMediaForMessages (page.items.map Prod.fst)
  return withMedia page media

/-- The statuses of `ensure_channel_and_membership` and `ensure_dm_history_access`. -/
def historyStatus : Exc → Exc
  | .channelNotFoundError => .httpException 404
  | .notChannelMemberError => .httpException 403
  | .selfDMError => .httpException 422
  | .recipientNotFoundError => .httpException 404
  | e => e

/-- `GET /channels/{channel_id}/messages`. -/
def getChannelMessageHistoryRoute (channelId : ChannelId) (callerId : UserId) (limit : ℕ)
    (cursor : Option CursorKey) : Py (Page MessageWithMedia) :=
  Py.getDbSession do
    (ensureChannelAndMembership channelId callerId).handle fun e => .raise (historyStatus e)
    readHistory (isChannelHistory channelId) limit cursor

def ensureDmHistoryParticipantExists (otherUserId : UserId) : Py Unit := do
  match ← Py.get .users otherUserId with
  | none => .raise .recipientNotFoundError
  | some _ => return ()

def ensureDmHistoryAccess (otherUserId callerId : UserId) : Py Unit := do
  rejectSelfDm otherUserId callerId
  ensureDmHistoryParticipantExists otherUserId

/-- `GET /dms/{user_id}/messages`. -/
def getDmMessageHistoryRoute (callerId otherUserId : UserId) (limit : ℕ)
    (cursor : Option CursorKey) : Py (Page MessageWithMedia) :=
  Py.getDbSession do
    (ensureDmHistoryAccess otherUserId callerId).handle fun e => .raise (historyStatus e)
    readHistory (isDmHistory callerId otherUserId) limit cursor

/-! ### Attachments -/

/-- `PRESIGNED_URL_TTL_SECONDS`. -/
def presignedUrlTtlSeconds : ℕ := 5 * 60

/-- `_FILE_KIND_STORED_CONTENT_TYPE`. -/
def fileKindStoredContentType : Text := "application/octet-stream".toList

/-- A URL, as what has been signed into it; the key of an object names its attachment. -/
structure PresignedUrl where
  key : AttachmentId
  expiresIn : ℕ
  responseContentType : Option Text
  responseContentDisposition : Option Text
deriving DecidableEq

structure MediaUrlResult where
  url : PresignedUrl
  expiresAt : Time
  contentType : Text
  filename : Text
  size : ℕ
deriving DecidableEq

def callerCanAccessMessageMedia (message : Message) (callerId : UserId) : Py Bool :=
  match message.target with
  | .channel channelId => do
    let membership ← getMembership channelId callerId
    return membership.isSome
  | .dm recipientId => return callerId = message.senderId || callerId = recipientId

/-- `generate_presigned_get_url`, with what a file is forced to be served as. -/
def presignedUrl (mediaId : AttachmentId) (attachment : Attachment) : PresignedUrl :=
  if attachment.kind = .file then
    ⟨mediaId, presignedUrlTtlSeconds, some fileKindStoredContentType,
      some (attachmentContentDisposition attachment.filename)⟩
  else ⟨mediaId, presignedUrlTtlSeconds, none, none⟩

/-- `MediaNotFoundError` and `NotAuthorizedForMediaError`. -/
inductive MediaError where
  | notFound
  | notAuthorized
deriving DecidableEq

def getMediaUrl (mediaId : AttachmentId) (callerId : UserId) :
    Py (Except MediaError MediaUrlResult) := do
  match ← Py.get .attachments mediaId with
  | none => return .error .notFound
  | some attachment =>
    match attachment.messageId with
    | none => return .error .notFound
    | some messageId =>
      match ← Py.get .messages messageId with
      | none => return .error .notFound
      | some message =>
        if message.deletedAt.isSome then return .error .notFound
        else
          let allowed ← callerCanAccessMessageMedia message callerId
          if allowed then
            let now ← Prog.perform Op.utcNow
            return .ok ⟨presignedUrl mediaId attachment, now + presignedUrlTtlSeconds,
              attachment.contentType, attachment.filename, attachment.byteSize⟩
          else return .error .notAuthorized

/-- `GET /media/{media_id}/url`. -/
def getMediaUrlRoute (mediaId : AttachmentId) (callerId : UserId) : Py MediaUrlResult :=
  Py.getDbSession do
    match ← getMediaUrl mediaId callerId with
    | .ok result => return result
    | .error .notFound => .raise (.httpException 404)
    | .error .notAuthorized => .raise (.httpException 403)

/-! ### Requests -/

inductive Request where
  | channel (channelId : ChannelId) (callerId : UserId)
  | channelHistory (channelId : ChannelId) (callerId : UserId) (limit : ℕ)
      (cursor : Option CursorKey)
  | dmHistory (callerId otherUserId : UserId) (limit : ℕ) (cursor : Option CursorKey)
  | mediaUrl (mediaId : AttachmentId) (callerId : UserId)

inductive Answer where
  | channel (view : ChannelView)
  | history (page : Page MessageWithMedia)
  | mediaUrl (result : MediaUrlResult)
deriving DecidableEq

def Request.program : Request → Py Answer
  | .channel c u => (getChannelRoute c u).bind fun view => .ret (.channel view)
  | .channelHistory c u limit cursor =>
    (getChannelMessageHistoryRoute c u limit cursor).bind fun page => .ret (.history page)
  | .dmHistory u other limit cursor =>
    (getDmMessageHistoryRoute u other limit cursor).bind fun page => .ret (.history page)
  | .mediaUrl a u => (getMediaUrlRoute a u).bind fun result => .ret (.mediaUrl result)

/-! ### What an answer rests on -/

/-- What has been read: rows by their key, and the rows that satisfy a condition. -/
structure Reads where
  get : (τ : Tbl) → τ.Key → Option τ.Row → Prop
  select : (τ : Tbl) → (τ.Key → τ.Row → Bool) → List (τ.Key × τ.Row) → Prop

/-- The attachments of the messages of the page are those that are bound to them. -/
def ShowsPage (R : Reads) (p : MessageId → Message → Bool) (limit : ℕ) (cursor : Option CursorKey)
    (page : Page MessageWithMedia) : Prop :=
  ∃ rows, R.select .messages p rows ∧ ∃ media, page = withMedia (pageOf rows limit cursor) media ∧
    ((pageOf rows limit cursor).items = [] ∨ ∃ found,
      R.select .attachments (isMediaOf ((pageOf rows limit cursor).items.map Prod.fst)) found ∧
        media = groupMedia found)

/-- The user is a member of the channel of the message, or one of its two users. -/
def MayAccess (R : Reads) (message : Message) (userId : UserId) : Prop :=
  match message.target with
  | .channel c => ∃ m, R.get .channelMembers (c, userId) (some m)
  | .dm recipientId => userId = message.senderId ∨ userId = recipientId

def MayNotAccess (R : Reads) (message : Message) (userId : UserId) : Prop :=
  match message.target with
  | .channel c => R.get .channelMembers (c, userId) none
  | .dm recipientId => userId ≠ message.senderId ∧ userId ≠ recipientId

/-- What an answer says is what was read, and entitles to it. -/
def Granted (R : Reads) : Request → Answer → Prop
  | .channel c u, .channel view => ∃ channel membership rows, R.get .channels c (some channel) ∧
      R.get .channelMembers (c, u) membership ∧
        R.select .channelMembers (fun k _ => k.1 = c) rows ∧
          (channel.isPrivate = true → membership ≠ none) ∧
            view = ⟨c, channel, rows.length, membership.map ChannelMember.role⟩
  | .channelHistory c u limit cursor, .history page =>
      (∃ channel, R.get .channels c (some channel)) ∧
        (∃ m, R.get .channelMembers (c, u) (some m)) ∧
          ShowsPage R (isChannelHistory c) limit cursor page
  | .dmHistory u other limit cursor, .history page => other ≠ u ∧
      (∃ x, R.get .users other (some x)) ∧ ShowsPage R (isDmHistory u other) limit cursor page
  | .mediaUrl a u, .mediaUrl result => ∃ attachment m message now,
      R.get .attachments a (some attachment) ∧ attachment.messageId = some m ∧
        R.get .messages m (some message) ∧ message.deletedAt = none ∧ MayAccess R message u ∧
          result = ⟨presignedUrl a attachment, now + presignedUrlTtlSeconds,
            attachment.contentType, attachment.filename, attachment.byteSize⟩
  | _, _ => False

/-- The attachment is not there, bound to no message, or bound to one that is deleted. -/
def NoMedia (R : Reads) (a : AttachmentId) : Prop :=
  R.get .attachments a none ∨ ∃ attachment, R.get .attachments a (some attachment) ∧
    ∀ m, attachment.messageId = some m → R.get .messages m none ∨
      ∃ message, R.get .messages m (some message) ∧ message.deletedAt ≠ none

/-- What a refusal rests on. -/
def Denied (R : Reads) : Request → Exc → Prop
  | .channel c u, e => e = .httpException 404 ∧ (R.get .channels c none ∨
      ∃ channel, R.get .channels c (some channel) ∧ channel.isPrivate = true ∧
        R.get .channelMembers (c, u) none)
  | .channelHistory c u _ _, e => e = .httpException 404 ∧ R.get .channels c none ∨
      e = .httpException 403 ∧ (∃ channel, R.get .channels c (some channel)) ∧
        R.get .channelMembers (c, u) none
  | .dmHistory u other _ _, e => e = .httpException 422 ∧ other = u ∨
      e = .httpException 404 ∧ other ≠ u ∧ R.get .users other none
  | .mediaUrl a u, e => e = .httpException 404 ∧ NoMedia R a ∨
      e = .httpException 403 ∧ ∃ attachment m message, R.get .attachments a (some attachment) ∧
        attachment.messageId = some m ∧ R.get .messages m (some message) ∧
          message.deletedAt = none ∧ MayNotAccess R message u

variable {T : Type} [DecidableEq T] {hash : RawToken → TokenHash} {t : T} {R R' : Reads}
  {w : BackendWorld T}

/-- Whatever was read by the one was read by the other. -/
structure Reads.Le (R R' : Reads) : Prop where
  get : ∀ {τ k x}, R.get τ k x → R'.get τ k x
  select : ∀ {τ q rows}, R.select τ q rows → R'.select τ q rows

theorem ShowsPage.mono (h : R.Le R') {p : MessageId → Message → Bool} {limit : ℕ}
    {cursor : Option CursorKey} {page : Page MessageWithMedia}
    (hs : ShowsPage R p limit cursor page) : ShowsPage R' p limit cursor page := by
  obtain ⟨rows, hrows, media, hpage, hmedia⟩ := hs
  refine ⟨rows, h.select hrows, media, hpage, hmedia.imp_right fun hfound => ?_⟩
  obtain ⟨found, hfound, heq⟩ := hfound
  exact ⟨found, h.select hfound, heq⟩

theorem MayAccess.mono (h : R.Le R') {message : Message} {u : UserId} (hm : MayAccess R message u) :
    MayAccess R' message u := by
  unfold MayAccess at hm ⊢
  split at hm
  · exact hm.imp fun _ => h.get
  · exact hm

theorem MayNotAccess.mono (h : R.Le R') {message : Message} {u : UserId}
    (hm : MayNotAccess R message u) : MayNotAccess R' message u := by
  unfold MayNotAccess at hm ⊢
  split at hm
  · exact h.get hm
  · exact hm

theorem NoMedia.mono (h : R.Le R') {a : AttachmentId} (hm : NoMedia R a) : NoMedia R' a := by
  refine hm.imp h.get fun hbound => ?_
  obtain ⟨attachment, hget, hbound⟩ := hbound
  refine ⟨attachment, h.get hget, fun m hm => (hbound m hm).imp h.get fun hdeleted => ?_⟩
  obtain ⟨message, hmessage, hdeleted⟩ := hdeleted
  exact ⟨message, h.get hmessage, hdeleted⟩

theorem Granted.mono (h : R.Le R') {request : Request} {a : Answer} (hg : Granted R request a) :
    Granted R' request a := by
  unfold Granted at hg ⊢
  split at hg
  · obtain ⟨channel, membership, rows, hchannel, hmembership, hrows, hprivate, hview⟩ := hg
    exact ⟨channel, membership, rows, h.get hchannel, h.get hmembership, h.select hrows, hprivate,
      hview⟩
  · exact ⟨hg.1.imp fun _ => h.get, hg.2.1.imp fun _ => h.get, hg.2.2.mono h⟩
  · exact ⟨hg.1, hg.2.1.imp fun _ => h.get, hg.2.2.mono h⟩
  · obtain ⟨attachment, m, message, now, hattachment, hm, hmessage, hdeleted, hmay, hresult⟩ := hg
    exact ⟨attachment, m, message, now, h.get hattachment, hm, h.get hmessage, hdeleted,
      hmay.mono h, hresult⟩
  · exact hg

theorem Denied.mono (h : R.Le R') {request : Request} {e : Exc} (hd : Denied R request e) :
    Denied R' request e := by
  cases request with
  | channel c u =>
    refine ⟨hd.1, hd.2.imp h.get fun hprivate => ?_⟩
    obtain ⟨channel, hchannel, hprivate, hmembership⟩ := hprivate
    exact ⟨channel, h.get hchannel, hprivate, h.get hmembership⟩
  | channelHistory c u limit cursor =>
    refine hd.imp (fun hd => ⟨hd.1, h.get hd.2⟩) fun hd => ?_
    exact ⟨hd.1, hd.2.1.imp fun _ => h.get, h.get hd.2.2⟩
  | dmHistory u other limit cursor =>
    exact hd.imp_right fun hd => ⟨hd.1, hd.2.1, h.get hd.2.2⟩
  | mediaUrl a u =>
    refine hd.imp (fun hd => ⟨hd.1, hd.2.mono h⟩) fun hd => ⟨hd.1, ?_⟩
    obtain ⟨attachment, m, message, hattachment, hm, hmessage, hdeleted, hmay⟩ := hd.2
    exact ⟨attachment, m, message, h.get hattachment, hm, h.get hmessage, hdeleted, hmay.mono h⟩

/-- What request `t` has been told. -/
def told (t : T) (w : BackendWorld T) : Reads where
  get τ k x := Seen t (.sql (.get τ k)) x w
  select τ q rows := Seen t (.sql (.select τ q)) rows w

theorem known_told {P : Reads → Prop} (hP : ∀ {R R'}, R.Le R' → P R → P R') :
    Known t fun w : BackendWorld T => P (told t w) := by
  intro w w' h hw
  exact hP ⟨fun hget => h _ hget, fun hselect => h _ hselect⟩ hw

/-! ### The programs -/

theorem known_granted {request : Request} {a : Answer} :
    Known t fun w : BackendWorld T => Granted (told t w) request a :=
  known_told (P := fun R => Granted R request a) fun h => Granted.mono h

theorem known_denied {request : Request} {e : Exc} :
    Known t fun w : BackendWorld T => Denied (told t w) request e :=
  known_told (P := fun R => Denied R request e) fun h => Denied.mono h

theorem safe_getChannelRoute (c : ChannelId) (u : UserId) :
    (Contract.free (machine T hash)).Safe t (getChannelRoute c u) (fun _ => True)
      (fun view w => Granted (told t w) (.channel c u) (.channel view))
      fun e w => Denied (told t w) (.channel c u) e ∨ Failed t w := by
  refine safe_readSession (fun _ => known_granted) (fun _ => known_denied) ?_
  refine Contract.Safe.bind (Q := fun view w => match view with
    | none => Denied (told t w) (.channel c u) (.httpException 404)
    | some view => Granted (told t w) (.channel c u) (.channel view)) ?_ fun view => ?_
  · refine Contract.Safe.bind (safe_askOr (o := .sql (.get .channels c)) .true) fun channel => ?_
    cases channel with
    | none => exact fun w _ hw => ⟨rfl, .inl hw.2⟩
    | some channel =>
      refine Contract.Safe.bind (safe_askOr (o := .sql (.get .channelMembers (c, u)))
        (Known.true.and known_seen)) fun membership => ?_
      show (Contract.free (machine T hash)).Safe t (if _ then _ else _) _ _ _
      split
      · rename_i hhidden
        rw [Bool.and_eq_true, Option.isNone_iff_eq_none] at hhidden
        obtain ⟨hprivate, rfl⟩ := hhidden
        exact fun w _ hw => ⟨rfl, .inr ⟨channel, hw.1.2, hprivate, hw.2⟩⟩
      · rename_i hshown
        rw [Bool.and_eq_true, Option.isNone_iff_eq_none, not_and] at hshown
        refine Contract.Safe.bind (Contract.Safe.bind
          (safe_askOr (o := .sql (.select .channelMembers fun k _ => k.1 = c))
            ((Known.true.and known_seen).and known_seen)) fun rows w _ hw => ?_) fun n w _ hw => hw
        exact ⟨channel, membership, rows, hw.1.1.2, hw.1.2, hw.2, hshown, rfl⟩
  · cases view with
    | none => exact fun w _ hw => .inl hw
    | some view => exact fun w _ hw => hw

variable {limit : ℕ} {cursor : Option CursorKey} {A : BackendWorld T → Prop}
  {Q : Exc → BackendWorld T → Prop}

theorem safe_readHistory (hA : Known t A) (p : MessageId → Message → Bool) :
    (Contract.free (machine T hash)).Safe t (readHistory p limit cursor) A
      (fun page w => A w ∧ ShowsPage (told t w) p limit cursor page)
      fun e w => Q e w ∨ Failed t w := by
  refine Contract.Safe.bind (safe_askOr (o := .sql (.select .messages p)) hA) fun rows => ?_
  refine Contract.Safe.bind (Q := fun media w =>
    (A w ∧ Seen t (.sql (.select .messages p)) rows w) ∧ ((pageOf rows limit cursor).items = [] ∨ ∃ found,
      Seen t (.sql (.select .attachments
        (isMediaOf ((pageOf rows limit cursor).items.map Prod.fst)))) found w ∧
          media = groupMedia found)) ?_ fun media w _ hw => ?_
  · unfold getMediaForMessages
    split
    · rename_i hnone
      exact fun w _ hw => ⟨hw, .inl (List.map_eq_nil_iff.mp hnone)⟩
    · exact Contract.Safe.bind (safe_askOr (hA.and known_seen)) fun found w _ hw =>
        ⟨hw.1, .inr ⟨found, hw.2, rfl⟩⟩
  · exact ⟨hw.1.1, rows, hw.1.2, media, rfl, hw.2⟩

theorem safe_getChannelMessageHistoryRoute (c : ChannelId) (u : UserId) :
    (Contract.free (machine T hash)).Safe t (getChannelMessageHistoryRoute c u limit cursor)
      (fun _ => True)
      (fun page w => Granted (told t w) (.channelHistory c u limit cursor) (.history page))
      fun e w => Denied (told t w) (.channelHistory c u limit cursor) e ∨ Failed t w := by
  refine safe_readSession (fun _ => known_granted) (fun _ => known_denied) ?_
  have hknown : Known t fun w : BackendWorld T =>
      (∃ channel, (told t w).get .channels c (some channel)) ∧
        ∃ m, (told t w).get .channelMembers (c, u) (some m) :=
    .and (.exists fun _ => known_seen) (.exists fun _ => known_seen)
  refine Contract.Safe.bind (Contract.Safe.handle (R := fun e w =>
    (e = .channelNotFoundError ∧ (told t w).get .channels c none ∨ e = .notChannelMemberError ∧
      (∃ channel, (told t w).get .channels c (some channel)) ∧
        (told t w).get .channelMembers (c, u) none) ∨ Failed t w) ?_ fun e w _ hw => ?_)
    fun _ => (safe_readHistory hknown _).mono (fun _ _ hw => hw)
      (fun _ _ _ hw => ⟨hw.1.1, hw.1.2, hw.2⟩) fun _ _ _ hw => hw
  · refine Contract.Safe.bind (safe_askOr (o := .sql (.get .channels c)) .true) fun channel => ?_
    cases channel with
    | none => exact fun w _ hw => .inl (.inl ⟨rfl, hw.2⟩)
    | some channel =>
      refine Contract.Safe.bind (safe_askOr (o := .sql (.get .channelMembers (c, u)))
        (Known.true.and known_seen)) fun membership => ?_
      cases membership with
      | none => exact fun w _ hw => .inl (.inr ⟨rfl, ⟨channel, hw.1.2⟩, hw.2⟩)
      | some m => exact fun w _ hw => ⟨⟨channel, hw.1.2⟩, m, hw.2⟩
  · refine hw.imp_left fun hw => ?_
    rcases hw with ⟨rfl, hnone⟩ | ⟨rfl, hnone⟩
    · exact .inl ⟨rfl, hnone⟩
    · exact .inr ⟨rfl, hnone⟩

theorem safe_getDmMessageHistoryRoute (u other : UserId) :
    (Contract.free (machine T hash)).Safe t (getDmMessageHistoryRoute u other limit cursor)
      (fun _ => True)
      (fun page w => Granted (told t w) (.dmHistory u other limit cursor) (.history page))
      fun e w => Denied (told t w) (.dmHistory u other limit cursor) e ∨ Failed t w := by
  refine safe_readSession (fun _ => known_granted) (fun _ => known_denied) ?_
  have hknown : Known t fun w : BackendWorld T => other ≠ u ∧
      ∃ x, (told t w).get .users other (some x) :=
    .and (.const _) (.exists fun _ => known_seen)
  refine Contract.Safe.bind (Contract.Safe.handle (R := fun e w => (e = .selfDMError ∧ other = u ∨
    e = .recipientNotFoundError ∧ other ≠ u ∧ (told t w).get .users other none) ∨ Failed t w) ?_
    fun e w _ hw => ?_)
    fun _ => (safe_readHistory hknown _).mono (fun _ _ hw => hw)
      (fun _ _ _ hw => ⟨hw.1.1, hw.1.2, hw.2⟩) fun _ _ _ hw => hw
  · refine Contract.Safe.bind (Q := fun _ w => True ∧ other ≠ u) ?_ fun _ => .const fun hother => ?_
    · unfold rejectSelfDm
      split
      · rename_i hself
        exact fun w _ _ => .inl (.inl ⟨rfl, hself⟩)
      · rename_i hother
        exact fun w _ _ => ⟨trivial, hother⟩
    · refine Contract.Safe.bind (safe_askOr (o := .sql (.get .users other)) .true) fun x => ?_
      cases x with
      | none => exact fun w _ hw => .inl (.inr ⟨rfl, hother, hw.2⟩)
      | some x => exact fun w _ hw => ⟨hother, x, hw.2⟩
  · refine hw.imp_left fun hw => ?_
    rcases hw with ⟨rfl, hself⟩ | ⟨rfl, hnone⟩
    · exact .inl ⟨rfl, hself⟩
    · exact .inr ⟨rfl, hnone⟩

/-- The check of the current membership, or of the two users. -/
theorem safe_callerCanAccessMessageMedia (hA : Known t A) (message : Message) (u : UserId) :
    (Contract.free (machine T hash)).Safe t (callerCanAccessMessageMedia message u) A
      (fun allowed w => A w ∧ if allowed = true then MayAccess (told t w) message u
        else MayNotAccess (told t w) message u)
      fun e w => Q e w ∨ Failed t w := by
  unfold callerCanAccessMessageMedia MayAccess MayNotAccess
  cases message.target with
  | channel c =>
    refine Contract.Safe.bind (safe_askOr (o := .sql (.get .channelMembers (c, u))) hA)
      fun membership w _ hw => ⟨hw.1, ?_⟩
    cases membership with
    | none => exact hw.2
    | some m => exact ⟨m, hw.2⟩
  | dm recipientId =>
    refine fun w _ hw => ⟨hw, ?_⟩
    split
    · rename_i hallowed
      simpa using hallowed
    · rename_i hrefused
      simpa using hrefused

theorem safe_getMediaUrl (a : AttachmentId) (u : UserId) :
    (Contract.free (machine T hash)).Safe t (getMediaUrl a u) (fun _ => True)
      (fun r w => match r with
        | .ok result => Granted (told t w) (.mediaUrl a u) (.mediaUrl result)
        | .error .notFound => Denied (told t w) (.mediaUrl a u) (.httpException 404)
        | .error .notAuthorized => Denied (told t w) (.mediaUrl a u) (.httpException 403))
      fun e w => Q e w ∨ Failed t w := by
  refine Contract.Safe.bind (safe_askOr (o := .sql (.get .attachments a)) .true) fun x => ?_
  cases x with
  | none => exact fun w _ hw => .inl ⟨rfl, .inl hw.2⟩
  | some attachment =>
    cases hm : attachment.messageId with
    | none =>
      simp only [hm]
      exact fun w _ hw => .inl ⟨rfl, .inr ⟨attachment, hw.2, fun m h => by rw [hm] at h; cases h⟩⟩
    | some m =>
      simp only [hm]
      refine Contract.Safe.bind (safe_askOr (o := .sql (.get .messages m))
        (Known.true.and known_seen)) fun x => ?_
      cases x with
      | none =>
        refine fun w _ hw => .inl ⟨rfl, .inr ⟨attachment, hw.1.2, fun m' h => .inl ?_⟩⟩
        cases hm.symm.trans h
        exact hw.2
      | some message =>
        show (Contract.free (machine T hash)).Safe t (if _ then _ else _) _ _ _
        split
        · rename_i hdeleted
          refine fun w _ hw => .inl ⟨rfl, .inr ⟨attachment, hw.1.2, fun m' h => .inr ?_⟩⟩
          cases hm.symm.trans h
          exact ⟨message, hw.2, Option.isSome_iff_ne_none.mp hdeleted⟩
        · rename_i hdeleted
          rw [Option.not_isSome_iff_eq_none] at hdeleted
          refine Contract.Safe.bind (safe_callerCanAccessMessageMedia
            ((Known.true.and known_seen).and known_seen) message u) fun allowed => ?_
          cases allowed with
          | true =>
            refine Contract.Safe.bind (safe_askOr (o := .utcNow) (.and
              ((Known.true.and known_seen).and known_seen)
              (known_told (P := fun R => MayAccess R message u) fun h => MayAccess.mono h)))
              fun now w _ hw => ?_
            exact ⟨attachment, m, message, now, hw.1.1.1.2, hm, hw.1.1.2, hdeleted, hw.1.2, rfl⟩
          | false =>
            exact fun w _ hw => .inr ⟨rfl, attachment, m, message, hw.1.1.2, hm, hw.1.2, hdeleted,
              hw.2⟩

theorem safe_getMediaUrlRoute (a : AttachmentId) (u : UserId) :
    (Contract.free (machine T hash)).Safe t (getMediaUrlRoute a u) (fun _ => True)
      (fun result w => Granted (told t w) (.mediaUrl a u) (.mediaUrl result))
      fun e w => Denied (told t w) (.mediaUrl a u) e ∨ Failed t w := by
  refine safe_readSession (fun _ => known_granted) (fun _ => known_denied)
    (Contract.Safe.bind (safe_getMediaUrl a u) fun r => ?_)
  match r with
  | .ok result => exact fun w _ hw => hw
  | .error .notFound => exact fun w _ hw => .inl hw
  | .error .notAuthorized => exact fun w _ hw => .inl hw

theorem safe_program (request : Request) :
    (Contract.free (machine T hash)).Safe t request.program (fun _ => True)
      (fun a w => Granted (told t w) request a)
      fun e w => Denied (told t w) request e ∨ Failed t w := by
  cases request with
  | channel c u => exact (safe_getChannelRoute c u).bind fun view w _ hw => hw
  | channelHistory c u limit cursor =>
    exact (safe_getChannelMessageHistoryRoute c u).bind fun page w _ hw => hw
  | dmHistory u other limit cursor =>
    exact (safe_getDmMessageHistoryRoute u other).bind fun page w _ hw => hw
  | mediaUrl a u => exact (safe_getMediaUrlRoute a u).bind fun result w _ hw => hw

/-! ### They only read -/

theorem only_readHistory (p : MessageId → Message → Bool) :
    (readHistory p limit cursor).Only ReadOnly := by
  refine Prog.Only.bind (Prog.only_perform trivial) fun rows => Prog.Only.bind ?_ fun _ => trivial
  unfold getMediaForMessages
  split
  · trivial
  · exact Prog.Only.bind (Prog.only_perform trivial) fun _ => trivial

theorem only_historyStatus {p : Py Unit} (hp : p.Only ReadOnly) :
    (p.handle fun e => .raise (historyStatus e)).Only ReadOnly :=
  hp.handle fun _ => trivial

theorem only_getMediaUrl (a : AttachmentId) (u : UserId) : (getMediaUrl a u).Only ReadOnly := by
  refine Prog.Only.bind (Prog.only_perform trivial) fun x => ?_
  cases x with
  | none => trivial
  | some attachment =>
    cases hm : attachment.messageId with
    | none =>
      simp only [hm]
      trivial
    | some m =>
      simp only [hm]
      refine Prog.Only.bind (Prog.only_perform trivial) fun x => ?_
      cases x with
      | none => trivial
      | some message =>
        show Prog.Only _ (if _ then _ else _)
        split
        · trivial
        · refine Prog.Only.bind ?_ fun allowed => ?_
          · unfold callerCanAccessMessageMedia
            split
            · exact Prog.Only.bind (Prog.only_perform trivial) fun _ => trivial
            · trivial
          · cases allowed with
            | true => exact Prog.Only.bind (Prog.only_perform trivial) fun _ => trivial
            | false => trivial

theorem only_program (request : Request) : request.program.Only ReadOnly := by
  cases request with
  | channel c u =>
    refine Prog.Only.bind (only_readSession ?_) fun _ => trivial
    refine Prog.Only.bind ?_ fun view => by cases view <;> trivial
    refine Prog.Only.bind (Prog.only_perform trivial) fun channel => ?_
    cases channel with
    | none => trivial
    | some channel =>
      refine Prog.Only.bind (Prog.only_perform trivial) fun membership => ?_
      show Prog.Only _ (if _ then _ else _)
      split
      · trivial
      · exact Prog.Only.bind (Prog.Only.bind (Prog.only_perform trivial) fun _ => trivial)
          fun _ => trivial
  | channelHistory c u limit cursor =>
    refine Prog.Only.bind (only_readSession ?_) fun _ => trivial
    exact Prog.Only.bind (only_historyStatus
      (only_ensureChannelAndMembership (fun _ _ => trivial) c u)) fun _ => only_readHistory _
  | dmHistory u other limit cursor =>
    refine Prog.Only.bind (only_readSession ?_) fun _ => trivial
    refine Prog.Only.bind (only_historyStatus ?_) fun _ => only_readHistory _
    refine Prog.Only.bind (only_rejectSelfDm other u) fun _ => ?_
    exact Prog.Only.bind (Prog.only_perform trivial) fun x => by cases x <;> trivial
  | mediaUrl a u =>
    refine Prog.Only.bind (only_readSession ?_) fun _ => trivial
    refine Prog.Only.bind (only_getMediaUrl a u) fun r => ?_
    match r with
    | .ok result => trivial
    | .error .notFound => trivial
    | .error .notAuthorized => trivial

/-! ### Runs -/

variable {request : Request} {p p₀ : Pool T Op Op.Res Exc Answer (State T)}
  {ls : List (Label T Choice Tick)}

/-- What was committed at a moment of request `t`. -/
def atMoments (hash : RawToken → TokenHash) (p₀ : Pool T Op Op.Res Exc Answer (State T))
    (ls : List (Label T Choice Tick)) (t : T) : Reads where
  get τ k x := (machine T hash).During p₀ ls t fun w => (w.state.db τ).committed k = x
  select τ q rows := (machine T hash).During p₀ ls t (Reader.Selects τ q rows)

theorem told_le (hreader : Reader t p₀) (hr : (machine T hash).run p₀ ls = some p) :
    (told t p.world).Le (atMoments hash p₀ ls t) :=
  ⟨(hreader.readsOnly _).during_get hr, (hreader.readsOnly _).during_select hr⟩

/-- **What is read was allowed.** Whatever the other requests do meanwhile: what a request is shown
was committed, and entitled its caller to it, at moments of the request; and it is refused for a
reason that there was at such moments, unless an operation raised. -/
theorem reads_authorized (hprog : p₀.prog t = request.program) (hown : p₀.world.own t = [])
    (hhold : ∀ τ k, ¬ (p₀.world.state.db τ).Holds t k)
    (hr : (machine T hash).run p₀ ls = some p) :
    (∀ a, p.prog t = .ret a → Granted (atMoments hash p₀ ls t) request a) ∧
      ∀ e, p.prog t = .raise e →
        Denied (atMoments hash p₀ ls t) request e ∨ Failed t p.world := by
  have hreader : Reader t p₀ := ⟨hprog ▸ only_program request, hhold, hown⟩
  have hle := told_le hreader hr
  have hends := Contract.run_of_free (.const True) trivial (hprog ▸ safe_program request) hr
  refine ⟨fun a ha => (hends.1 a ha).mono hle, fun e he => ?_⟩
  exact (hends.2 e he).imp_left fun hdenied => hdenied.mono hle

/-- The channel's history is read while its reader leaves the channel. -/
def leavingReader : Pool Bool Op Op.Res Exc Answer (State Bool) where
  world := ⟨State.ofRows fun
    | .channels => [(5, ⟨['c'], true, 10, 0⟩)]
    | .channelMembers => [((5, 10), ⟨.member, 0⟩)]
    | .messages => [(7, ⟨.channel 5, 11, ['h', 'i'], 3, none, none⟩)]
    | _ => [], []⟩
  prog
    | false => (Request.channelHistory 5 10 20 none).program
    | true => (leaveChannelRoute 5 10).bind fun _ => .ret (.history ⟨[], none⟩)

def leavingRun : List (Label Bool Choice Tick) :=
  List.replicate 2 (.proc false (.ok [] 0)) ++ List.replicate 7 (.proc true (.ok [] 0)) ++
    List.replicate 4 (.proc false (.ok [] 0))

theorem reads_authorized_leaving :
    ∃ q, (machine Bool fun n => n).run leavingReader leavingRun = some q ∧
      (q.world.state.db .channelMembers).committed (5, 10) = none ∧
        ∃ page : Page MessageWithMedia, q.prog false = .ret (.history page) ∧
          page.items.map MessageWithMedia.id = [7] ∧
            Granted (atMoments (fun n => n) leavingReader leavingRun false)
              (.channelHistory 5 10 20 none) (.history page) := by
  obtain ⟨q, hq⟩ := Option.isSome_iff_exists.mp
    (show ((machine Bool fun n => n).run leavingReader leavingRun).isSome = true by
      decide +kernel)
  have hends := reads_authorized (t := false) (show leavingReader.prog false =
    (Request.channelHistory 5 10 20 none).program from rfl) rfl
    (fun τ k h => by obtain ⟨_, hhold⟩ := h; cases hhold) hq
  have hend : (q.world.state.db .channelMembers).committed (5, 10) = none ∧
      ∃ page : Page MessageWithMedia, q.prog false = .ret (.history page) ∧
        page.items.map MessageWithMedia.id = [7] := by
    cases hq
    exact ⟨rfl, _, rfl, rfl⟩
  obtain ⟨hgone, page, hret, hpage⟩ := hend
  exact ⟨q, hq, hgone, page, hret, hpage, hends.1 _ hret⟩

end Chatspace.ReadRoutes
