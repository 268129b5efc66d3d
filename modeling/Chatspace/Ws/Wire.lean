import Chatspace.Codec.JsonText
import Chatspace.Frontend.ConversationSocket
import Chatspace.Frontend.MyChannels
import Chatspace.Ws.Fanout

/-!
# From the published event to the client's stores

`services/message_events.py` and `services/channel_events.py` dump an envelope, the relay of every
instance loads it and sends it on as text, and the client parses it: `parseServerFrame`, and the
checks of `useConversationSocket` and `useChannelMembershipSocket`.  How a time is written is a
parameter.

* `payload`, `publishedText`, `handleText` — the server's side;
* `onText`, `onMembershipText` — the client's;
* `Event.frame`, `Event.change` — what an event is to the two hooks;
* `events_reach_the_stores` — **what a connection is sent makes of the client's stores what the
  events of its topics make of them, one after the other.**
-/

namespace Chatspace.Wire

open Codec Fanout Frontend Topics

/-! ### The envelopes -/

def idKey : Text := ['i', 'd']

def recipientIdKey : Text := ['r', 'e', 'c', 'i', 'p', 'i', 'e', 'n', 't', '_', 'i', 'd']

def senderIdKey : Text := ['s', 'e', 'n', 'd', 'e', 'r', '_', 'i', 'd']

def contentKey : Text := ['c', 'o', 'n', 't', 'e', 'n', 't']

def mediaKey : Text := ['m', 'e', 'd', 'i', 'a']

def createdAtKey : Text := ['c', 'r', 'e', 'a', 't', 'e', 'd', '_', 'a', 't']

def editedAtKey : Text := ['e', 'd', 'i', 't', 'e', 'd', '_', 'a', 't']

def deletedAtKey : Text := ['d', 'e', 'l', 'e', 't', 'e', 'd', '_', 'a', 't']

def mediaIdKey : Text := ['m', 'e', 'd', 'i', 'a', '_', 'i', 'd']

def filenameKey : Text := ['f', 'i', 'l', 'e', 'n', 'a', 'm', 'e']

def sizeKey : Text := ['s', 'i', 'z', 'e']

def channelKey : Text := ['c', 'h', 'a', 'n', 'n', 'e', 'l']

def nameKey : Text := ['n', 'a', 'm', 'e']

def isPrivateKey : Text := ['i', 's', '_', 'p', 'r', 'i', 'v', 'a', 't', 'e']

def createdByKey : Text := ['c', 'r', 'e', 'a', 't', 'e', 'd', '_', 'b', 'y']

def memberCountKey : Text := ['m', 'e', 'm', 'b', 'e', 'r', '_', 'c', 'o', 'u', 'n', 't']

def roleKey : Text := ['r', 'o', 'l', 'e']

def joinedAtKey : Text := ['j', 'o', 'i', 'n', 'e', 'd', '_', 'a', 't']

/-- `AttachmentKind.value`. -/
def kindValue : AttachmentKind → Text
  | .image => ['i', 'm', 'a', 'g', 'e']
  | .file => ['f', 'i', 'l', 'e']
  | .video => ['v', 'i', 'd', 'e', 'o']

/-- `ChannelMemberRole.value`. -/
def roleValue : ChannelMemberRole → Text
  | .member => ['m', 'e', 'm', 'b', 'e', 'r']
  | .admin => ['a', 'd', 'm', 'i', 'n']

/-- `str(id)`. -/
def idText (id : ℕ) : Text := (idOf id).str

/-- A string, or `None`. -/
def nullable : Option Text → Json
  | none => .null
  | some s => .string s

variable (iso : Time → Text)

def conversationFor : ConversationRef → Json
  | .channel channelId =>
    .object [(kindKey, .string channelKind), (channelIdKey, .string (idText channelId))]
  | .dm userId => .object [(kindKey, .string dmKind), (userIdKey, .string (idText userId))]

def mediaPayload (media : List (AttachmentId × Attachment)) : Json :=
  .array (media.map fun attachment => .object [
    (mediaIdKey, .string (idText attachment.1)),
    (kindKey, .string (kindValue attachment.2.kind)),
    (filenameKey, .string attachment.2.filename),
    (sizeKey, .nat attachment.2.byteSize)])

/-- `message.channel_id`. -/
def channelIdOf (message : Chatspace.Message) : Option Text :=
  match message.target with
  | .channel channelId => some (idText channelId)
  | .dm _ => none

/-- `message.recipient_id`. -/
def recipientIdOf (message : Chatspace.Message) : Option Text :=
  match message.target with
  | .channel _ => none
  | .dm recipientId => some (idText recipientId)

def fullData (id : MessageId) (message : Chatspace.Message)
    (media : List (AttachmentId × Attachment)) : Json :=
  .object [
    (idKey, .string (idText id)),
    (channelIdKey, nullable (channelIdOf message)),
    (recipientIdKey, nullable (recipientIdOf message)),
    (senderIdKey, .string (idText message.senderId)),
    (contentKey, .string message.content),
    (mediaKey, mediaPayload media),
    (createdAtKey, .string (iso message.createdAt)),
    (editedAtKey, nullable (message.editedAt.map iso)),
    (deletedAtKey, nullable (message.deletedAt.map iso))]

/-- The envelope of every event. -/
def envelope (type : Text) (conversation data : Json) : Json :=
  .object [(typeKey, .string type), (conversationKey, conversation), (dataKey, data)]

def buildCreatedEvent (conversation : ConversationRef) (id : MessageId)
    (message : Chatspace.Message) (media : List (AttachmentId × Attachment)) : Json :=
  envelope messageCreatedType (conversationFor conversation) (fullData iso id message media)

def buildEditedEvent (conversation : ConversationRef) (id : MessageId)
    (message : Chatspace.Message) (media : List (AttachmentId × Attachment)) : Json :=
  envelope messageEditedType (conversationFor conversation) (fullData iso id message media)

def buildDeletedEvent (conversation : ConversationRef) (id : MessageId) (deletedAt : Option Time) :
    Json :=
  envelope messageDeletedType (conversationFor conversation) (.object [
    (idKey, .string (idText id)),
    (conversationKey, conversationFor conversation),
    (deletedAtKey, nullable (deletedAt.map iso))])

def channelSummary (channelId : ChannelId) (channel : Channel) (memberCount : ℕ) : Json :=
  .object [
    (idKey, .string (idText channelId)),
    (nameKey, .string channel.name),
    (isPrivateKey, .bool channel.isPrivate),
    (createdByKey, .string (idText channel.createdBy)),
    (createdAtKey, .string (iso channel.createdAt)),
    (memberCountKey, .nat memberCount)]

def buildMemberAddedEvent (channelId : ChannelId) (channel : Channel) (userId : UserId)
    (role : ChannelMemberRole) (joinedAt : Time) (memberCount : ℕ) : Json :=
  envelope memberAddedType (conversationFor (.channel channelId)) (.object [
    (channelKey, channelSummary iso channelId channel memberCount),
    (userIdKey, .string (idText userId)),
    (roleKey, .string (roleValue role)),
    (joinedAtKey, .string (iso joinedAt))])

def buildMemberRemovedEvent (channelId : ChannelId) (userId : UserId) : Json :=
  envelope memberRemovedType (conversationFor (.channel channelId)) (.object [
    (channelIdKey, .string (idText channelId)), (userIdKey, .string (idText userId))])

def payload : Event → Json
  | .messageCreated conversation id message media =>
    buildCreatedEvent iso conversation id message media
  | .messageEdited conversation id message media =>
    buildEditedEvent iso conversation id message media
  | .messageDeleted conversation id deletedAt => buildDeletedEvent iso conversation id deletedAt
  | .memberAdded channelId channel userId role joinedAt memberCount =>
    buildMemberAddedEvent iso channelId channel userId role joinedAt memberCount
  | .memberRemoved channelId userId => buildMemberRemovedEvent channelId userId

/-- `json.dumps(event)`. -/
def publishedText (event : Event) : Text := (payload iso event).dumps .default

/-! ### The relay -/

/-- `_handle_message` of a text, which goes out as `send_json` writes it. -/
def handleText (manager : ConnectionManager) (sends : Uuid → Bool) (topic rawData : Text) :
    List (Uuid × Text) :=
  match parse rawData with
  | none => []
  | some payload =>
    (handleMessage manager sends topic payload).map fun d => (d.1, d.2.dumps .compact)

/-- What a connection is sent. -/
def textsFor (connectionId : Uuid) (deliveries : List (Uuid × Text)) : List Text :=
  (deliveries.filter fun d => d.1 = connectionId).map Prod.snd

/-- What a connection is sent of the published events. -/
def textsSent (manager : ConnectionManager) (sends : Uuid → Bool) (connectionId : Uuid)
    (published : List (Topic × Event)) : List Text :=
  published.flatMap fun p =>
    textsFor connectionId (handleText manager sends (nameOf p.1) (publishedText iso p.2))

/-! ### The client -/

/-- `typeof value === 'object' && value !== null`. -/
def isJsObject : Json → Bool
  | .array _ | .object _ => true
  | _ => false

def isJsString (value : Option Json) : Bool := (value.bind Json.string?).isSome

/-- A field of a value that may be `undefined`. -/
def fieldOf (value : Option Json) (name : Text) : Option Json := value.bind (Json.field? · name)

def stringOf (value : Json) (name : Text) : Option Text := (value.field? name).bind Json.string?

/-- A string, or `null`. -/
def nullableOf (value : Json) (name : Text) : Option (Option Text) :=
  match value.field? name with
  | some .null => some none
  | some (.string s) => some (some s)
  | _ => none

/-- A natural number up to `Number.MAX_SAFE_INTEGER`, which is the number that is read. -/
def safeInteger (value : Json) : Option ℕ := value.nat?.filter fun n => n < 2 ^ 53

def parseServerFrame (raw : Json) : Option Json :=
  if isJsString (raw.field? typeKey) then some raw else none

def isMessagePayload (data : Option Json) : Bool := isJsString (fieldOf data idKey)

def isDeletedPayload (data : Option Json) : Bool :=
  isJsString (fieldOf data idKey) && isJsString (fieldOf data deletedAtKey) &&
    (fieldOf data conversationKey).any isJsObject

def targetOf (value : Json) : Option ConversationTarget :=
  match stringOf value kindKey with
  | none => none
  | some kind =>
    if kind = channelKind then (stringOf value channelIdKey).map .channel
    else if kind = dmKind then (stringOf value userIdKey).map .dm
    else none

def mediaOf (value : Json) : Option MessageMedia := do
  let mediaId ← stringOf value mediaIdKey
  let kind ← stringOf value kindKey
  let filename ← stringOf value filenameKey
  let size ← (value.field? sizeKey).bind safeInteger
  return ⟨mediaId, kind, filename, size⟩

/-- The objects of an array. -/
def mediaListOf : Option Json → Option (List MessageMedia)
  | some (.array items) => items.mapM mediaOf
  | _ => none

/-- A `Message`, where the value has the fields of one. -/
def messageOf (value : Json) : Option Frontend.Message := do
  let id ← stringOf value idKey
  let channelId ← nullableOf value channelIdKey
  let recipientId ← nullableOf value recipientIdKey
  let senderId ← stringOf value senderIdKey
  let content ← stringOf value contentKey
  let media ← mediaListOf (value.field? mediaKey)
  let createdAt ← stringOf value createdAtKey
  let editedAt ← nullableOf value editedAtKey
  let deletedAt ← nullableOf value deletedAtKey
  return ⟨id, channelId, recipientId, senderId, content, media, createdAt, editedAt, deletedAt⟩

def deletedOf (value : Json) : Option MessageDeletedPayload := do
  let id ← stringOf value idKey
  let conversation ← (value.field? conversationKey).bind targetOf
  let deletedAt ← stringOf value deletedAtKey
  return ⟨id, conversation, deletedAt⟩

/-- What `applyFrame` of the conversation hook acts on; `none` where its check lets pass what is not
of the type it is cast to. -/
def conversationFrame (frame : Json) : Option ServerFrame :=
  let type := stringOf frame typeKey
  let data := frame.field? dataKey
  if type = some messageCreatedType ∨ type = some messageEditedType then
    if isMessagePayload data then
      (data.bind messageOf).map
        (if type = some messageCreatedType then .messageCreated else .messageEdited)
    else some .other
  else if type = some messageDeletedType then
    if isDeletedPayload data then (data.bind deletedOf).map .messageDeleted else some .other
  else some .other

/-- The channel of `isMemberAddedPayload`, with its role. -/
def summaryOf (data : Json) : Option MyChannels.MyChannelSummary := do
  let _ ← stringOf data userIdKey
  let role ← stringOf data roleKey
  let _ ← stringOf data joinedAtKey
  let channel ← data.field? channelKey
  let id ← stringOf channel idKey
  let name ← stringOf channel nameKey
  let isPrivate ← match channel.field? isPrivateKey with
    | some (.bool b) => some b
    | _ => none
  let createdBy ← stringOf channel createdByKey
  let createdAt ← stringOf channel createdAtKey
  let memberCount ← (channel.field? memberCountKey).bind safeInteger
  return ⟨id, name, isPrivate, createdBy, createdAt, memberCount, role⟩

/-- What `applyFrame` of the membership hook does, to a member count that is a safe integer. -/
def membershipChange (frame : Json) : Option (MyChannels.Event MyChannels.MyChannelSummary) :=
  let type := stringOf frame typeKey
  let data := frame.field? dataKey
  if type = some memberAddedType then (data.bind summaryOf).map .upsertChannel
  else if type = some memberRemovedType then
    data.bind fun data => (stringOf data userIdKey).bind fun _ =>
      (stringOf data channelIdKey).map .removeChannel
  else none

/-- `handleMessage` of the socket of the conversation hook. -/
def onText (s : ConversationSocket.State) (text : Text) : Option ConversationSocket.State :=
  match (parse text).bind parseServerFrame with
  | none => some s
  | some frame => (conversationFrame frame).map s.applyFrame

/-- A change of the store, where there is one. -/
def change (s : MyChannels.State MyChannels.MyChannelSummary) :
    Option (MyChannels.Event MyChannels.MyChannelSummary) →
      Option (MyChannels.State MyChannels.MyChannelSummary)
  | none => some s
  | some event => MyChannels.step MyChannels.MyChannelSummary.id s event

/-- `handleMessage` of the socket of the membership hook. -/
def onMembershipText (s : MyChannels.State MyChannels.MyChannelSummary) (text : Text) :
    Option (MyChannels.State MyChannels.MyChannelSummary) :=
  match (parse text).bind parseServerFrame with
  | none => some s
  | some frame => change s (membershipChange frame)

/-! ### What an event is to the client -/

def messageObject (id : MessageId) (message : Chatspace.Message)
    (media : List (AttachmentId × Attachment)) : Frontend.Message where
  id := idText id
  channelId := channelIdOf message
  recipientId := recipientIdOf message
  senderId := idText message.senderId
  content := message.content
  media := media.map fun a => ⟨idText a.1, kindValue a.2.kind, a.2.filename, a.2.byteSize⟩
  createdAt := iso message.createdAt
  editedAt := message.editedAt.map iso
  deletedAt := message.deletedAt.map iso

def target : ConversationRef → ConversationTarget
  | .channel channelId => .channel (idText channelId)
  | .dm userId => .dm (idText userId)

/-- To the conversation hook; a deletion without its time is none. -/
def frameOf : Event → ServerFrame
  | .messageCreated _ id message media => .messageCreated (messageObject iso id message media)
  | .messageEdited _ id message media => .messageEdited (messageObject iso id message media)
  | .messageDeleted conversation id (some deletedAt) =>
    .messageDeleted ⟨idText id, target conversation, iso deletedAt⟩
  | .messageDeleted _ _ none | .memberAdded .. | .memberRemoved .. => .other

/-- To the membership hook. -/
def changeOf : Event → Option (MyChannels.Event MyChannels.MyChannelSummary)
  | .memberAdded channelId channel _ role _ memberCount =>
    some (.upsertChannel ⟨idText channelId, channel.name, channel.isPrivate,
      idText channel.createdBy, iso channel.createdAt, memberCount, roleValue role⟩)
  | .memberRemoved channelId _ => some (.removeChannel (idText channelId))
  | _ => none

/-- Its numbers are numbers on the client. -/
def Safe : Event → Prop
  | .messageCreated _ _ _ media | .messageEdited _ _ _ media =>
    ∀ a ∈ media, a.2.byteSize < 2 ^ 53
  | .memberAdded _ _ _ _ _ memberCount => memberCount < 2 ^ 53
  | _ => True

/-! ### The texts are read back -/

variable {iso} {event : Event}

theorem valid_nullable (x : Option Text) : (nullable x).Valid := by cases x <;> trivial

theorem valid_conversationFor (conversation : ConversationRef) :
    (conversationFor conversation).Valid := by
  cases conversation with
  | channel channelId =>
    exact ⟨(by decide : [kindKey, channelIdKey].Nodup), trivial, trivial, trivial⟩
  | dm userId => exact ⟨(by decide : [kindKey, userIdKey].Nodup), trivial, trivial, trivial⟩

theorem valid_mediaPayload (media : List (AttachmentId × Attachment)) :
    (mediaPayload media).Valid := by
  induction media with
  | nil => trivial
  | cons a media ih =>
    exact ⟨⟨(by decide : [mediaIdKey, kindKey, filenameKey, sizeKey].Nodup), trivial, trivial,
      trivial, Json.valid_nat _, trivial⟩, ih⟩

theorem valid_fullData (id : MessageId) (message : Chatspace.Message)
    (media : List (AttachmentId × Attachment)) : (fullData iso id message media).Valid :=
  ⟨(by decide : [idKey, channelIdKey, recipientIdKey, senderIdKey, contentKey, mediaKey,
    createdAtKey, editedAtKey, deletedAtKey].Nodup), trivial, valid_nullable _, valid_nullable _,
    trivial, trivial, valid_mediaPayload media, trivial, valid_nullable _, valid_nullable _, trivial⟩

theorem valid_envelope {type : Text} {conversation data : Json} (hc : conversation.Valid)
    (hd : data.Valid) : (envelope type conversation data).Valid :=
  ⟨(by decide : [typeKey, conversationKey, dataKey].Nodup), trivial, hc, hd, trivial⟩

theorem valid_payload (event : Event) : (payload iso event).Valid := by
  cases event with
  | messageCreated conversation id message media =>
    exact valid_envelope (valid_conversationFor _) (valid_fullData ..)
  | messageEdited conversation id message media =>
    exact valid_envelope (valid_conversationFor _) (valid_fullData ..)
  | messageDeleted conversation id deletedAt =>
    exact valid_envelope (valid_conversationFor _)
      ⟨(by decide : [idKey, conversationKey, deletedAtKey].Nodup), trivial,
        valid_conversationFor _, valid_nullable _, trivial⟩
  | memberAdded channelId channel userId role joinedAt memberCount =>
    refine valid_envelope (valid_conversationFor _)
      ⟨(by decide : [channelKey, userIdKey, roleKey, joinedAtKey].Nodup), ?_, trivial, trivial,
        trivial, trivial⟩
    exact ⟨(by decide : [idKey, nameKey, isPrivateKey, createdByKey, createdAtKey,
      memberCountKey].Nodup), trivial, trivial, trivial, trivial, trivial, Json.valid_nat _,
      trivial⟩
  | memberRemoved channelId userId =>
    exact valid_envelope (valid_conversationFor _)
      ⟨(by decide : [channelIdKey, userIdKey].Nodup), trivial, trivial, trivial⟩

/-- The relay loads what was dumped, and the client parses what the relay sends. -/
theorem parse_publishedText (event : Event) : parse (publishedText iso event) = some (payload iso event) :=
  parse_dumps (valid_payload event)

/-! ### What the client reads -/

theorem nullableOf_nullable {value : Json} {name : Text} {x : Option Text}
    (h : value.field? name = some (nullable x)) : nullableOf value name = some x := by
  rw [nullableOf, h]
  cases x <;> rfl

theorem safeInteger_nat {n : ℕ} (h : n < 2 ^ 53) : safeInteger (.nat n) = some n := by
  rw [safeInteger, Json.nat?_nat, Option.filter_some, decide_eq_true h]
  rfl

theorem mediaListOf_payload {media : List (AttachmentId × Attachment)}
    (h : ∀ a ∈ media, a.2.byteSize < 2 ^ 53) :
    mediaListOf (some (mediaPayload media)) =
      some (media.map fun a => ⟨idText a.1, kindValue a.2.kind, a.2.filename, a.2.byteSize⟩) := by
  show (media.map _).mapM mediaOf = _
  induction media with
  | nil => rfl
  | cons a media ih =>
    rw [List.map_cons, List.mapM_cons, ih fun b hb => h b (List.mem_cons_of_mem a hb)]
    have hmedia : mediaOf (.object [
        (mediaIdKey, .string (idText a.1)), (kindKey, .string (kindValue a.2.kind)),
        (filenameKey, .string a.2.filename), (sizeKey, .nat a.2.byteSize)]) =
        some ⟨idText a.1, kindValue a.2.kind, a.2.filename, a.2.byteSize⟩ := by
      show (safeInteger (.nat a.2.byteSize)).bind _ = _
      rw [safeInteger_nat (h a List.mem_cons_self)]
      rfl
    rw [hmedia]
    rfl

theorem messageOf_fullData (id : MessageId) (message : Chatspace.Message)
    {media : List (AttachmentId × Attachment)} (h : ∀ a ∈ media, a.2.byteSize < 2 ^ 53) :
    messageOf (fullData iso id message media) = some (messageObject iso id message media) := by
  have hchannel : nullableOf (fullData iso id message media) channelIdKey =
      some (channelIdOf message) := nullableOf_nullable rfl
  have hrecipient : nullableOf (fullData iso id message media) recipientIdKey =
      some (recipientIdOf message) := nullableOf_nullable rfl
  have hmedia : mediaListOf ((fullData iso id message media).field? mediaKey) =
      some (messageObject iso id message media).media := mediaListOf_payload h
  have hedited : nullableOf (fullData iso id message media) editedAtKey =
      some (message.editedAt.map iso) := nullableOf_nullable rfl
  have hdeleted : nullableOf (fullData iso id message media) deletedAtKey =
      some (message.deletedAt.map iso) := nullableOf_nullable rfl
  rw [messageOf, hchannel, hrecipient, hmedia, hedited, hdeleted]
  rfl

/-- **To the conversation hook an event is its frame.** -/
theorem conversationFrame_payload (h : Safe event) :
    conversationFrame (payload iso event) = some (frameOf iso event) := by
  cases event with
  | messageCreated conversation id message media =>
    show (messageOf (fullData iso id message media)).map _ = _
    rw [messageOf_fullData id message h]
    rfl
  | messageEdited conversation id message media =>
    show (messageOf (fullData iso id message media)).map _ = _
    rw [messageOf_fullData id message h]
    rfl
  | messageDeleted conversation id deletedAt =>
    cases deletedAt with
    | none => rfl
    | some deletedAt => cases conversation <;> rfl
  | memberAdded channelId channel userId role joinedAt memberCount => rfl
  | memberRemoved channelId userId => rfl

/-- **To the membership hook it is its change of the list,** or nothing. -/
theorem membershipChange_payload (h : Safe event) :
    membershipChange (payload iso event) = changeOf iso event := by
  cases event with
  | memberAdded channelId channel userId role joinedAt memberCount =>
    have hcount : summaryOf (.object [
        (channelKey, channelSummary iso channelId channel memberCount),
        (userIdKey, .string (idText userId)), (roleKey, .string (roleValue role)),
        (joinedAtKey, .string (iso joinedAt))]) =
        some ⟨idText channelId, channel.name, channel.isPrivate, idText channel.createdBy,
          iso channel.createdAt, memberCount, roleValue role⟩ := by
      show (safeInteger (.nat memberCount)).bind _ = _
      rw [safeInteger_nat h]
      rfl
    show (summaryOf _).map _ = _
    rw [hcount]
    rfl
  | messageCreated conversation id message media => rfl
  | messageEdited conversation id message media => rfl
  | messageDeleted conversation id deletedAt => rfl
  | memberRemoved channelId userId => rfl

theorem parse_sent (event : Event) :
    (parse ((payload iso event).dumps .compact)).bind parseServerFrame =
      some (payload iso event) := by
  rw [parse_dumps (valid_payload event)]
  cases event <;> rfl

theorem onText_sent (h : Safe event) (s : ConversationSocket.State) :
    onText s ((payload iso event).dumps .compact) = some (s.applyFrame (frameOf iso event)) := by
  rw [onText, parse_sent]
  show (conversationFrame (payload iso event)).map s.applyFrame = _
  rw [conversationFrame_payload h]
  rfl

theorem onMembershipText_sent (h : Safe event)
    (s : MyChannels.State MyChannels.MyChannelSummary) :
    onMembershipText s ((payload iso event).dumps .compact) = change s (changeOf iso event) := by
  rw [onMembershipText, parse_sent]
  show change s (membershipChange (payload iso event)) = _
  rw [membershipChange_payload h]

/-! ### What is sent -/

section Sent

variable {manager : ConnectionManager} {sends : Uuid → Bool} {state : ConnectionState}

theorem textsFor_map (connectionId : Uuid) (deliveries : List (Uuid × Json)) :
    textsFor connectionId (deliveries.map fun d => (d.1, d.2.dumps .compact)) =
      (framesFor connectionId deliveries).map (Json.dumps .compact) := by
  rw [textsFor, framesFor, List.filter_map, List.map_map, List.map_map]
  rfl

theorem typingTyperId_payload (event : Event) : typingTyperId (payload iso event) = none := by
  cases event <;> rfl

/-- An event is sent once to every connection that is subscribed to its topic, its sender's
too. -/
theorem textsFor_handleText (hmem : state ∈ manager.connections) (hconnected : state.connected = true)
    (hsends : sends state.connectionId = true) (topic : Topic) (event : Event) :
    textsFor state.connectionId (handleText manager sends (nameOf topic) (publishedText iso event)) =
      if nameOf topic ∈ state.subscribedTopics then [(payload iso event).dumps .compact] else [] := by
  have hreach : Reaches sends (nameOf topic) (payload iso event) state ↔
      nameOf topic ∈ state.subscribedTopics := by
    refine ⟨fun h => h.2.1, fun h => ⟨by cases event <;> rfl, h, ?_, hconnected, hsends⟩⟩
    rw [typingTyperId_payload]
    exact (Option.some_ne_none _).symm
  rw [handleText, parse_publishedText]
  show textsFor _ (List.map _ _) = _
  rw [textsFor_map, framesFor_handleMessage hmem]
  simp only [hreach]
  split <;> rfl

/-- The events of the topics that a connection is subscribed to. -/
def seenBy (state : ConnectionState) (published : List (Topic × Event)) : List Event :=
  (published.filter fun p => nameOf p.1 ∈ state.subscribedTopics).map Prod.snd

theorem textsSent_eq (hmem : state ∈ manager.connections) (hconnected : state.connected = true)
    (hsends : sends state.connectionId = true) (published : List (Topic × Event)) :
    textsSent iso manager sends state.connectionId published =
      (seenBy state published).map fun event => (payload iso event).dumps .compact := by
  induction published with
  | nil => rfl
  | cons p published ih =>
    have hcons : textsSent iso manager sends state.connectionId (p :: published) =
        textsFor state.connectionId (handleText manager sends (nameOf p.1) (publishedText iso p.2)) ++
          textsSent iso manager sends state.connectionId published := List.flatMap_cons
    rw [hcons, ih, textsFor_handleText hmem hconnected hsends, seenBy, seenBy, List.filter_cons]
    by_cases htopic : nameOf p.1 ∈ state.subscribedTopics
    · simp only [htopic, if_true, decide_true, List.map_cons, List.singleton_append]
    · simp only [htopic, if_false, decide_false, Bool.false_eq_true, List.nil_append]

/-- **The wire loses nothing.** Of any events, published in any order to any topics, a connected
client is sent those of its topics, as text, and parsing them makes of the message map and of the
channel list what the events themselves make of them, in that order. -/
theorem events_reach_the_stores (hmem : state ∈ manager.connections)
    (hconnected : state.connected = true) (hsends : sends state.connectionId = true)
    {published : List (Topic × Event)} (hsafe : ∀ p ∈ published, Safe p.2)
    (s : ConversationSocket.State) (c : MyChannels.State MyChannels.MyChannelSummary) :
    (textsSent iso manager sends state.connectionId published).foldlM onText s =
        some (((seenBy state published).map (frameOf iso)).foldl ConversationSocket.State.applyFrame s) ∧
      (textsSent iso manager sends state.connectionId published).foldlM onMembershipText c =
        ((seenBy state published).map (changeOf iso)).foldlM change c := by
  have hseen : ∀ event ∈ seenBy state published, Safe event := by
    intro event hevent
    obtain ⟨p, hp, rfl⟩ := List.mem_map.mp hevent
    exact hsafe p (List.mem_of_mem_filter hp)
  rw [textsSent_eq hmem hconnected hsends]
  generalize seenBy state published = events at hseen
  constructor
  · induction events generalizing s with
    | nil => rfl
    | cons event events ih =>
      rw [List.map_cons, List.foldlM_cons, onText_sent (hseen event List.mem_cons_self)]
      exact ih _ fun e he => hseen e (List.mem_cons_of_mem event he)
  · induction events generalizing c with
    | nil => rfl
    | cons event events ih =>
      rw [List.map_cons, List.foldlM_cons, List.map_cons, List.foldlM_cons,
        onMembershipText_sent (hseen event List.mem_cons_self)]
      congr 1
      funext c'
      exact ih c' fun e he => hseen e (List.mem_cons_of_mem event he)

end Sent

/-- A tab that has joined a channel. -/
def oneTab : ConnectionState := ⟨1, 10, [nameOf (.user 10), nameOf (.chan 5)], true⟩

def oneInstance : ConnectionManager := ⟨[oneTab], List.nodup_singleton _⟩

/-- A message with an attachment to the channel, one to another channel, and a removal. -/
def threeEvents : List (Topic × Event) :=
  [(.chan 5, .messageCreated (.channel 5) 7 ⟨.channel 5, 11, ['"', '😀', '\n'], 3, none, none⟩
      [(8, ⟨some 7, 11, .file, ['t'], ['a'], 120, 2⟩)]),
    (.chan 6, .messageCreated (.channel 6) 9 ⟨.channel 6, 11, ['x'], 4, none, none⟩ []),
    (.user 10, .memberRemoved 6 10)]

theorem events_reach_the_stores_three : ∃ s,
    (textsSent (fun _ => []) oneInstance (fun _ => true) 1 threeEvents).foldlM onText
      ConversationSocket.opened = some s ∧
        s.messages.map (fun m => (m.content, m.media.map MessageMedia.size)) =
          [(['"', '😀', '\n'], [120])] := by
  have hsafe : ∀ p ∈ threeEvents, Safe p.2 := by
    intro p hp
    simp only [threeEvents, List.mem_cons, List.not_mem_nil, or_false] at hp
    rcases hp with rfl | rfl | rfl
    · intro a ha
      obtain rfl := List.mem_singleton.mp ha
      decide
    · exact nofun
    · trivial
  have hstores := @events_reach_the_stores (fun _ => []) oneInstance (fun _ => true) oneTab
    List.mem_cons_self rfl rfl threeEvents hsafe ConversationSocket.opened MyChannels.initialState
  refine ⟨_, hstores.1, ?_⟩
  decide +kernel

end Chatspace.Wire
