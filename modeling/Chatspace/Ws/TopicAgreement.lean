import Chatspace.Core.Uuid
import Chatspace.Ws.Router
import Mathlib.Data.Sym.Sym2

/-!
# Which topic a conversation has

The topic is computed where a message is published, where a connection joins and where it leaves;
the history query and its index compute the pair of users of a direct message.

* `channelTopic`, `dmTopic`, `userTopic`, `presenceTopic` — `core/redis_keys.py`;
* `dmPair`, `pgLeast`, `pgGreatest` — the pair of the history query and of the index;
* `Message.topicFor`, `authorizeConversation`, `topicFor` — publish, join and leave;
* `Identity` — what a conversation is: a channel, or an unordered pair of users;
* `nameOf` — the topics of the endpoint's model as these strings;
* `topic_agreement` — **topics name conversations, from either side, and nothing else.**
-/

namespace Chatspace.Topics

open Messages (dmPair)

/-! ### The topics -/

def channelTopic (channelId : Uuid) : Text := ['c', 'h', 'a', 'n', ':'] ++ channelId.str

def dmTopic (userAId userBId : Uuid) : Text :=
  let first := userAId.str
  let second := userBId.str
  let pair := if first ≤ second then (first, second) else (second, first)
  ['d', 'm', ':'] ++ (pair.1 ++ ':' :: pair.2)

def userTopic (userId : Uuid) : Text := ['u', 's', 'e', 'r', ':'] ++ userId.str

def presenceTopic (userId : Uuid) : Text :=
  ['p', 'r', 'e', 's', 'e', 'n', 'c', 'e', ':'] ++ userId.str

/-! ### The pair of users -/

/-- PostgreSQL's `least` on `uuid`. -/
def pgLeast (a b : Uuid) : Uuid := if a.bytes ≤ b.bytes then a else b

/-- PostgreSQL's `greatest` on `uuid`. -/
def pgGreatest (a b : Uuid) : Uuid := if a.bytes ≤ b.bytes then b else a

/-! ### Messages -/

abbrev Message : Type := MessageOf Uuid

/-- The topic the events of a message are published on. -/
def Message.topicFor (message : Message) : Text :=
  match message.target with
  | .channel channelId => channelTopic channelId
  | .dm recipientId => dmTopic message.senderId recipientId

/-- The condition of `get_channel_message_history`. -/
def Message.inChannelHistory (message : Message) (channelId : Uuid) : Prop :=
  message.target = .channel channelId

/-- The condition of `get_dm_message_history`. -/
def Message.inDmHistory (message : Message) (callerId otherUserId : Uuid) : Prop :=
  match message.target with
  | .channel _ => False
  | .dm recipientId =>
    pgLeast message.senderId recipientId = (dmPair callerId otherUserId).1 ∧
      pgGreatest message.senderId recipientId = (dmPair callerId otherUserId).2

/-! ### Joins and leaves -/

abbrev Conversation : Type := ConversationOf Uuid

/-- What the check reads: memberships, and who exists and is active. -/
structure Db where
  isMember : Uuid → Uuid → Bool
  isActive : Uuid → Option Bool

/-- `_authorize_dm`. -/
def authorizeDm (db : Db) (userId callerId : Uuid) : Ws.ConversationAuthResult Text :=
  if userId = callerId then
    .error ("invalid_conversation", "Cannot open a DM conversation with yourself.")
  else
    match db.isActive userId with
    | some true => .ok (dmTopic callerId userId)
    | _ => .error ("unauthorized_join", "DM recipient does not exist or is inactive.")

def authorizeConversation (db : Db) (conversation : Conversation) (callerId : Uuid) :
    Ws.ConversationAuthResult Text :=
  match conversation with
  | .channel channelId =>
    if db.isMember channelId callerId then .ok (channelTopic channelId)
    else .error ("unauthorized_join", "Not a member of this channel.")
  | .dm userId => authorizeDm db userId callerId

/-- The topic a `leave` frame names. -/
def topicFor (conversation : Conversation) (callerId : Uuid) : Text :=
  match conversation with
  | .channel channelId => channelTopic channelId
  | .dm userId => dmTopic callerId userId

/-! ### What a conversation is -/

/-- A channel, or two users without an order. -/
inductive Identity where
  | channel (channelId : Uuid)
  | dm (users : Sym2 Uuid)

def Message.identity (message : Message) : Identity :=
  match message.target with
  | .channel channelId => .channel channelId
  | .dm recipientId => .dm s(message.senderId, recipientId)

/-- The conversation that a caller names. -/
def Conversation.identity (conversation : Conversation) (callerId : Uuid) : Identity :=
  match conversation with
  | .channel channelId => .channel channelId
  | .dm userId => .dm s(callerId, userId)

/-! ### The orders agree -/

variable {a b c d u v : Uuid}

/-- The topic of two users names them in the order of their pair. -/
theorem dmTopic_eq (a b : Uuid) :
    dmTopic a b = ['d', 'm', ':'] ++ ((dmPair a b).1.str ++ ':' :: (dmPair a b).2.str) := by
  unfold dmTopic dmPair
  simp only [Uuid.str_le_iff]
  split <;> rfl

theorem dmPair_eq_pg (a b : Uuid) : dmPair a b = (pgLeast a b, pgGreatest a b) := by
  unfold dmPair pgLeast pgGreatest
  simp only [Uuid.bytes_le_iff]
  split <;> rfl

theorem dmPair_comm (a b : Uuid) : dmPair a b = dmPair b a := by
  unfold dmPair
  split
  · rename_i hab
    split
    · rename_i hba
      rw [le_antisymm hab hba]
    · rfl
  · rename_i hab
    rw [if_pos (le_of_not_ge hab)]

/-- The pair keeps both users. -/
theorem mk_dmPair (a b : Uuid) : s((dmPair a b).1, (dmPair a b).2) = s(a, b) := by
  unfold dmPair
  split
  · rfl
  · exact Sym2.eq_swap

theorem dmPair_eq_iff : dmPair a b = dmPair c d ↔ s(a, b) = s(c, d) := by
  constructor
  · intro h
    rw [← mk_dmPair a b, ← mk_dmPair c d, h]
  · intro h
    rcases Sym2.eq_iff.mp h with ⟨rfl, rfl⟩ | ⟨rfl, rfl⟩
    · rfl
    · exact dmPair_comm a b

/-! ### Topics tell conversations apart -/

theorem channelTopic_inj : channelTopic c = channelTopic d ↔ c = d := by
  unfold channelTopic
  rw [List.append_cancel_left_eq]
  exact Uuid.str_injective.eq_iff

theorem dmTopic_inj : dmTopic a b = dmTopic c d ↔ s(a, b) = s(c, d) := by
  rw [dmTopic_eq, dmTopic_eq, List.append_cancel_left_eq, ← dmPair_eq_iff]
  constructor
  · intro h
    -- both first halves have 36 characters
    have hlen : (dmPair a b).1.str.length = (dmPair c d).1.str.length := by
      rw [Uuid.length_str, Uuid.length_str]
    obtain ⟨hfirst, hsecond⟩ := List.append_inj h hlen
    rw [List.cons.injEq] at hsecond
    exact Prod.ext (Uuid.str_injective hfirst) (Uuid.str_injective hsecond.2)
  · intro h
    rw [h]

theorem channelTopic_ne_dmTopic : channelTopic c ≠ dmTopic a b := by
  simp [channelTopic, dmTopic]

/-- **The topic of a conversation that a caller names is that of the message just if they are the
same conversation.** -/
theorem topicFor_eq_iff (message : Message) (conversation : Conversation) (callerId : Uuid) :
    topicFor conversation callerId = message.topicFor ↔
      conversation.identity callerId = message.identity := by
  unfold topicFor Message.topicFor Conversation.identity Message.identity
  cases conversation with
  | channel channelId =>
    cases message.target with
    | channel channelId' => simp [channelTopic_inj]
    | dm recipientId => simp [channelTopic_ne_dmTopic]
  | dm userId =>
    cases message.target with
    | channel channelId' => simp [channelTopic_ne_dmTopic.symm]
    | dm recipientId => simp only [dmTopic_inj, Identity.dm.injEq]

/-- A join subscribes to the topic that its leave removes. -/
theorem topicFor_of_authorized {db : Db} {conversation : Conversation} {callerId : Uuid}
    {topic : Text} (h : authorizeConversation db conversation callerId = .ok topic) :
    topic = topicFor conversation callerId := by
  cases conversation with
  | channel channelId =>
    simp only [authorizeConversation] at h
    split at h <;> cases h
    rfl
  | dm userId =>
    simp only [authorizeConversation, authorizeDm] at h
    split at h
    · cases h
    · split at h <;> cases h
      rfl

theorem userTopic_ne (message : Message) : userTopic u ≠ message.topicFor := by
  unfold Message.topicFor
  split <;> simp [userTopic, channelTopic, dmTopic]

theorem presenceTopic_ne (message : Message) : presenceTopic u ≠ message.topicFor := by
  unfold Message.topicFor
  split <;> simp [presenceTopic, channelTopic, dmTopic]

/-- The history of a conversation holds the messages of the conversation. -/
theorem inDmHistory_iff (message : Message) (callerId otherUserId : Uuid) :
    message.inDmHistory callerId otherUserId ↔ message.identity = .dm s(callerId, otherUserId) := by
  unfold Message.inDmHistory Message.identity
  cases message.target with
  | channel channelId => simp
  | dm recipientId =>
    have hpair := dmPair_eq_pg message.senderId recipientId
    simp only [Identity.dm.injEq, ← dmPair_eq_iff, hpair, Prod.ext_iff]

theorem inChannelHistory_iff (message : Message) (channelId : Uuid) :
    message.inChannelHistory channelId ↔ message.identity = .channel channelId := by
  unfold Message.inChannelHistory Message.identity
  cases message.target <;> simp

/-! ### The endpoint's topics -/

/-- The id of a model in which ids are numbers. -/
def idOf (n : ℕ) : Uuid := Fin.ofNat _ n

@[simp] theorem idOf_val (u : Uuid) : idOf u.val = u := Fin.ofNat_val_eq_self u

/-- The string of a topic of the endpoint's model. -/
def nameOf : Topic → Text
  | .chan channelId => channelTopic (idOf channelId)
  | .dm least greatest => dmTopic (idOf least) (idOf greatest)
  | .user userId => userTopic (idOf userId)

/-- **Topic agreement.** `dm_topic` is symmetric, different for different pairs, and ordered as
`_dm_pair` and as the index; an authorised join subscribes to the topic of a message, and a leave
removes it, just if they name the conversation of the message, whichever participant asks; no
per-user and no presence topic is one; and the history pages of a conversation hold its
messages. -/
theorem topic_agreement :
    (∀ a b, dmTopic a b = dmTopic b a) ∧
    (∀ a b c d, dmTopic a b = dmTopic c d ↔ s(a, b) = s(c, d)) ∧
    (∀ a b, dmTopic a b =
      ['d', 'm', ':'] ++ ((dmPair a b).1.str ++ ':' :: (dmPair a b).2.str) ∧
      dmPair a b = (pgLeast a b, pgGreatest a b)) ∧
    (∀ (message : Message) (db : Db) (conversation : Conversation) (callerId : Uuid) (topic : Text),
      authorizeConversation db conversation callerId = .ok topic →
        (topic = message.topicFor ↔ conversation.identity callerId = message.identity)) ∧
    (∀ (message : Message) (conversation : Conversation) (callerId : Uuid),
      topicFor conversation callerId = message.topicFor ↔
        conversation.identity callerId = message.identity) ∧
    (∀ (message : Message) (userId : Uuid),
      userTopic userId ≠ message.topicFor ∧ presenceTopic userId ≠ message.topicFor) ∧
    (∀ (message : Message) (callerId otherUserId channelId : Uuid),
      (message.inDmHistory callerId otherUserId ↔
        message.identity = .dm s(callerId, otherUserId)) ∧
      (message.inChannelHistory channelId ↔ message.identity = .channel channelId)) := by
  refine ⟨fun a b => ?_, fun a b c d => dmTopic_inj, fun a b => ⟨dmTopic_eq a b, dmPair_eq_pg a b⟩,
    fun message db conversation callerId topic h => ?_, topicFor_eq_iff,
    fun message userId => ⟨userTopic_ne message, presenceTopic_ne message⟩,
    fun message callerId otherUserId channelId =>
      ⟨inDmHistory_iff message callerId otherUserId, inChannelHistory_iff message channelId⟩⟩
  · rw [dmTopic_inj]
    exact Sym2.eq_swap
  · rw [topicFor_of_authorized h]
    exact topicFor_eq_iff message conversation callerId

end Chatspace.Topics
