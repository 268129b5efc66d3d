import Chatspace.Frontend.PresenceAndTyping

/-!
# Who is shown as typing

A typing frame goes from the typer through the endpoint, the relay of each instance and the hook of
each participant.

* `typingMap_settled` — the map when all that is queued is evaluated;
* `onFrame_typing` — what the hook does with the envelope;
* `Joined` — a connection whose hook has joined a conversation;
* `Silent` — **who is never named is never shown;**
* `typing_relay` — **a participant sees the typer just in a channel named as the server names it,
  and the typer never does.**
-/

namespace Chatspace.Frontend

open Codec Store Topics Fanout

variable {h h' : PresenceAndTyping} {userId u : Text} {frame : Json} {e : HookEvent}
  {readUuid : Text → Option Uuid} {typer : Uuid} {conversation : Conversation}
  {target : ConversationTarget} {state : Fanout.ConnectionState}

/-! ### What is evaluated -/

/-- The map after an updater. -/
def mapAfter (now : Time) (map : TypingMap) : Update → TypingMap
  | .typing userId => upsertTyping map userId (now + typingExpiryMs)
  | .prune => pruneExpired map now
  | .presence .. => map

theorem typingMap_foldl (updates : List Update) (h : PresenceAndTyping) :
    (updates.foldl PresenceAndTyping.apply h).typingMap =
      updates.foldl (mapAfter h.clock) h.typingMap := by
  induction updates generalizing h with
  | nil => rfl
  | cons update updates ih =>
    rw [List.foldl_cons, List.foldl_cons, ih]
    cases update <;> rfl

/-- The map when all that is queued is evaluated. -/
theorem typingMap_settled (h : PresenceAndTyping) :
    h.settled.typingMap = h.updates.foldl (mapAfter h.clock) h.typingMap :=
  typingMap_foldl h.updates { h with updates := [] }

/-- A user whose updater is the last is shown. -/
theorem mem_settled_queue (h : PresenceAndTyping) (userId : Text) : userId ∈
    activeTypingUserIds ((h.queue (.typing userId)).scheduleExpiry userId).settled.typingMap := by
  rw [typingMap_settled]
  show userId ∈ activeTypingUserIds
    ((h.updates ++ [Update.typing userId]).foldl (mapAfter h.clock) h.typingMap)
  rw [List.foldl_append]
  exact InsertionMap.mem_keys_set.mpr (.inl rfl)

/-! ### Keys -/

/-- A conversation as the server names it. -/
def named : Conversation → ConversationTarget
  | .channel channelId => .channel channelId.str
  | .dm userId => .dm userId.str

theorem conversationTopicKey_modelDump (conversation : Conversation) :
    conversationTopicKey (some (modelDump conversation)) = some (named conversation).topicKey := by
  cases conversation with
  | channel channelId => rfl
  | dm userId => rfl

theorem topicKey_inj {target' : ConversationTarget} :
    target.topicKey = target'.topicKey ↔ target = target' := by
  cases target with
  | channel channelId =>
    cases target' with
    | channel channelId' => simp [ConversationTarget.topicKey]
    | dm userId => simp [ConversationTarget.topicKey, channelTopicPrefix, dmTopicPrefix]
  | dm userId =>
    cases target' with
    | channel channelId => simp [ConversationTarget.topicKey, channelTopicPrefix, dmTopicPrefix]
    | dm userId' => simp [ConversationTarget.topicKey]

/-- The hook queues the typer if the envelope has its key, and does nothing otherwise. -/
theorem onFrame_typing (hlive : h.cancelled = false) :
    h.onFrame (buildTypingEvent typer conversation) =
      if (named conversation).topicKey = h.conversationKey then
        (h.queue (.typing typer.str)).scheduleExpiry typer.str
      else h := by
  obtain ⟨htype, hconversation, huser⟩ := buildTypingEvent_fields typer conversation
  have hparse : parseServerFrame (buildTypingEvent typer conversation) = some typingEventType := by
    rw [parseServerFrame, htype]
    rfl
  have hpayload : typingPayload ((buildTypingEvent typer conversation).field? dataKey) =
      some typer.str := by
    rw [typingPayload, huser]
    rfl
  rw [PresenceAndTyping.onFrame, hlive, PresenceAndTyping.applyFrame, if_pos hparse]
  simp only [hpayload, hconversation, conversationTopicKey_modelDump, Option.some.injEq,
    Bool.false_eq_true, if_false]

/-! ### Participants -/

/-- The conversation a target names; `readUuid` is how pydantic reads an id. -/
def readTarget (readUuid : Text → Option Uuid) : ConversationTarget → Option Conversation
  | .channel channelId => (readUuid channelId).map .channel
  | .dm userId => (readUuid userId).map .dm

/-- A connection that can be sent to, whose hook has joined the conversation by this name. -/
structure Joined (readUuid : Text → Option Uuid) (sends : Uuid → Bool)
    (state : Fanout.ConnectionState) (target : ConversationTarget) (identity : Identity) :
    Prop where
  connected : state.connected = true
  open_ : sends state.connectionId = true
  named : ∃ conversation, readTarget readUuid target = some conversation ∧
    conversation.identity state.userId = identity ∧
    topicFor conversation state.userId ∈ state.subscribedTopics

/-- The channel is named as the server names it. -/
def Canonical : ConversationTarget → Prop
  | .channel channelId => ∃ id : Uuid, channelId = id.str
  | .dm _ => False

/-- The key of the other participant is that of the envelope just in a channel. -/
theorem named_eq_iff (hread : ∀ u : Uuid, readUuid u.str = some u) {sends : Uuid → Bool}
    (hjoined : Joined readUuid sends state target (conversation.identity typer))
    (hother : state.userId ≠ typer) : named conversation = target ↔ Canonical target := by
  obtain ⟨conversation', hconversation, hidentity, -⟩ := hjoined.named
  constructor
  · rintro rfl
    cases conversation with
    | channel channelId => exact ⟨channelId, rfl⟩
    | dm userId =>
      -- both would be the other participant of the same user
      rw [named, readTarget, hread] at hconversation
      cases hconversation
      simp only [Conversation.identity, Identity.dm.injEq, Sym2.congr_left] at hidentity
      exact absurd hidentity hother
  · intro hcanonical
    cases target with
    | channel channelId =>
      obtain ⟨channelId, rfl⟩ := hcanonical
      rw [readTarget, hread] at hconversation
      cases hconversation
      cases conversation with
      | channel channelId' =>
        cases hidentity
        rfl
      | dm userId => cases hidentity
    | dm userId => cases hcanonical

theorem topicFor_eq_of_identity {conversation' : Conversation} {callerId : Uuid}
    (h : conversation'.identity callerId = conversation.identity typer) :
    topicFor conversation' callerId = topicFor conversation typer := by
  cases conversation' with
  | channel channelId =>
    cases conversation with
    | channel channelId' =>
      cases h
      rfl
    | dm userId => cases h
  | dm userId =>
    cases conversation with
    | channel channelId => cases h
    | dm userId' => exact dmTopic_inj.mpr (Identity.dm.inj h)

/-! ### Who is never named -/

/-- The frame is not about this user's typing. -/
def NotAbout (u : Text) (frame : Json) : Prop :=
  parseServerFrame frame = some typingEventType → typingPayload (frame.field? dataKey) ≠ some u

structure Silent (u : Text) (h : PresenceAndTyping) : Prop where
  shown : u ∉ activeTypingUserIds h.typingMap
  queued : .typing u ∉ h.updates

theorem silent_onFrame (hs : Silent u h) (hframe : NotAbout u frame) :
    Silent u (h.onFrame frame) := by
  unfold PresenceAndTyping.onFrame PresenceAndTyping.applyFrame
  have hqueue : ∀ update, update ≠ .typing u → Silent u (h.queue update) := by
    intro update hne
    refine ⟨hs.shown, ?_⟩
    show .typing u ∉ h.updates ++ [update]
    rw [List.mem_append, List.mem_singleton, not_or]
    exact ⟨hs.queued, hne.symm⟩
  split
  · exact hs
  · split
    · rename_i htype
      have hne := hframe htype
      split
      · exact hs
      · rename_i userId huser
        split
        · have hq := hqueue (.typing userId) (by rw [huser] at hne; simpa using hne)
          exact ⟨hq.shown, hq.queued⟩
        · exact hs
    · split
      · split
        · exact hs
        · exact hqueue _ nofun
      · exact hs

theorem silent_step (hs : Silent u h) (hframe : ∀ frame, e = .frame frame → NotAbout u frame)
    (hstep : h.step e = some h') : Silent u h' := by
  cases e with
  | tick ms =>
    cases hstep
    exact ⟨hs.shown, hs.queued⟩
  | frame frame =>
    cases hstep
    exact silent_onFrame hs (hframe frame rfl)
  | timer userId =>
    simp only [PresenceAndTyping.step] at hstep
    split at hstep
    · split at hstep
      · cases hstep
        unfold PresenceAndTyping.onTimer
        simp only
        split
        · exact ⟨hs.shown, hs.queued⟩
        · refine ⟨hs.shown, ?_⟩
          show .typing u ∉ h.updates ++ [Update.prune]
          simpa using hs.queued
      · cases hstep
    · cases hstep
  | evaluate =>
    simp only [PresenceAndTyping.step] at hstep
    split at hstep
    · cases hstep
    · rename_i update updates hupdates
      cases hstep
      have hq := hs.queued
      rw [hupdates, List.mem_cons, not_or] at hq
      cases update with
      | typing userId =>
        refine ⟨?_, hq.2⟩
        intro hmem
        rcases InsertionMap.mem_keys_set.mp hmem with rfl | hmem
        · exact hq.1 rfl
        · exact hs.shown hmem
      | prune =>
        refine ⟨?_, hq.2⟩
        intro hmem
        obtain ⟨entry, hentry, rfl⟩ := List.mem_map.mp hmem
        exact hs.shown (List.mem_map_of_mem (List.mem_of_mem_filter hentry))
      | presence userId state lastSeen => exact ⟨hs.shown, hq.2⟩
  | cleanup =>
    cases hstep
    exact ⟨hs.shown, hs.queued⟩

/-- **Who is never named is never shown.** -/
theorem silent_last (hs : Silent u h) (es : List HookEvent)
    (hframes : ∀ x ∈ Reactive.transitions PresenceAndTyping.step h es,
      ∀ frame, x.2.1 = .frame frame → NotAbout u frame) :
    Silent u (Reactive.last PresenceAndTyping.step h es) :=
  Reactive.last_of_inv (C := fun _ e => ∀ frame, e = .frame frame → NotAbout u frame)
    (fun _ _ _ hs hframe hstep => silent_step hs hframe hstep) hs es hframes

/-- The frame is what a relay sent to a connection of this user. -/
def Relayed (u : Uuid) (frame : Json) : Prop :=
  ∃ (manager : ConnectionManager) (sends : Uuid → Bool) (topic : Text) (payload : Json),
    ∃ state ∈ manager.connections, state.userId = u ∧
      frame ∈ framesFor state.connectionId (handleMessage manager sends topic payload)

theorem notAbout_of_relayed (h : Relayed typer frame) : NotAbout typer.str frame := by
  obtain ⟨manager, sends, topic, payload, state, hmem, rfl, hframe⟩ := h
  intro htype huser
  refine typer_ne_of_mem hmem hframe ?_
  rw [parseServerFrame] at htype
  rw [typingPayload] at huser
  rw [typingTyperId, if_pos htype, huser, Option.bind_some]
  exact Uuid.ofStr_str state.userId

/-! ### The relay -/

/-- **Typing relay end to end.** What an instance sends of an authorised typing frame makes the hook
of another participant show the typer just if the conversation is a channel that the participant's
client names as the server does; nothing of it goes to the typer; and in every run of a hook the
typing frames of which have been relayed to a connection of its user, that user is not shown. -/
theorem typing_relay (hread : ∀ u : Uuid, readUuid u.str = some u) {db : Db} {topic : Text}
    (hauth : authorizeConversation db conversation typer = .ok topic)
    (manager : ConnectionManager) (sends : Uuid → Bool) (hmem : state ∈ manager.connections) :
    (state.userId ≠ typer → ∀ target,
      Joined readUuid sends state target (conversation.identity typer) →
      ∀ h : PresenceAndTyping, h.conversationKey = target.topicKey → h.cancelled = false →
        (typer.str ∈ activeTypingUserIds ((framesFor state.connectionId (handleMessage manager sends
            topic (buildTypingEvent typer conversation))).foldl PresenceAndTyping.onFrame
              h).settled.typingMap ↔
          Canonical target ∨ typer.str ∈ activeTypingUserIds h.settled.typingMap)) ∧
    (state.userId = typer → framesFor state.connectionId (handleMessage manager sends topic
      (buildTypingEvent typer conversation)) = []) ∧
    ∀ (clock : Time) (target : ConversationTarget) (es : List HookEvent),
      (∀ x ∈ Reactive.transitions PresenceAndTyping.step (.mount clock target) es,
        ∀ frame, x.2.1 = .frame frame → parseServerFrame frame = some typingEventType →
          Relayed typer frame) →
      typer.str ∉ activeTypingUserIds
        (Reactive.last PresenceAndTyping.step (.mount clock target) es).typingMap := by
  refine ⟨fun hother target hjoined h hkey hlive => ?_, fun hself => ?_,
    fun clock target es hframes => ?_⟩
  · obtain ⟨conversation', -, hidentity, hsubscribed⟩ := hjoined.named
    rw [topicFor_eq_of_identity hidentity, ← topicFor_of_authorized hauth] at hsubscribed
    rw [framesFor_typing hmem hjoined.connected hjoined.open_ hsubscribed, if_neg hother,
      List.foldl_cons, List.foldl_nil, onFrame_typing hlive, hkey]
    simp only [topicKey_inj]
    have hiff := named_eq_iff hread hjoined hother
    split
    · rename_i hnamed
      exact iff_of_true (mem_settled_queue h typer.str) (.inl (hiff.mp hnamed))
    · rename_i hnamed
      rw [or_iff_right fun hcanonical => hnamed (hiff.mpr hcanonical)]
  · rw [framesFor_handleMessage hmem, if_neg]
    rintro ⟨-, -, hne, -, -⟩
    exact hne (typingTyperId_build.trans (congrArg some hself.symm))
  · have hmount : Silent typer.str (.mount clock target) := ⟨List.not_mem_nil, List.not_mem_nil⟩
    refine (silent_last hmount es fun x hx frame hframe htype => ?_).shown
    exact notAbout_of_relayed (hframes x hx frame hframe htype) htype

/-! ### Two users on one instance -/

def alice : Uuid := 0xa

def bob : Uuid := 0xb

def general : Uuid := 0xc

/-- Everyone is a member and active. -/
def openDb : Db := ⟨fun _ _ => true, fun _ => some true⟩

/-- Alice's connection. -/
def aliceState : Fanout.ConnectionState where
  connectionId := 1
  userId := alice
  subscribedTopics := [userTopic alice, channelTopic general, dmTopic alice bob]
  connected := true

/-- Bob's. -/
def bobState : Fanout.ConnectionState where
  connectionId := 2
  userId := bob
  subscribedTopics := [userTopic bob, channelTopic general, dmTopic alice bob]
  connected := true

def instanceOfBoth : ConnectionManager := ⟨[aliceState, bobState], by decide⟩

/-- Alice types in the channel, and Bob sees it. -/
theorem typing_relay_channel : alice.str ∈ activeTypingUserIds ((framesFor bobState.connectionId
    (handleMessage instanceOfBoth (fun _ => true) (channelTopic general) (buildTypingEvent alice
      (.channel general)))).foldl PresenceAndTyping.onFrame
        (.mount 0 (.channel general.str))).settled.typingMap := by
  have hauth : authorizeConversation openDb (.channel general) alice = .ok (channelTopic general) :=
    rfl
  have hjoined : Joined Uuid.ofStr (fun _ => true) bobState (.channel general.str)
      (Conversation.identity (.channel general) alice) := by
    refine ⟨rfl, rfl, .channel general, ?_, rfl, ?_⟩
    · rw [readTarget, Uuid.ofStr_str, Option.map_some]
    · exact List.mem_cons_of_mem _ List.mem_cons_self
  exact ((typing_relay Uuid.ofStr_str hauth instanceOfBoth (fun _ => true)
    (List.mem_cons_of_mem _ List.mem_cons_self)).1 (by decide) _ hjoined (.mount 0 _) rfl
      rfl).mpr (.inl ⟨general, rfl⟩)

/-- **Alice types to Bob, who has joined the conversation, and Bob does not see it.** -/
theorem dm_typing_dropped :
    authorizeConversation openDb (.dm bob) alice = .ok (dmTopic alice bob) ∧
    bobState ∈ instanceOfBoth.connections ∧ bobState.userId ≠ alice ∧
    Joined Uuid.ofStr (fun _ => true) bobState (.dm alice.str)
      (Conversation.identity (.dm bob) alice) ∧
    alice.str ∉ activeTypingUserIds ((framesFor bobState.connectionId (handleMessage instanceOfBoth
      (fun _ => true) (dmTopic alice bob) (buildTypingEvent alice (.dm bob)))).foldl
        PresenceAndTyping.onFrame (.mount 0 (.dm alice.str))).settled.typingMap := by
  refine ⟨rfl, List.mem_cons_of_mem _ List.mem_cons_self, by decide,
    ⟨rfl, rfl, .dm alice, ?_, ?_, ?_⟩, ?_⟩
  · rw [readTarget, Uuid.ofStr_str, Option.map_some]
  · exact congrArg Identity.dm Sym2.eq_swap
  · show dmTopic bob alice ∈ bobState.subscribedTopics
    rw [dmTopic_inj.mpr (Sym2.eq_swap : s(bob, alice) = s(alice, bob))]
    exact List.mem_cons_of_mem _ (List.mem_cons_of_mem _ List.mem_cons_self)
  · decide +kernel

end Chatspace.Frontend
