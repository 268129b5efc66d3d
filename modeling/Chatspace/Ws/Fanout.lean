import Chatspace.Codec.Json
import Chatspace.Ws.TopicAgreement

/-!
# The relay of typing indicators

The envelope of `ws/typing_events.py` and the relay of `ws/fanout.py`, which hands what Redis
delivers to the connection manager of its instance.  A payload is the value that was dumped.

* `buildTypingEvent`, `typingTyperId` — the envelope, and who is excluded from it;
* `ConnectionManager`, `broadcastToTopic`, `handleMessage` — who is sent a payload;
* `framesFor_handleMessage` — **one frame, or none, for each connection;**
* `framesFor_typing` — **none for the typer, one for everyone else who is subscribed.**
-/

namespace Chatspace.Fanout

open Codec Topics

/-! ### The envelope -/

def typingEventType : Text := ['t', 'y', 'p', 'i', 'n', 'g']

def messageCreatedType : Text :=
  ['m', 'e', 's', 's', 'a', 'g', 'e', '.', 'c', 'r', 'e', 'a', 't', 'e', 'd']

def messageEditedType : Text :=
  ['m', 'e', 's', 's', 'a', 'g', 'e', '.', 'e', 'd', 'i', 't', 'e', 'd']

def messageDeletedType : Text :=
  ['m', 'e', 's', 's', 'a', 'g', 'e', '.', 'd', 'e', 'l', 'e', 't', 'e', 'd']

def memberAddedType : Text :=
  ['c', 'h', 'a', 'n', 'n', 'e', 'l', '.', 'm', 'e', 'm', 'b', 'e', 'r', '_', 'a', 'd', 'd', 'e', 'd']

def memberRemovedType : Text :=
  ['c', 'h', 'a', 'n', 'n', 'e', 'l', '.', 'm', 'e', 'm', 'b', 'e', 'r', '_', 'r', 'e', 'm', 'o', 'v',
    'e', 'd']

def typeKey : Text := ['t', 'y', 'p', 'e']

def conversationKey : Text := ['c', 'o', 'n', 'v', 'e', 'r', 's', 'a', 't', 'i', 'o', 'n']

def dataKey : Text := ['d', 'a', 't', 'a']

def kindKey : Text := ['k', 'i', 'n', 'd']

def channelIdKey : Text := ['c', 'h', 'a', 'n', 'n', 'e', 'l', '_', 'i', 'd']

def userIdKey : Text := ['u', 's', 'e', 'r', '_', 'i', 'd']

def channelKind : Text := ['c', 'h', 'a', 'n', 'n', 'e', 'l']

def dmKind : Text := ['d', 'm']

/-- `conversation.model_dump(mode="json")`. -/
def modelDump : Conversation → Json
  | .channel channelId =>
    .object [(kindKey, .string channelKind), (channelIdKey, .string channelId.str)]
  | .dm userId => .object [(kindKey, .string dmKind), (userIdKey, .string userId.str)]

def buildTypingEvent (userId : Uuid) (conversation : Conversation) : Json :=
  let conversationPayload := modelDump conversation
  .object [
    (typeKey, .string typingEventType),
    (conversationKey, conversationPayload),
    (dataKey, .object [
      (userIdKey, .string userId.str),
      (conversationKey, conversationPayload)])]

/-- `_typing_typer_id`. -/
def typingTyperId (payload : Json) : Option Uuid :=
  if (payload.field? typeKey).bind Json.string? = some typingEventType then
    (((payload.field? dataKey).bind (Json.field? · userIdKey)).bind Json.string?).bind Uuid.ofStr
  else none

/-! ### The relay -/

/-- An entry of the connection manager; `connected` is its socket's `application_state`. -/
structure ConnectionState where
  connectionId : Uuid
  userId : Uuid
  subscribedTopics : List Text
  connected : Bool
deriving DecidableEq

/-- `_connections`, by their ids. -/
structure ConnectionManager where
  connections : List ConnectionState
  nodup : (connections.map ConnectionState.connectionId).Nodup

/-- What the instance sends, and to which connections; `sends` says which sockets do not raise. -/
def ConnectionManager.broadcastToTopic (manager : ConnectionManager) (sends : Uuid → Bool)
    (topic : Text) (payload : Json) (excludeUserId : Option Uuid) : List (Uuid × Json) :=
  manager.connections.filterMap fun state =>
    if topic ∉ state.subscribedTopics then none
    else if excludeUserId = some state.userId then none
    else if state.connected = false then none
    else if sends state.connectionId then some (state.connectionId, payload)
    else none

/-- `_handle_message`, of a payload that is JSON. -/
def handleMessage (manager : ConnectionManager) (sends : Uuid → Bool) (topic : Text)
    (payload : Json) : List (Uuid × Json) :=
  if payload.isObject then
    manager.broadcastToTopic sends topic payload (typingTyperId payload)
  else []

/-- What a connection is sent. -/
def framesFor (connectionId : Uuid) (deliveries : List (Uuid × Json)) : List Json :=
  (deliveries.filter fun d => d.1 = connectionId).map Prod.snd

/-- The connection is sent the payload. -/
def Reaches (sends : Uuid → Bool) (topic : Text) (payload : Json) (state : ConnectionState) :
    Prop :=
  payload.isObject = true ∧ topic ∈ state.subscribedTopics ∧
    typingTyperId payload ≠ some state.userId ∧ state.connected = true ∧
    sends state.connectionId = true

instance (sends : Uuid → Bool) (topic : Text) (payload : Json) (state : ConnectionState) :
    Decidable (Reaches sends topic payload state) :=
  inferInstanceAs (Decidable (_ ∧ _))

variable {manager : ConnectionManager} {sends : Uuid → Bool} {topic : Text} {payload : Json}
  {state : ConnectionState} {typer : Uuid} {conversation : Conversation}

/-! ### Who is sent what -/

/-- Of what goes to the connections, one of them gets what goes to it. -/
theorem framesFor_filterMap {connections : List ConnectionState}
    {send : ConnectionState → Option (Uuid × Json)}
    (hsend : ∀ other d, send other = some d → d.1 = other.connectionId)
    (hnodup : (connections.map ConnectionState.connectionId).Nodup) (hmem : state ∈ connections) :
    framesFor state.connectionId (connections.filterMap send) =
      (send state).toList.map Prod.snd := by
  induction connections with
  | nil => cases hmem
  | cons other rest ih =>
    rw [List.map_cons, List.nodup_cons] at hnodup
    have hcons : framesFor state.connectionId ((other :: rest).filterMap send) =
        framesFor state.connectionId (send other).toList ++
          framesFor state.connectionId (rest.filterMap send) := by
      unfold framesFor
      rw [List.filterMap_cons]
      cases hother : send other with
      | none => rfl
      | some d => rw [Option.toList_some, ← List.map_append, ← List.filter_append]; rfl
    rw [hcons]
    rcases List.mem_cons.mp hmem with rfl | hrest
    · have hown : framesFor state.connectionId (send state).toList =
          (send state).toList.map Prod.snd := by
        unfold framesFor
        rw [List.filter_eq_self.mpr]
        intro d hd
        simpa using hsend state d (Option.mem_toList.mp hd)
      have hothers : framesFor state.connectionId (rest.filterMap send) = [] := by
        unfold framesFor
        rw [List.filter_eq_nil_iff.mpr, List.map_nil]
        intro d hd
        obtain ⟨other, hother, hd⟩ := List.mem_filterMap.mp hd
        rw [decide_eq_true_eq, hsend other d hd]
        intro heq
        exact hnodup.1 (heq ▸ List.mem_map_of_mem hother)
      rw [hown, hothers, List.append_nil]
    · have hne : other.connectionId ≠ state.connectionId := by
        intro heq
        exact hnodup.1 (heq ▸ List.mem_map_of_mem hrest)
      have hnone : framesFor state.connectionId (send other).toList = [] := by
        unfold framesFor
        rw [List.filter_eq_nil_iff.mpr, List.map_nil]
        intro d hd
        rw [decide_eq_true_eq, hsend other d (Option.mem_toList.mp hd)]
        exact hne
      rw [hnone, List.nil_append, ih hnodup.2 hrest]

/-- **One frame, or none, for each connection.** -/
theorem framesFor_handleMessage (hmem : state ∈ manager.connections) :
    framesFor state.connectionId (handleMessage manager sends topic payload) =
      if Reaches sends topic payload state then [payload] else [] := by
  cases hobject : payload.isObject with
  | false =>
    have hreach : ¬ Reaches sends topic payload state := by simp [Reaches, hobject]
    rw [handleMessage, hobject, if_neg hreach]
    rfl
  | true =>
    rw [handleMessage, if_pos hobject, ConnectionManager.broadcastToTopic,
      framesFor_filterMap ?_ manager.nodup hmem]
    · by_cases hreach : Reaches sends topic payload state
      · obtain ⟨-, htopic, hne, hconnected, hsends⟩ := id hreach
        simp [htopic, hne, hconnected, hsends, hreach]
      · have hskip := hreach
        simp only [Reaches, hobject, true_and, not_and, ne_eq] at hskip
        rw [if_neg hreach]
        split_ifs with htopic hne hconnected hsends
        · rfl
        · rfl
        · exact absurd hsends (hskip htopic hne (by simpa using hconnected))
        · rfl
        · rfl
    · intro other d hd
      split_ifs at hd
      cases hd
      rfl

/-- The fields of the envelope. -/
theorem buildTypingEvent_fields (typer : Uuid) (conversation : Conversation) :
    (buildTypingEvent typer conversation).field? typeKey = some (.string typingEventType) ∧
      (buildTypingEvent typer conversation).field? conversationKey =
        some (modelDump conversation) ∧
      ((buildTypingEvent typer conversation).field? dataKey).bind (Json.field? · userIdKey) =
        some (.string typer.str) :=
  ⟨rfl, rfl, rfl⟩

@[simp] theorem typingTyperId_build :
    typingTyperId (buildTypingEvent typer conversation) = some typer := by
  obtain ⟨htype, -, huser⟩ := buildTypingEvent_fields typer conversation
  have hstring : (some (Json.string typingEventType)).bind Json.string? = some typingEventType := rfl
  have huserId : (some (Json.string typer.str)).bind Json.string? = some typer.str := rfl
  rw [typingTyperId, htype, huser, if_pos hstring, huserId, Option.bind_some]
  exact Uuid.ofStr_str typer

/-- A frame that a user is sent is not about the user's own typing. -/
theorem typer_ne_of_mem {raw : Json} (hmem : state ∈ manager.connections)
    (hraw : raw ∈ framesFor state.connectionId (handleMessage manager sends topic payload)) :
    typingTyperId raw ≠ some state.userId := by
  rw [framesFor_handleMessage hmem] at hraw
  split at hraw
  · rename_i hreach
    rw [List.mem_singleton.mp hraw]
    exact hreach.2.2.1
  · cases hraw

/-- **None for the typer, one for everyone else who is subscribed.** -/
theorem framesFor_typing (hmem : state ∈ manager.connections) (hconnected : state.connected = true)
    (hsends : sends state.connectionId = true) (htopic : topic ∈ state.subscribedTopics) :
    framesFor state.connectionId
      (handleMessage manager sends topic (buildTypingEvent typer conversation)) =
        if state.userId = typer then [] else [buildTypingEvent typer conversation] := by
  rw [framesFor_handleMessage hmem]
  have hreach : Reaches sends topic (buildTypingEvent typer conversation) state ↔
      ¬ state.userId = typer := by
    rw [Reaches, typingTyperId_build, Option.some_inj.ne, ne_comm]
    exact ⟨fun h => h.2.2.1, fun h => ⟨rfl, htopic, h, hconnected, hsends⟩⟩
  simp only [hreach, ite_not]

end Chatspace.Fanout
