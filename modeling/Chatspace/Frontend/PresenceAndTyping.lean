import Chatspace.Reactive.Runs
import Chatspace.Store.InsertionMap
import Chatspace.Frontend.Frames
import Chatspace.Ws.Fanout

/-!
# `hooks/usePresenceAndTyping.ts`

The hook while it is mounted for one conversation.  `setTypingMap` and `setPresenceMap` queue an
updater, which is evaluated later, at the time it is then; times are in milliseconds.

* `upsertTyping`, `pruneExpired`, `activeTypingUserIds`, `applyPresenceEvent` — the stores;
* `conversationTopicKey` — of a target, and of what a frame says is one;
* `applyFrame`, `step` — what the hook does;
* `Silent` — what never names a user never shows that user as typing.
-/

namespace Chatspace.Frontend

open Codec Store Fanout

/-! ### `ws/typingStore.ts` and `ws/presenceStore.ts` -/

/-- When the indicator of each user expires. -/
abbrev TypingMap : Type := InsertionMap Text Time

def emptyTypingMap : TypingMap := []

def upsertTyping (map : TypingMap) (userId : Text) (expiresAt : Time) : TypingMap :=
  map.set userId expiresAt

def pruneExpired (map : TypingMap) (now : Time) : TypingMap := map.filter fun e => ¬ e.2 ≤ now

def activeTypingUserIds (map : TypingMap) : List Text := map.keys

structure PresenceState where
  state : Text
  lastSeen : Option Text
deriving DecidableEq

abbrev PresenceMap : Type := InsertionMap Text PresenceState

def emptyPresenceMap : PresenceMap := []

def applyPresenceEvent (map : PresenceMap) (userId state : Text) (lastSeen : Option Text) :
    PresenceMap :=
  map.set userId ⟨state, lastSeen⟩

/-! ### `ws/frames.ts` -/

def channelTopicPrefix : Text := ['c', 'h', 'a', 'n', 'n', 'e', 'l', ':']

def dmTopicPrefix : Text := ['d', 'm', ':']

/-- The key the hook has for its own conversation. -/
def ConversationTarget.topicKey : ConversationTarget → Text
  | .channel channelId => channelTopicPrefix ++ channelId
  | .dm userId => dmTopicPrefix ++ userId

/-- The key of what a frame says is its conversation; `none` where reading it raises. -/
def conversationTopicKey : Option Json → Option Text
  | none | some .null => none
  | some conversation =>
    if (conversation.field? kindKey).bind Json.string? = some channelKind then
      some (channelTopicPrefix ++ Json.textOf (conversation.field? channelIdKey))
    else some (dmTopicPrefix ++ Json.textOf (conversation.field? userIdKey))

/-- `parseServerFrame`: the type of the frame, if it has one. -/
def parseServerFrame (raw : Json) : Option Text := (raw.field? typeKey).bind Json.string?

/-! ### The hook -/

def typingExpiryMs : Time := 5000

def presenceType : Text := ['p', 'r', 'e', 's', 'e', 'n', 'c', 'e']

def stateKey : Text := ['s', 't', 'a', 't', 'e']

def lastSeenKey : Text := ['l', 'a', 's', 't', '_', 's', 'e', 'e', 'n']

/-- `isTypingPayload`, with the id. -/
def typingPayload (data : Option Json) : Option Text :=
  (data.bind (Json.field? · userIdKey)).bind Json.string?

/-- `isPresencePayload`, with the id, the state and when the user was last seen. -/
def presencePayload (data : Option Json) : Option (Text × Text × Option Text) :=
  match (data.bind (Json.field? · userIdKey)), (data.bind (Json.field? · stateKey)),
    (data.bind (Json.field? · lastSeenKey)) with
  | some (.string userId), some (.string state), some .null => some (userId, state, none)
  | some (.string userId), some (.string state), some (.string lastSeen) =>
    some (userId, state, some lastSeen)
  | _, _, _ => none

/-- An updater that is queued. -/
inductive Update where
  | typing (userId : Text)
  | prune
  | presence (userId state : Text) (lastSeen : Option Text)
deriving DecidableEq

structure PresenceAndTyping where
  clock : Time
  conversationKey : Text
  cancelled : Bool
  typingMap : TypingMap
  presenceMap : PresenceMap
  updates : List Update
  /-- When the timer of each user is due. -/
  timers : InsertionMap Text Time
deriving DecidableEq

namespace PresenceAndTyping

variable (h : PresenceAndTyping)

/-- What the effect starts with. -/
def mount (clock : Time) (conversation : ConversationTarget) : PresenceAndTyping where
  clock := clock
  conversationKey := conversation.topicKey
  cancelled := false
  typingMap := emptyTypingMap
  presenceMap := emptyPresenceMap
  updates := []
  timers := []

def queue (update : Update) : PresenceAndTyping := { h with updates := h.updates ++ [update] }

def scheduleExpiry (userId : Text) : PresenceAndTyping :=
  { h with timers := h.timers.set userId (h.clock + typingExpiryMs) }

def applyFrame (frame : Json) : PresenceAndTyping :=
  if parseServerFrame frame = some typingEventType then
    match typingPayload (frame.field? dataKey) with
    | none => h
    | some userId =>
      if conversationTopicKey (frame.field? Fanout.conversationKey) = some h.conversationKey then
        (h.queue (.typing userId)).scheduleExpiry userId
      else h
  else if parseServerFrame frame = some presenceType then
    match presencePayload (frame.field? dataKey) with
    | none => h
    | some (userId, state, lastSeen) => h.queue (.presence userId state lastSeen)
  else h

/-- `onFrame`. -/
def onFrame (frame : Json) : PresenceAndTyping := if h.cancelled then h else h.applyFrame frame

/-- The timer of a user fires. -/
def onTimer (userId : Text) : PresenceAndTyping :=
  let h := { h with timers := h.timers.delete userId }
  if h.cancelled then h else h.queue .prune

/-- An updater is evaluated. -/
def apply : Update → PresenceAndTyping
  | .typing userId =>
    { h with typingMap := upsertTyping h.typingMap userId (h.clock + typingExpiryMs) }
  | .prune => { h with typingMap := pruneExpired h.typingMap h.clock }
  | .presence userId state lastSeen =>
    { h with presenceMap := applyPresenceEvent h.presenceMap userId state lastSeen }

/-- The effect is cleaned up. -/
def cleanup : PresenceAndTyping := { h with cancelled := true, timers := [] }

/-- All that is queued is evaluated. -/
def settled : PresenceAndTyping := h.updates.foldl apply { h with updates := [] }

end PresenceAndTyping

inductive HookEvent where
  | tick (ms : ℕ)
  | frame (frame : Json)
  | timer (userId : Text)
  | evaluate
  | cleanup

/-- What happens; `none` where it cannot. -/
def PresenceAndTyping.step (h : PresenceAndTyping) : HookEvent → Option PresenceAndTyping
  | .tick ms => some { h with clock := h.clock + ms }
  | .frame frame => some (h.onFrame frame)
  | .timer userId =>
    match h.timers.get userId with
    | some due => if due ≤ h.clock then some (h.onTimer userId) else none
    | none => none
  | .evaluate =>
    match h.updates with
    | [] => none
    | update :: updates => some ({ h with updates }.apply update)
  | .cleanup => some h.cleanup

end Chatspace.Frontend
