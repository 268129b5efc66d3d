import Chatspace.Frontend.MessageStore

/-!
# `hooks/useConversationSocket.ts`: what reaches the message map

The state updaters of React run in the order in which they are queued.

* `applyFrame` — a live frame;
* `caughtUp`, `catchUpFailed` — the two ways `runCatchUp` ends;
* `deliver` — either of them.
-/

namespace Chatspace.Frontend

namespace ConversationSocket

structure State where
  messageMap : MessageMap
  lastMessageId : Option Text
  catchUpError : Option Text
deriving DecidableEq

/-- The conversation has just been opened. -/
def opened : State := ⟨emptyMessageMap, none, none⟩

namespace State

def applyFrame (s : State) : ServerFrame → State
  | .messageCreated data | .messageEdited data =>
    { s with
      messageMap := upsertMessages s.messageMap [data]
      lastMessageId :=
        match s.lastMessageId with
        | none => some data.id
        | some last => if last < data.id then some data.id else some last }
  | .messageDeleted data => { s with messageMap := applyDeleted s.messageMap data }
  | .other => s

/-- `runCatchUp` after `fetchMissedMessages` has returned `missed`. -/
def caughtUp (s : State) (missed : List Message) : State :=
  if missed = [] then s
  else
    let next := upsertMessages s.messageMap missed
    { s with
      messageMap := next
      lastMessageId := (latestMessageId next).or s.lastMessageId
      catchUpError := none }

/-- `runCatchUp` after `fetchMissedMessages` has thrown. -/
def catchUpFailed (s : State) (message : Text) : State := { s with catchUpError := some message }

/-- What the hook returns as `messages`. -/
def messages (s : State) : List Message := sortedMessages s.messageMap

end State

/-- What reaches the client: a frame, a history snapshot, or the failure of one. -/
inductive Delivery where
  | frame (frame : ServerFrame)
  | caughtUp (missed : List Message)
  | catchUpFailed (message : Text)
deriving DecidableEq

def State.deliver (s : State) : Delivery → State
  | .frame frame => s.applyFrame frame
  | .caughtUp missed => s.caughtUp missed
  | .catchUpFailed message => s.catchUpFailed message

/-- The state after these deliveries. -/
def after (ds : List Delivery) : State := ds.foldl State.deliver opened

/-- The messages a delivery carries with their content. -/
def Delivery.versions : Delivery → List Message
  | .frame (.messageCreated data) => [data]
  | .frame (.messageEdited data) => [data]
  | .caughtUp missed => missed
  | _ => []

/-- The deletion a delivery carries. -/
def Delivery.deletion : Delivery → Option MessageDeletedPayload
  | .frame (.messageDeleted data) => some data
  | _ => none

variable {s : State} {x : Delivery} {id : Text}

theorem after_append_singleton (ds : List Delivery) (x : Delivery) :
    after (ds ++ [x]) = (after ds).deliver x := by
  simp [after]

/-- **What the map shows after a delivery.** -/
theorem get_deliver : (s.deliver x).messageMap.get id =
    match x.deletion with
    | some payload =>
      if payload.id = id then some (tombstone (s.messageMap.get id) payload)
      else s.messageMap.get id
    | none => ((x.versions.filter fun m => m.id = id).getLast?).or (s.messageMap.get id) := by
  cases x with
  | frame frame =>
    cases frame with
    | messageCreated data => exact get_upsertMessages [data]
    | messageEdited data => exact get_upsertMessages [data]
    | messageDeleted data => exact get_applyDeleted data
    | other => rfl
  | caughtUp missed =>
    simp only [State.deliver, State.caughtUp]
    split
    · rename_i h
      subst h
      rfl
    · exact get_upsertMessages missed
  | catchUpFailed message => rfl

end ConversationSocket

end Chatspace.Frontend
