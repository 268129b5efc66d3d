import Chatspace.Services.Messages

/-!
# Editing and deleting messages

Both read the row, decide, and write it later by its key: nothing is locked in between.  A soft
deletion keeps the row.

* `editMessage`, `deleteMessage` — the services;
* `editMessageRoute`, `deleteMessageRoute` — the routes, with the status each error is mapped to.
-/

namespace Chatspace.Messages

open Interleave Store

def buildEditedEvent (m : MessageWithMedia) : Event :=
  .messageEdited (conversationFor m.message) m.id m.message m.media

def buildDeletedEvent (messageId : MessageId) (message : Message) : Event :=
  .messageDeleted (conversationFor message) messageId message.deletedAt

def publishMessageEdited (m : MessageWithMedia) : Py Unit :=
  publishMessageEvent (buildEditedEvent m) (topicFor m.message)

def publishMessageDeleted (messageId : MessageId) (message : Message) : Py Unit :=
  publishMessageEvent (buildDeletedEvent messageId message) (topicFor message)

def ensureCallerCanSeeMessage (message : Message) (callerId : UserId) : Py Unit :=
  match message.target with
  | .dm _ => return ()
  | .channel channelId => do
    match ← Py.get .channelMembers (channelId, callerId) with
    | none => .raise .messageNotFoundError
    | some _ => return ()

/-- The part of an edit that changes the row. -/
def writeEdit (messageId : MessageId) (content : Text) (message : Message) : Py Message := do
  let now ← Prog.perform Op.utcNow
  Py.flushUpdate .messages messageId fun x => { x with content := content, editedAt := some now }
  return { message with content := content, editedAt := some now }

def editMessage (messageId : MessageId) (callerId : UserId) (content : Text) : Py Message := do
  match ← Py.get .messages messageId with
  | none => .raise .messageNotFoundError
  | some message =>
    ensureCallerCanSeeMessage message callerId
    if message.senderId ≠ callerId then .raise .notMessageAuthorError
    else if message.deletedAt.isSome then .raise .messageAlreadyDeletedError
    else if !isValidContent content then .raise .invalidContentError
    else if content = message.content then
      Py.commit
      return message
    else
      let edited ← writeEdit messageId content message
      Py.commit
      let media ← getMessageMedia messageId
      publishMessageEdited ⟨messageId, edited, media⟩
      return edited

/-- The part of a deletion that changes the row. -/
def writeDeletion (messageId : MessageId) (message : Message) : Py Message := do
  let now ← Prog.perform Op.utcNow
  Py.flushUpdate .messages messageId fun x => { x with deletedAt := some now }
  return { message with deletedAt := some now }

def deleteMessage (messageId : MessageId) (callerId : UserId) : Py Message := do
  match ← Py.get .messages messageId with
  | none => .raise .messageNotFoundError
  | some message =>
    ensureCallerCanSeeMessage message callerId
    if message.senderId ≠ callerId then .raise .notMessageAuthorError
    else if message.deletedAt.isSome then
      Py.commit
      return message
    else
      let deleted ← writeDeletion messageId message
      Py.commit
      publishMessageDeleted messageId deleted
      return deleted

/-- The statuses of the errors of `edit_message` and `delete_message`. -/
def toHttpException : Exc → Exc
  | .messageNotFoundError => .httpException 404
  | .notMessageAuthorError => .httpException 403
  | .messageAlreadyDeletedError => .httpException 409
  | .invalidContentError => .httpException 422
  | e => e

def editMessageRoute (messageId : MessageId) (callerId : UserId) (content : Text) :
    Py MessageWithMedia :=
  Py.getDbSession do
    let message ← (editMessage messageId callerId content).handle fun e => .raise (toHttpException e)
    let media ← getMessageMedia messageId
    return ⟨messageId, message, media⟩

def deleteMessageRoute (messageId : MessageId) (callerId : UserId) : Py Unit :=
  Py.getDbSession do
    let _ ← (deleteMessage messageId callerId).handle fun e => .raise (toHttpException e)
    return ()

theorem only_ensureCallerCanSeeMessage {P : Op → Prop} (hget : ∀ τ k, P (.sql (.get τ k)))
    (message : Message) (callerId : UserId) : (ensureCallerCanSeeMessage message callerId).Only P := by
  unfold ensureCallerCanSeeMessage
  split
  · trivial
  · refine (Prog.only_perform (hget _ _)).bind fun membership => ?_
    cases membership <;> trivial

end Chatspace.Messages
