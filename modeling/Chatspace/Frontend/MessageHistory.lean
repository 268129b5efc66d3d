import Chatspace.Frontend.CatchUp
import Chatspace.Frontend.MessageStore
import Chatspace.Frontend.PresenceAndTyping
import Chatspace.Services.TextChecks

/-!
# `hooks/useMessageHistory.ts`

The hook with the requests it has sent and no answer has come to.  The state updaters of React run in
the order in which they are queued; `nextCursorRef` is what the last render left there.

* `Request`, `Answer` — what is asked for, and what comes back;
* `runEffect` — the effect of a new target or a new `reloadToken`;
* `loadOlder`, `sendMessage`, `retrySend`, `editMessage`, `deleteMessage` — the callbacks, up to
  their `await`;
* `complete` — what follows the `await`;
* `step` — either of them.
-/

namespace Chatspace.Frontend

open TextChecks

inductive PendingSendStatus where
  | sending
  | failed
deriving DecidableEq

structure PendingSend where
  id : Text
  content : Text
  mediaIds : List Text
  idempotencyKey : Text
  status : PendingSendStatus
  createdAt : Text
  error : Option Text
  retryAfterSeconds : Option ℕ
deriving DecidableEq

/-- `retrySend` marks the row. -/
def PendingSend.resend (pending : PendingSend) : PendingSend :=
  { pending with status := .sending, error := none }

/-- The row of a send that has failed. -/
def PendingSend.fail (pending : PendingSend) (detail : Text) (retryAfterSeconds : Option ℕ) :
    PendingSend :=
  { pending with
    status := .failed
    error := some detail
    retryAfterSeconds := retryAfterSeconds }

/-- A request whose answer the hook waits for. -/
inductive Request where
  | initialLoad (target : ConversationTarget) (cancelled : Bool)
  | loadOlder (target : ConversationTarget) (cursor : Text)
  | performSend (target : ConversationTarget) (tempId content : Text) (mediaIds : List Text)
      (idempotencyKey : Text)
  | editMessage (messageId content : Text)
  | deleteMessage (messageId : Text)
deriving DecidableEq

inductive Answer where
  | page (page : CursorPage)
  | message (message : Message)
  /-- The deletion is done; the client's clock says `now`. -/
  | deleted (now : Text)
  | failed (detail : Text) (retryAfterSeconds : Option ℕ)
deriving DecidableEq

/-- A page that has been put into the map, and what it was asked for with. -/
structure LoadedPage where
  target : ConversationTarget
  cursor : Option Text
  page : CursorPage
deriving DecidableEq

structure MessageHistory where
  target : Option ConversationTarget
  currentUserId : Option Text
  messageMap : MessageMap
  pendingSends : List PendingSend
  nextCursor : Option Text
  hasFetchedInitial : Bool
  isLoadingInitial : Bool
  isLoadingOlder : Bool
  historyError : Option Text
  actionError : Option Text
  nextCursorRef : Option Text
  isLoadingOlderRef : Bool
  requests : List Request
  /-- The pages the map has been filled with since it was emptied; the hook does not keep them. -/
  loaded : List LoadedPage
deriving DecidableEq

def targetKeyOf (target : Option ConversationTarget) : Option Text :=
  target.map ConversationTarget.topicKey

/-- `cancelled = true` in the clean-up of the effect. -/
def Request.cancel : Request → Request
  | .initialLoad target _ => .initialLoad target true
  | request => request

namespace MessageHistory

variable (s : MessageHistory)

/-- The hook before its first effect. -/
def unmounted (currentUserId : Option Text) : MessageHistory where
  target := none
  currentUserId := currentUserId
  messageMap := emptyMessageMap
  pendingSends := []
  nextCursor := none
  hasFetchedInitial := false
  isLoadingInitial := false
  isLoadingOlder := false
  historyError := none
  actionError := none
  nextCursorRef := none
  isLoadingOlderRef := false
  requests := []
  loaded := []

/-- The clean-up of the effect, and the effect for this target. -/
def runEffect (target : Option ConversationTarget) : MessageHistory :=
  { s with
    target := target
    messageMap := emptyMessageMap
    pendingSends := []
    nextCursor := none
    hasFetchedInitial := false
    isLoadingInitial := target.isSome
    historyError := none
    actionError := none
    requests := s.requests.map Request.cancel ++
      target.toList.map fun target => .initialLoad target false
    loaded := [] }

/-- The hook is given a target: the effect runs if its key is another. -/
def setTarget (target : Option ConversationTarget) : MessageHistory :=
  if targetKeyOf target = targetKeyOf s.target then { s with target := target }
  else s.runEffect target

def render : MessageHistory := { s with nextCursorRef := s.nextCursor }

def retryInitialLoad : MessageHistory := s.runEffect s.target

def loadOlder : MessageHistory :=
  match s.target, s.nextCursorRef with
  | some current, some cursor =>
    if s.isLoadingOlderRef then s
    else
      { s with
        isLoadingOlderRef := true
        isLoadingOlder := true
        historyError := none
        requests := s.requests ++ [.loadOlder current cursor] }
  | _, _ => s

def performSend (tempId content : Text) (mediaIds : List Text) (idempotencyKey : Text) :
    MessageHistory :=
  match s.target with
  | none => s
  | some current =>
    { s with
      requests := s.requests ++ [.performSend current tempId content mediaIds idempotencyKey] }

def sendMessage (content : Text) (mediaIds : List Text) (tempId idempotencyKey createdAt : Text) :
    MessageHistory :=
  match validateMessageContent content with
  | some validationError => { s with actionError := some validationError.toList }
  | none =>
    let s := { s with actionError := none }
    if s.currentUserId = none ∨ s.target = none then s
    else
      let pending : PendingSend :=
        { id := tempId, content, mediaIds, idempotencyKey, status := .sending, createdAt,
          error := none, retryAfterSeconds := none }
      { s with pendingSends := s.pendingSends ++ [pending] }.performSend tempId content mediaIds
        idempotencyKey

def retrySend (tempId : Text) : MessageHistory :=
  match s.pendingSends.find? fun candidate => candidate.id = tempId with
  | none => s
  | some pending =>
    let pendingSends := s.pendingSends.map fun candidate =>
      if candidate.id = tempId then candidate.resend else candidate
    { s with pendingSends }.performSend tempId pending.content pending.mediaIds
      pending.idempotencyKey

def discardFailedSend (tempId : Text) : MessageHistory :=
  { s with pendingSends := s.pendingSends.filter fun pending => pending.id ≠ tempId }

def editMessage (messageId content : Text) : MessageHistory :=
  match validateMessageContent content with
  | some validationError => { s with actionError := some validationError.toList }
  | none =>
    { s with actionError := none, requests := s.requests ++ [.editMessage messageId content] }

def deleteMessage (messageId : Text) : MessageHistory :=
  { s with actionError := none, requests := s.requests ++ [.deleteMessage messageId] }

/-- What the hook does with an answer. -/
def complete : Request → Answer → MessageHistory
  | .initialLoad target cancelled, .page page =>
    if cancelled then s
    else
      { s with
        messageMap := upsertMessages emptyMessageMap page.items
        nextCursor := page.nextCursor
        hasFetchedInitial := true
        isLoadingInitial := false
        loaded := [⟨target, none, page⟩] }
  | .initialLoad _ cancelled, .failed detail _ =>
    if cancelled then s else { s with historyError := some detail, isLoadingInitial := false }
  | .loadOlder target cursor, .page page =>
    { s with
      messageMap := upsertMessages s.messageMap page.items
      nextCursor := page.nextCursor
      isLoadingOlderRef := false
      isLoadingOlder := false
      loaded := s.loaded ++ [⟨target, some cursor, page⟩] }
  | .loadOlder .., .failed detail _ =>
    { s with historyError := some detail, isLoadingOlderRef := false, isLoadingOlder := false }
  | .performSend _ tempId .., .message message =>
    { s with
      pendingSends := s.pendingSends.filter fun pending => pending.id ≠ tempId
      messageMap := upsertMessages s.messageMap [message] }
  | .performSend _ tempId .., .failed detail retryAfterSeconds =>
    { s with
      pendingSends := s.pendingSends.map fun pending =>
        if pending.id = tempId then pending.fail detail retryAfterSeconds else pending }
  | .editMessage .., .message updated =>
    { s with messageMap := upsertMessages s.messageMap [updated] }
  | .deleteMessage messageId, .deleted now =>
    match s.target with
    | none => s
    | some current => { s with messageMap := applyDeleted s.messageMap ⟨messageId, current, now⟩ }
  | .editMessage .., .failed detail _ | .deleteMessage _, .failed detail _ =>
    { s with actionError := some detail }
  -- no endpoint answers so
  | _, _ => s

end MessageHistory

/-- An answer the endpoint can give; `home` is the conversation of each message. -/
def serves (home : Text → ConversationTarget) : Request → Answer → Bool
  | _, .failed .. => true
  | .initialLoad target _, .page page => page.items.all fun m => home m.id = target
  | .loadOlder target _, .page page => page.items.all fun m => home m.id = target
  | .performSend target .., .message message => home message.id = target
  | .editMessage messageId _, .message updated => updated.id = messageId
  | .deleteMessage _, .deleted _ => true
  | _, _ => false

inductive HistoryEvent where
  | setTarget (target : Option ConversationTarget)
  | render
  | retryInitialLoad
  | loadOlder
  | sendMessage (content : Text) (mediaIds : List Text) (tempId idempotencyKey createdAt : Text)
  | retrySend (tempId : Text)
  | discardFailedSend (tempId : Text)
  | editMessage (messageId content : Text)
  | deleteMessage (messageId : Text)
  /-- An answer to `requests[k]`. -/
  | answer (k : ℕ) (answer : Answer)
deriving DecidableEq

/-- What happens; `none` where it cannot. -/
def MessageHistory.step (home : Text → ConversationTarget) (s : MessageHistory) :
    HistoryEvent → Option MessageHistory
  | .setTarget target => some (s.setTarget target)
  | .render => some s.render
  | .retryInitialLoad => some s.retryInitialLoad
  | .loadOlder => some s.loadOlder
  | .sendMessage content mediaIds tempId idempotencyKey createdAt =>
    some (s.sendMessage content mediaIds tempId idempotencyKey createdAt)
  | .retrySend tempId => some (s.retrySend tempId)
  | .discardFailedSend tempId => some (s.discardFailedSend tempId)
  | .editMessage messageId content => some (s.editMessage messageId content)
  | .deleteMessage messageId => some (s.deleteMessage messageId)
  | .answer k answer =>
    match s.requests[k]? with
    | none => none
    | some request =>
      if serves home request answer then
        some ({ s with requests := s.requests.eraseIdx k }.complete request answer)
      else none

end Chatspace.Frontend
