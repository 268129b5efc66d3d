import Mathlib.Algebra.Group.Nat.Defs
import Chatspace.Frontend.Frames

/-!
# `ws/socketClient.ts` and `ws/closeCodes.ts`

`ReconnectingSocket` with the browser around it: the sockets it has created, the timers that are
set, and the refreshes in flight.  A handler runs to its end before the next event; the callbacks
of the options do not call the client back.

* `classifyCloseCode` — what a close code asks for;
* `connect`, `disconnect`, `destroy`, `handleOpen`, `handleClose`, … — the methods;
* `step` — one call, socket event, timer or refresh completion.
-/

namespace Chatspace.SocketClient

open Frontend

/-! ### Close codes -/

inductive StopReason where
  | revoked
  | deactivated
  | authFailed
  | clientInitiated
deriving DecidableEq

inductive WsCloseAction where
  | refreshAndReconnect
  | reconnect
  | stop (reason : StopReason)
deriving DecidableEq

def classifyCloseCode (code : ℕ) (clientInitiated : Bool) : WsCloseAction :=
  if clientInitiated ∧ code = 1000 then .stop .clientInitiated
  else
    match code with
    | 4402 => .refreshAndReconnect
    | 4401 => .refreshAndReconnect
    | 4403 => .stop .revoked
    | 4404 => .stop .deactivated
    | _ => .reconnect

/-! ### The state -/

inductive WsStatus where
  | connecting
  | open
  | reconnecting
  | closed
deriving DecidableEq

inductive ReadyState where
  | connecting
  | open
  | closing
  | closed
deriving DecidableEq

/-- A token to connect with: `if (!token)` takes `''` for none. -/
abbrev AccessToken : Type := { token : Text // token ≠ [] }

/-- A token of one letter. -/
def letter (c : Char) : AccessToken := ⟨[c], nofun⟩

/-- A `WebSocket` created with the protocols `['bearer', token]`, and the frames sent on it. -/
structure WebSocket where
  token : AccessToken
  readyState : ReadyState
  sent : List ClientFrame
deriving DecidableEq

/-- The connection is established. -/
def WebSocket.establish (ws : WebSocket) : WebSocket :=
  if ws.readyState = .connecting then { ws with readyState := .open } else ws

/-- `WebSocket.close`: nothing happens to a socket that is closing or closed. -/
def WebSocket.startClosing (ws : WebSocket) : WebSocket :=
  if ws.readyState = .connecting ∨ ws.readyState = .open then { ws with readyState := .closing }
  else ws

/-- The connection has ended. -/
def WebSocket.finish (ws : WebSocket) : WebSocket := { ws with readyState := .closed }

/-- `WebSocket.send`. -/
def WebSocket.write (ws : WebSocket) (frame : ClientFrame) : WebSocket :=
  { ws with sent := ws.sent ++ [frame] }

/-- What a timer calls. -/
inductive TimerCallback where
  /-- `this.open()`. -/
  | reopen
  /-- `this.send(buildPingFrame())`, again and again. -/
  | heartbeat
  /-- `this.refreshCycleCount = 0`. -/
  | stable
deriving DecidableEq

/-- A timer that is set. -/
structure Timer where
  id : ℕ
  callback : TimerCallback
  delayMs : ℕ
deriving DecidableEq

structure Options where
  initialMs : ℕ
  maxMs : ℕ
  factor : ℕ
  heartbeatIntervalMs : ℕ
  minStableConnectionMs : ℕ
  maxConsecutiveRefreshCycles : ℕ

/-- `DEFAULT_BACKOFF` and the other defaults. -/
def defaultOptions : Options where
  initialMs := 500
  maxMs := 15000
  factor := 2
  heartbeatIntervalMs := 20000
  minStableConnectionMs := 10000
  maxConsecutiveRefreshCycles := 3

/-- The fields of the client, and the sockets, timers and refreshes around it. -/
structure State where
  /-- `this.socket`, as its number in `sockets`. -/
  socket : Option ℕ
  status : WsStatus
  manuallyClosed : Bool
  destroyed : Bool
  openedThisAttempt : Bool
  reconnectAttempt : ℕ
  reconnectTimer : Option ℕ
  heartbeatTimer : Option ℕ
  refreshCycleCount : ℕ
  stableTimer : Option ℕ
  /-- Keyed by `conversationTopicKey`, which is injective. -/
  joined : List ConversationTarget
  /-- Every socket created, in order. -/
  sockets : List WebSocket
  timers : List Timer
  nextTimer : ℕ
  /-- The calls of `refreshAccessToken` that have not completed. -/
  refreshes : ℕ
  /-- The calls of `onStatusChange` and of `onFatal`. -/
  statusChanges : List WsStatus
  fatals : List StopReason
deriving DecidableEq

/-- `new ReconnectingSocket(options)`. -/
def fresh : State where
  socket := none
  status := .closed
  manuallyClosed := false
  destroyed := false
  openedThisAttempt := false
  reconnectAttempt := 0
  reconnectTimer := none
  heartbeatTimer := none
  refreshCycleCount := 0
  stableTimer := none
  joined := []
  sockets := []
  timers := []
  nextTimer := 1
  refreshes := 0
  statusChanges := []
  fatals := []

namespace State

variable (o : Options) (token : Option AccessToken) (s : State)

def setStatus (status : WsStatus) : State :=
  if s.status = status then s
  else { s with status := status, statusChanges := s.statusChanges ++ [status] }

def onFatal (reason : StopReason) : State := { s with fatals := s.fatals ++ [reason] }

/-- `setTimeout`, or `setInterval` for the heartbeat. -/
def setTimer (callback : TimerCallback) (delayMs : ℕ) : State :=
  { s with timers := s.timers ++ [⟨s.nextTimer, callback, delayMs⟩], nextTimer := s.nextTimer + 1 }

/-- `clearTimeout` and `clearInterval`, where the field is set. -/
def clear (timer : Option ℕ) : State :=
  { s with timers := s.timers.filter fun t => timer ≠ some t.id }

def clearTimers : State :=
  { ((s.clear s.reconnectTimer).clear s.heartbeatTimer).clear s.stableTimer with
    reconnectTimer := none, heartbeatTimer := none, stableTimer := none }

/-- `open()`; `token` is what `getAccessToken` returns. -/
def openSocket : State :=
  match token with
  | none => s.setStatus .closed
  | some token =>
    let s := s.setStatus (if 0 < s.reconnectAttempt then .reconnecting else .connecting)
    { s with
      openedThisAttempt := false
      sockets := s.sockets ++ [⟨token, .connecting, []⟩]
      socket := some s.sockets.length }

def connect : State := ({ s with manuallyClosed := false, destroyed := false }).openSocket token

/-- Something happens to socket `i`. -/
def onSocket (i : ℕ) (f : WebSocket → WebSocket) : State :=
  { s with sockets := s.sockets.modify i f }

def send (frame : ClientFrame) : State :=
  match s.socket with
  | none => s
  | some i =>
    if (s.sockets[i]?.map WebSocket.readyState) = some .open then s.onSocket i (·.write frame) else s

def join (conversation : ConversationTarget) : State :=
  ({ s with joined := if conversation ∈ s.joined then s.joined else s.joined ++ [conversation]
    }).send (.join conversation)

def leave (conversation : ConversationTarget) : State :=
  ({ s with joined := s.joined.filter (· ≠ conversation) }).send (.leave conversation)

def sendTyping (conversation : ConversationTarget) : State := s.send (.typing conversation)

def disconnect : State :=
  let s := ({ s with manuallyClosed := true }).clearTimers
  match s.socket with
  | none => s
  | some i => s.onSocket i WebSocket.startClosing

def destroy : State := ({ s with destroyed := true }).disconnect

def startHeartbeat : State :=
  { s.setTimer .heartbeat o.heartbeatIntervalMs with heartbeatTimer := some s.nextTimer }

def handleOpen : State :=
  let s := { s with reconnectAttempt := 0, openedThisAttempt := true }
  let s := s.setStatus .open
  let s := s.joined.foldl (fun s conversation => s.send (.join conversation)) s
  let s := s.startHeartbeat o
  { s.setTimer .stable o.minStableConnectionMs with stableTimer := some s.nextTimer }

def scheduleReconnect : State :=
  let s := s.setStatus .reconnecting
  let delay := min (o.initialMs * o.factor ^ s.reconnectAttempt) o.maxMs
  let s := { s with reconnectAttempt := s.reconnectAttempt + 1 }
  { s.setTimer .reopen delay with reconnectTimer := some s.nextTimer }

/-- `refreshAndReconnect()` up to its `await`. -/
def refreshAndReconnect : State := { s with refreshes := s.refreshes + 1 }

def handleClose (code : ℕ) : State :=
  let s := s.clearTimers
  let wasManual := s.manuallyClosed
  let openedBeforeThisClose := s.openedThisAttempt
  if s.destroyed then s.setStatus .closed
  else
    let action := classifyCloseCode code wasManual
    -- a connection that never opened may have been refused with a code the browser hides
    let action :=
      if !wasManual ∧ !openedBeforeThisClose ∧ action = .reconnect then .refreshAndReconnect
      else action
    match action with
    | .stop reason =>
      let s := s.setStatus .closed
      if reason ≠ .clientInitiated then s.onFatal reason else s
    | .refreshAndReconnect => (s.setStatus .reconnecting).refreshAndReconnect
    | .reconnect => s.scheduleReconnect o

/-- How `refreshAccessToken` completes: it resolves, is rejected with a 401 or 403, or fails for
another reason. -/
inductive RefreshOutcome where
  | success
  | rejected
  | transientFailure
deriving DecidableEq

/-- `refreshAndReconnect()` after its `await`. -/
def refreshed (outcome : RefreshOutcome) : State :=
  match outcome with
  | .rejected => if s.destroyed then s else (s.setStatus .closed).onFatal .authFailed
  | .transientFailure => if s.destroyed then s else s.scheduleReconnect o
  | .success =>
    if s.destroyed ∨ s.manuallyClosed then s
    else
      let s := { s with refreshCycleCount := s.refreshCycleCount + 1 }
      if o.maxConsecutiveRefreshCycles < s.refreshCycleCount then
        (s.clearTimers.setStatus .closed).onFatal .authFailed
      else
        let s := { s with reconnectAttempt := 0 }
        if s.refreshCycleCount = 1 then s.openSocket token
        else
          let delay := min (o.initialMs * o.factor ^ (s.refreshCycleCount - 2)) o.maxMs
          { s.setTimer .reopen delay with reconnectTimer := some s.nextTimer }

end State

/-! ### Events -/

inductive Event where
  | join (conversation : ConversationTarget)
  | leave (conversation : ConversationTarget)
  | sendTyping (conversation : ConversationTarget)
  | disconnect
  | destroy
  | socketOpen (i : ℕ)
  | socketError (i : ℕ)
  | socketClose (i : ℕ) (code : ℕ)
  /-- A timer fires; `token` is what `getAccessToken` returns then. -/
  | fire (id : ℕ) (token : Option AccessToken)
  | refreshed (outcome : State.RefreshOutcome) (token : Option AccessToken)
deriving DecidableEq

/-- Socket `i` exists and has not closed. -/
def State.Unclosed (s : State) (i : ℕ) : Prop :=
  ∃ ws, s.sockets[i]? = some ws ∧ ws.readyState ≠ .closed

instance (s : State) (i : ℕ) : Decidable (s.Unclosed i) :=
  match h : s.sockets[i]? with
  | none => .isFalse fun ⟨_, hw, _⟩ => nomatch h.symm.trans hw
  | some ws =>
    if hc : ws.readyState = .closed then .isFalse fun ⟨_, hw, hne⟩ => hne <| by
      cases h.symm.trans hw
      exact hc
    else .isTrue ⟨ws, h, hc⟩

/-- What happens; `none` where it cannot. -/
def step (o : Options) (s : State) : Event → Option State
  | .join conversation => some (s.join conversation)
  | .leave conversation => some (s.leave conversation)
  | .sendTyping conversation => some (s.sendTyping conversation)
  | .disconnect => some s.disconnect
  | .destroy => some s.destroy
  | .socketOpen i =>
    if s.Unclosed i then some ((s.onSocket i WebSocket.establish).handleOpen o) else none
  | .socketError i => if s.Unclosed i then some s else none
  | .socketClose i code =>
    if s.Unclosed i then some ((s.onSocket i WebSocket.finish).handleClose o code) else none
  | .fire id token =>
    match s.timers.find? fun t => t.id = id with
    | none => none
    | some t =>
      match t.callback with
      | .heartbeat => some (s.send .ping)
      | .reopen => some ((s.clear (some id)).openSocket token)
      | .stable => some { s.clear (some id) with refreshCycleCount := 0 }
  | .refreshed outcome token =>
    if 0 < s.refreshes then
      some (({ s with refreshes := s.refreshes - 1 }).refreshed o token outcome)
    else none

end Chatspace.SocketClient
