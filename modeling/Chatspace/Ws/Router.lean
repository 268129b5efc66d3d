import Chatspace.Services.Messages
import Chatspace.Services.Presence

/-!
# The WebSocket endpoint

`websocketEndpoint` serves one connection: it authenticates, registers the connection, counts it,
acts on its frames until one of them ends it, and in every case unregisters the connection and
counts it out.  A run sees finitely many frames; `frames` bounds how many the connection reads.

* `FrameRateLimiter.recordAndCheck` — the abuse guard;
* `connectionLoop`, `websocketEndpoint`.
-/

namespace Chatspace.Ws

open Interleave Presence

/-- The part of the settings the endpoint reads; durations other than the time to live in
milliseconds. -/
structure Settings where
  presenceTtlSeconds : ℕ := 120
  presenceTtlSeconds_pos : 0 < presenceTtlSeconds := by decide
  wsHeartbeatTimeout : Time := 45000
  wsHeartbeatTimeout_pos : 0 < wsHeartbeatTimeout := by decide
  wsFrameRateLimitMaxFrames : ℕ := 30
  wsFrameRateLimitMaxFrames_pos : 0 < wsFrameRateLimitMaxFrames := by decide
  wsFrameRateLimitWindow : Time := 10000
  wsFrameRateLimitWindow_pos : 0 < wsFrameRateLimitWindow := by decide

def defaults : Settings := {}

/-! ### The frame rate -/

structure FrameRateLimiter where
  maxFrames : ℕ
  window : Time
  timestamps : List Time

/-- Whether the frame is over the limit. -/
def FrameRateLimiter.recordAndCheck (limiter : FrameRateLimiter) (now : Time) :
    Bool × FrameRateLimiter :=
  let timestamps := (limiter.timestamps ++ [now]).dropWhile fun x => x + limiter.window < now
  (limiter.maxFrames < timestamps.length, { limiter with timestamps })

/-! ### The endpoint -/

/-- The topic a `leave` frame names. -/
def topicFor (conversation : ConversationRef) (callerId : UserId) : Topic :=
  match conversation with
  | .channel channelId => .chan channelId
  | .dm userId => Messages.dmTopic callerId userId

/-- `_authenticate_and_accept`. -/
def authenticateAndAccept : Async (Option UserId) :=
  let authenticated : Async (Option UserId) :=
    ((dbSession (Prog.perform Op.authenticate)).bind fun userId => .ret (some userId)).handle
      fun e =>
        if e.isException then
          (Prog.perform (Op.close .authFailed)).bind fun _ => .ret none
        else .raise e
  authenticated.bind fun
    | none => .ret none
    | some userId => (Prog.perform Op.accept).bind fun _ => .ret (some userId)

def sendError (code detail : String) : Async Unit := Prog.perform (Op.sendJson (.error code detail))

/-- `authorize_conversation` in a session of its own. -/
def authorize (conversation : ConversationRef) (userId : UserId) :
    Async (ConversationAuthResult Topic) :=
  dbSession (Prog.perform (Op.authorizeConversation conversation userId))

/-- What a frame other than a `ping` does; the loop goes on with the same deadline. -/
def onFrame (userId : UserId) : ClientFrame → Async Unit
  | .join conversation => do
    match ← authorize conversation userId with
    | .error (code, detail) => sendError code detail
    | .ok topic => Prog.perform (Op.subscribe topic)
  | .leave conversation => Prog.perform (Op.unsubscribe (topicFor conversation userId))
  | .typing conversation => do
    match ← authorize conversation userId with
    | .error (code, detail) => sendError code detail
    | .ok topic =>
      redisFailOpen (Prog.perform (Op.redisPublish (.typing topic ⟨userId, conversation⟩))) ()
  | .ping => return ()

/-- What a `ping` does: the code to close the connection with, or a `pong`. -/
def onPing (settings : Settings) (userId : UserId) : Async (Option WSCloseCode) := do
  handleHeartbeat userId settings.presenceTtlSeconds
  let closeCode ← dbSession (Prog.perform Op.revalidate)
  match closeCode with
  | some code =>
    Prog.perform (Op.close code)
    return some code
  | none =>
    Prog.perform (Op.sendJson .pong)
    return none

def connectionLoop (settings : Settings) (userId : UserId) :
    (frames : ℕ) → FrameRateLimiter → (heartbeatDeadline : Time) → Async Unit
  | 0, _, _ => return ()
  | frames + 1, limiter, heartbeatDeadline => do
    let now ← Prog.perform Op.monotonic
    if heartbeatDeadline ≤ now then
      Prog.perform (Op.close .heartbeatTimeout)
    else
      match ← Prog.perform (Op.receive heartbeatDeadline) with
      | .timeout => Prog.perform (Op.close .heartbeatTimeout)
      | .disconnect => return ()
      | .frame frame =>
        let now ← Prog.perform Op.monotonic
        let (limited, limiter) := limiter.recordAndCheck now
        if limited then Prog.perform (Op.close .rateLimited)
        else
          match frame with
          | none =>
            sendError "invalid_frame" "Malformed or unrecognized frame."
            connectionLoop settings userId frames limiter heartbeatDeadline
          | some .ping =>
            let now ← Prog.perform Op.monotonic
            match ← onPing settings userId with
            | some _ => return ()
            | none =>
              connectionLoop settings userId frames limiter (now + settings.wsHeartbeatTimeout)
          | some frame =>
            onFrame userId frame
            connectionLoop settings userId frames limiter heartbeatDeadline

def websocketEndpoint (settings : Settings) (frames : ℕ) : Async Unit := do
  match ← authenticateAndAccept with
  | none => return ()
  | some userId =>
    Prog.perform (Op.register userId)
    Prog.tryFinally
      (do
        Prog.perform (Op.subscribe (.user userId))
        handleConnect userId settings.presenceTtlSeconds
        let now ← Prog.perform Op.monotonic
        connectionLoop settings userId frames
          ⟨settings.wsFrameRateLimitMaxFrames, settings.wsFrameRateLimitWindow, []⟩
          (now + settings.wsHeartbeatTimeout))
      (do
        Prog.perform Op.unregister
        dbSession (handleDisconnect userId))

/-! ### What they perform -/

/-- Operations that touch neither the count nor the registration of a connection. -/
def Op.routine : Op → Bool
  | .register _ | .unregister | .incrementAndExpire .. | .heartbeatRenew .. | .decrementAndFloor _
  | .redisGet _ | .redisPublish (.presence ..) | .updateLastSeen .. => false
  | _ => true

variable {P : Op → Prop} {settings : Settings} {userId : UserId}

theorem only_routine {o : Op} (hP : ∀ o, o.routine = true → P o) (ho : o.routine = true) :
    (Prog.perform o : Async _).Only P :=
  Prog.only_perform (hP o ho)

theorem only_authorize (hP : ∀ o, o.routine = true → P o) (conversation : ConversationRef) :
    (authorize conversation userId).Only P :=
  only_dbSession (only_routine hP rfl) (hP _ rfl) (hP _ rfl)

/-- It reads no clock. -/
theorem only_authenticateAndAccept (hP : ∀ o, o.routine = true → o ≠ .monotonic → P o) :
    authenticateAndAccept.Only P := by
  have hclose : P (.close .authFailed) := hP _ rfl nofun
  have haccept : P .accept := hP _ rfl nofun
  have hread : (dbSession (Prog.perform Op.authenticate)).Only P :=
    only_dbSession (Prog.only_perform (hP .authenticate rfl nofun)) (hP .commit rfl nofun)
      (hP .rollback rfl nofun)
  refine Prog.Only.bind (Prog.Only.handle (hread.bind fun _ => trivial) fun e => ?_)
    fun userId => ?_
  · split
    · exact (Prog.only_perform hclose).bind fun _ => trivial
    · trivial
  · cases userId with
    | none => trivial
    | some userId => exact (Prog.only_perform haccept).bind fun _ => trivial

theorem only_onFrame (hP : ∀ o, o.routine = true → P o) (frame : ClientFrame) :
    (onFrame userId frame).Only P := by
  cases frame with
  | join conversation =>
    refine Prog.Only.bind (only_authorize hP conversation) fun result => ?_
    cases result with
    | error e => exact only_routine hP rfl
    | ok topic => exact only_routine hP rfl
  | leave conversation => exact only_routine hP rfl
  | typing conversation =>
    refine Prog.Only.bind (only_authorize hP conversation) fun result => ?_
    cases result with
    | error e => exact only_routine hP rfl
    | ok topic => exact only_redisFailOpen () (only_routine hP rfl)
  | ping => trivial

theorem only_onPing (hP : ∀ o, o.routine = true → P o)
    (hh : P (.heartbeatRenew userId settings.presenceTtlSeconds)) :
    (onPing settings userId).Only P := by
  refine Prog.Only.bind (only_handleHeartbeat hh) fun _ =>
    Prog.Only.bind (only_dbSession (only_routine hP rfl) (hP _ rfl) (hP _ rfl)) fun closeCode => ?_
  cases closeCode with
  | none => exact (only_routine hP rfl).bind fun _ => trivial
  | some code => exact (only_routine hP rfl).bind fun _ => trivial

/-- The loop touches the count with its heartbeats only. -/
theorem only_connectionLoop (hP : ∀ o, o.routine = true → P o)
    (hh : P (.heartbeatRenew userId settings.presenceTtlSeconds)) (frames : ℕ)
    (limiter : FrameRateLimiter) (heartbeatDeadline : Time) :
    (connectionLoop settings userId frames limiter heartbeatDeadline).Only P := by
  induction frames generalizing limiter heartbeatDeadline with
  | zero => trivial
  | succ frames ih =>
    refine Prog.Only.bind (only_routine hP rfl) fun now => ?_
    split
    · exact only_routine hP rfl
    · refine Prog.Only.bind (only_routine hP rfl) fun received => ?_
      cases received with
      | timeout => exact only_routine hP rfl
      | disconnect => trivial
      | frame frame =>
        refine Prog.Only.bind (only_routine hP rfl) fun now => ?_
        dsimp only
        split
        · exact only_routine hP rfl
        · split
          · exact Prog.Only.bind (only_routine hP rfl) fun _ => ih _ _
          · refine Prog.Only.bind (only_routine hP rfl) fun now =>
              Prog.Only.bind (only_onPing hP hh) fun closeCode => ?_
            cases closeCode with
            | none => exact ih _ _
            | some code => trivial
          · exact Prog.Only.bind (only_onFrame hP _) fun _ => ih _ _

end Chatspace.Ws
