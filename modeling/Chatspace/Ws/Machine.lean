import Chatspace.Backend.Machine
import Chatspace.Interleave.Moments
import Chatspace.Store.Counters

/-!
# The machine the WebSocket endpoint runs on

Any number of instances, each with its own connection manager, over one Redis that holds the
presence counters, one database column (`users.last_seen`) and one clock, in milliseconds.  A
connection is the process that serves it; `inst t` is the instance process `t` runs on.  What a
client sends, and what `authenticate_connect`, `revalidate_connection` and
`authorize_conversation` find in the database, are answers of the environment.

An awaited operation may raise with effect (`Choice.lost`) or without (`Choice.fail`).  An instance
that crashes loses its connections and open transactions, and none of its processes goes on.  Redis
restarts empty (`wipe`), or with what it held when it last saved.

* `incrementAndExpireScript`, `heartbeatRenewScript`, `decrementAndFloorScript` — the counters'
  scripts;
* `machine` — what every operation does;
* `exec_eq_some` — what a step can have done;
* `Async` — the coroutines, with `redis_fail_open` and `_db_session`.
-/

namespace Chatspace.Ws

open Interleave Store

/-! ### Frames -/

/-- Close codes. -/
inductive WSCloseCode where
  | normalClosure
  | goingAway
  | authFailed
  | tokenExpired
  | tokenRevoked
  | userDeactivated
  | heartbeatTimeout
  | rateLimited
deriving DecidableEq

/-- Client to server. -/
inductive ClientFrame where
  | join (conversation : ConversationRef)
  | leave (conversation : ConversationRef)
  | typing (conversation : ConversationRef)
  | ping
deriving DecidableEq

/-- What the endpoint itself sends. -/
inductive ServerFrame where
  | error (code detail : String)
  | pong
deriving DecidableEq

/-- What a read of the socket ends in; a frame that `client_frame_adapter` rejects is `none`. -/
inductive Received where
  | timeout
  | disconnect
  | frame (frame : Option ClientFrame)
deriving DecidableEq

/-- The topic, or the code and the detail of the error frame. -/
abbrev ConversationAuthResult (Topic : Type) : Type := Except (String × String) Topic

/-! ### Events -/

inductive PresenceState where
  | online
  | offline
deriving DecidableEq

structure PresenceEvent where
  userId : UserId
  state : PresenceState
  lastSeen : Option Time
deriving DecidableEq

structure TypingEvent where
  userId : UserId
  conversation : ConversationRef
deriving DecidableEq

/-- A published envelope with its topic; `presence` goes to `presence:{user_id}`. -/
inductive Published where
  | presence (userId : UserId) (event : PresenceEvent)
  | typing (topic : Topic) (event : TypingEvent)
deriving DecidableEq

/-! ### The scripts of the presence service -/

/-- `presence:conn_count:{user_id}`. -/
abbrev PresenceCounters : Type := Counters UserId

/-- Seconds on the clock. -/
def seconds (n : ℕ) : Time := 1000 * n

section Scripts

variable (m : PresenceCounters) (now : Time) (userId : UserId)

/-- `_INCREMENT_AND_EXPIRE_SCRIPT`. -/
def incrementAndExpireScript (ttlSeconds : ℕ) : ℤ × PresenceCounters :=
  let a := m.incr now userId
  (a.1, a.2.expire now userId (seconds ttlSeconds))

/-- `_HEARTBEAT_RENEW_SCRIPT`. -/
def heartbeatRenewScript (ttlSeconds : ℕ) : ℤ × PresenceCounters :=
  let existed := (m.lookup now userId).isSome
  let m' := if existed then m else (m.incr now userId).2
  (if existed then 1 else 0, m'.expire now userId (seconds ttlSeconds))

/-- `_DECREMENT_AND_FLOOR_SCRIPT`. -/
def decrementAndFloorScript : ℤ × PresenceCounters :=
  match m.lookup now userId with
  | none => (0, m)
  | some raw =>
    let n := raw.value - 1
    if n ≤ 0 then (0, m.del userId) else (n, m.setKeepTtl now userId n)

variable {ttlSeconds : ℕ}

/-- A connect adds one and sets the time to live. -/
theorem incrementAndExpireScript_eq (ht : 0 < ttlSeconds) :
    incrementAndExpireScript m now userId ttlSeconds =
      ((m.lookup now userId).elim 0 Counter.value + 1,
        m.put userId (some ⟨(m.lookup now userId).elim 0 Counter.value + 1,
          some (now + seconds ttlSeconds)⟩)) := by
  obtain ⟨d, hd, hn, hm⟩ := Counters.incr_eq m now userId
  have hpos : 0 < seconds ttlSeconds := Nat.mul_pos (by decide) ht
  have he : (m.incr now userId).2.expire now userId (seconds ttlSeconds) =
      m.put userId (some ⟨(m.incr now userId).1, some (now + seconds ttlSeconds)⟩) := by
    rw [hm, Counters.expire_eq (Counters.lookup_put hd) hpos, Counters.put_put]
  simp only [incrementAndExpireScript, he, hn]

/-- A heartbeat counts itself when nothing is there, and sets the time to live. -/
theorem heartbeatRenewScript_eq (ht : 0 < ttlSeconds) :
    (heartbeatRenewScript m now userId ttlSeconds).2 =
      m.put userId (some ⟨(m.lookup now userId).elim 1 Counter.value,
        some (now + seconds ttlSeconds)⟩) := by
  have hpos : 0 < seconds ttlSeconds := Nat.mul_pos (by decide) ht
  cases h : m.lookup now userId with
  | some e => simp [heartbeatRenewScript, h, Counters.expire_eq h hpos]
  | none =>
    obtain ⟨d, hd, hn, hm⟩ := Counters.incr_eq m now userId
    rw [h] at hn
    simp only [heartbeatRenewScript, h, Option.isSome_none, Bool.false_eq_true, if_false, hm]
    rw [Counters.expire_eq (Counters.lookup_put hd) hpos, Counters.put_put, hn]
    rfl

/-- A disconnect removes the counter or takes one off, and leaves the deadline. -/
theorem decrementAndFloorScript_eq :
    (decrementAndFloorScript m now userId = (0, m) ∧ m.lookup now userId = none) ∨
    ∃ e, m.lookup now userId = some e ∧
      ((e.value ≤ 1 ∧ decrementAndFloorScript m now userId = (0, m.put userId none)) ∨
        (1 < e.value ∧ decrementAndFloorScript m now userId =
          (e.value - 1, m.put userId (some ⟨e.value - 1, e.deadline⟩)))) := by
  cases h : m.lookup now userId with
  | none => exact .inl ⟨by simp [decrementAndFloorScript, h], rfl⟩
  | some e =>
    refine .inr ⟨e, rfl, ?_⟩
    by_cases he : e.value ≤ 1
    · refine .inl ⟨he, ?_⟩
      have hn : e.value - 1 ≤ 0 := by omega
      unfold decrementAndFloorScript
      rw [h]
      show (if e.value - 1 ≤ 0 then _ else _) = _
      rw [if_pos hn, Counters.del]
    · refine .inr ⟨by omega, ?_⟩
      have hn : ¬ e.value - 1 ≤ 0 := by omega
      have hkeep : m.setKeepTtl now userId (e.value - 1) =
          m.put userId (some ⟨e.value - 1, e.deadline⟩) := by
        rw [Counters.setKeepTtl, h]
        rfl
      unfold decrementAndFloorScript
      rw [h]
      show (if e.value - 1 ≤ 0 then _ else _) = _
      rw [if_neg hn, hkeep]

end Scripts

/-! ### Operations -/

/-- What a coroutine of the endpoint awaits, or asks of the connection manager and the clocks. -/
inductive Op where
  /-- `authenticate_connect`. -/
  | authenticate
  | accept
  | close (code : WSCloseCode)
  | sendJson (frame : ServerFrame)
  /-- `_receive_frame_dict`, waiting until the deadline. -/
  | receive (deadline : Time)
  /-- `authorize_conversation`. -/
  | authorizeConversation (conversation : ConversationRef) (callerId : UserId)
  /-- `revalidate_connection`. -/
  | revalidate
  | register (userId : UserId)
  | unregister
  | subscribe (topic : Topic)
  | unsubscribe (topic : Topic)
  | monotonic
  | utcNow
  | incrementAndExpire (userId : UserId) (ttlSeconds : ℕ)
  | heartbeatRenew (userId : UserId) (ttlSeconds : ℕ)
  | decrementAndFloor (userId : UserId)
  | redisGet (userId : UserId)
  | redisPublish (event : Published)
  /-- `update(User).where(User.id == user_id).values(last_seen=…)`. -/
  | updateLastSeen (userId : UserId) (lastSeen : Time)
  | commit
  | rollback
deriving DecidableEq

abbrev Op.Res : Op → Type
  | .authenticate => UserId
  | .receive _ => Received
  | .authorizeConversation .. => ConversationAuthResult Topic
  | .revalidate => Option WSCloseCode
  | .monotonic | .utcNow => Time
  | .incrementAndExpire .. | .heartbeatRenew .. | .decrementAndFloor _ => ℤ
  | .redisGet _ => Option ℤ
  | .accept | .close _ | .sendJson _ | .register _ | .unregister | .subscribe _ | .unsubscribe _
  | .redisPublish _ | .updateLastSeen .. | .commit | .rollback => Unit

/-- Synchronous code does not raise. -/
def Op.awaits : Op → Bool
  | .register _ | .unregister | .subscribe _ | .unsubscribe _ | .monotonic | .utcNow => false
  | _ => true

/-- The environment's part of a step. -/
inductive Choice where
  | ok
  | authenticated (userId : UserId)
  | received (r : Received)
  | authorized (r : ConversationAuthResult Topic)
  | revalidated (r : Option WSCloseCode)
  | fail (e : Exc)
  | lost (e : Exc)

/-- The operation is done, and says so. -/
def Choice.Succeeds : Choice → Prop
  | .fail _ | .lost _ => False
  | _ => True

/-- An entry of a connection manager. -/
structure ConnectionState where
  userId : UserId
  subscribedTopics : List Topic
deriving DecidableEq

structure State (T I : Type) where
  clock : Time
  redis : PresenceCounters
  /-- What Redis finds on its disk when it starts again. -/
  saved : PresenceCounters
  /-- The connection managers: connection `t` is an entry of that of its instance. -/
  connections : T → Option ConnectionState
  crashed : I → Bool
  /-- The uncommitted update of each transaction. -/
  pending : T → Option (UserId × Time)
  /-- `users.last_seen`. -/
  lastSeen : UserId → Option Time
  published : List Published

/-- The state with the history of operations. -/
abbrev WsWorld (T I : Type) : Type := World T Op Op.Res Exc (State T I)

/-- What happens outside every process. -/
inductive WsEvent (I : Type) where
  | tick (ms : ℕ)
  | crash (instance_ : I)
  | wipe
  | save
  | restart

section Machine

variable {T I : Type} [DecidableEq T] [DecidableEq I]

/-- Operation `o` of process `t`, when it is done. -/
def Op.done (t : T) : (o : Op) → Choice → State T I → Option (o.Res × State T I)
  | .authenticate, .authenticated userId, s => some (userId, s)
  | .accept, .ok, s => some ((), s)
  | .close _, .ok, s => some ((), s)
  | .sendJson _, .ok, s => some ((), s)
  | .receive deadline, .received .timeout, s =>
    if deadline ≤ s.clock then some (.timeout, s) else none
  | .receive deadline, .received r, s => if s.clock ≤ deadline then some (r, s) else none
  | .authorizeConversation .., .authorized r, s => some (r, s)
  | .revalidate, .revalidated r, s => some (r, s)
  | .register userId, .ok, s =>
    some ((), { s with connections := Function.update s.connections t (some ⟨userId, []⟩) })
  | .unregister, .ok, s => some ((), { s with connections := Function.update s.connections t none })
  | .subscribe topic, .ok, s =>
    some ((), { s with connections := Function.update s.connections t ((s.connections t).map
      fun c => { c with subscribedTopics := c.subscribedTopics.insert topic }) })
  | .unsubscribe topic, .ok, s =>
    some ((), { s with connections := Function.update s.connections t ((s.connections t).map
      fun c => { c with subscribedTopics := c.subscribedTopics.filter (· ≠ topic) }) })
  | .monotonic, .ok, s => some (s.clock, s)
  | .utcNow, .ok, s => some (s.clock, s)
  | .incrementAndExpire userId ttlSeconds, .ok, s =>
    let a := incrementAndExpireScript s.redis s.clock userId ttlSeconds
    some (a.1, { s with redis := a.2 })
  | .heartbeatRenew userId ttlSeconds, .ok, s =>
    let a := heartbeatRenewScript s.redis s.clock userId ttlSeconds
    some (a.1, { s with redis := a.2 })
  | .decrementAndFloor userId, .ok, s =>
    let a := decrementAndFloorScript s.redis s.clock userId
    some (a.1, { s with redis := a.2 })
  | .redisGet userId, .ok, s => some ((s.redis.lookup s.clock userId).map Counter.value, s)
  | .redisPublish event, .ok, s => some ((), { s with published := s.published ++ [event] })
  | .updateLastSeen userId lastSeen, .ok, s =>
    some ((), { s with pending := Function.update s.pending t (some (userId, lastSeen)) })
  | .commit, .ok, s =>
    some ((), { s with
      pending := Function.update s.pending t none
      lastSeen := (s.pending t).elim s.lastSeen fun x => Function.update s.lastSeen x.1 x.2 })
  | .rollback, .ok, s => some ((), { s with pending := Function.update s.pending t none })
  | _, _, _ => none

/-- One operation of process `t`. -/
def Op.exec (inst : T → I) (t : T) (o : Op) (c : Choice) (s : State T I) :
    Option (Except Exc o.Res × State T I) :=
  if s.crashed (inst t) then none
  else match c with
    | .fail e => if o.awaits then some (.error e, s) else none
    | .lost e => if o.awaits then (o.done t .ok s).map fun a => (.error e, a.2) else none
    | c => (o.done t c s).map fun a => (.ok a.1, a.2)

/-- An event. -/
def WsEvent.happen (inst : T → I) : WsEvent I → State T I → State T I
  | .tick ms, s => { s with clock := s.clock + ms }
  | .crash i, s =>
    { s with
      crashed := Function.update s.crashed i true
      connections := fun t => if inst t = i then none else s.connections t
      pending := fun t => if inst t = i then none else s.pending t }
  | .wipe, s => { s with redis := .empty, saved := .empty }
  | .save, s => { s with saved := s.redis }
  | .restart, s => { s with redis := s.saved }

/-- The instances and what they share. -/
def machine (inst : T → I) : Machine T Op Op.Res Exc Choice (WsEvent I) (State T I) where
  exec := Op.exec inst
  event e s := some (e.happen inst s)

/-- Nobody has connected yet. -/
def State.initial (clock : Time) (lastSeen : UserId → Option Time) : State T I where
  clock := clock
  redis := .empty
  saved := .empty
  connections _ := none
  crashed _ := false
  pending _ := none
  lastSeen := lastSeen
  published := []

variable {inst : T → I} {t : T} {o : Op} {c : Choice} {s s' : State T I} {r : Except Exc o.Res}

/-- A step of a process whose instance is up leaves the state as it was, or does the operation;
it does the operation when it answers. -/
theorem exec_eq_some (h : (machine inst).exec t o c s = some (r, s')) :
    s.crashed (inst t) = false ∧
      ((∃ v c, r = .ok v ∧ o.done t c s = some (v, s')) ∨
        ∃ e, r = .error e ∧ o.awaits = true ∧
          (s' = s ∨ ∃ v, o.done t .ok s = some (v, s'))) := by
  simp only [machine, Op.exec] at h
  split at h
  · cases h
  · rename_i hc
    refine ⟨by simpa using hc, ?_⟩
    split at h
    · rename_i e
      split at h
      · rename_i ho
        cases h
        exact .inr ⟨e, rfl, ho, .inl rfl⟩
      · cases h
    · rename_i e
      split at h
      · rename_i ho
        obtain ⟨a, ha, hs⟩ := Option.map_eq_some_iff.mp h
        cases hs
        exact .inr ⟨e, rfl, ho, .inr ⟨a.1, ha⟩⟩
      · cases h
    · obtain ⟨a, ha, hs⟩ := Option.map_eq_some_iff.mp h
      cases hs
      exact .inl ⟨a.1, c, rfl, ha⟩

/-- An operation that the environment does not make fail takes effect. -/
theorem done_of_exec (h : (machine inst).exec t o c s = some (r, s')) (hc : ∀ e, c ≠ .fail e) :
    ∃ v c, o.done t c s = some (v, s') := by
  simp only [machine, Op.exec] at h
  split at h
  · cases h
  · split at h
    · rename_i e
      exact absurd rfl (hc e)
    · split at h
      · obtain ⟨a, ha, hs⟩ := Option.map_eq_some_iff.mp h
        cases hs
        exact ⟨a.1, .ok, ha⟩
      · cases h
    · obtain ⟨a, ha, hs⟩ := Option.map_eq_some_iff.mp h
      cases hs
      exact ⟨a.1, c, ha⟩

instance (c : Choice) : Decidable c.Succeeds :=
  match c with
  | .fail _ | .lost _ => .isFalse id
  | .ok | .authenticated _ | .received _ | .authorized _ | .revalidated _ => .isTrue trivial

/-- What an operation that succeeds answers is what it did. -/
theorem ok_of_succeeds (hC : c.Succeeds)
    (h : (machine inst).exec t o c s = some (r, s')) :
    ∃ v c, r = .ok v ∧ o.done t c s = some (v, s') := by
  simp only [machine, Op.exec] at h
  split at h
  · cases h
  · split at h
    · exact hC.elim
    · exact hC.elim
    · obtain ⟨a, ha, hs⟩ := Option.map_eq_some_iff.mp h
      cases hs
      exact ⟨a.1, c, rfl, ha⟩

/-- An operation that takes effect, whatever it answers. -/
theorem effect_of_exec (h : (machine inst).exec t o c s = some (r, s')) :
    s' = s ∨ ∃ v c, o.done t c s = some (v, s') := by
  obtain ⟨-, ⟨v, c, -, hd⟩ | ⟨e, -, -, rfl | ⟨v, hd⟩⟩⟩ := exec_eq_some h
  · exact .inr ⟨v, c, hd⟩
  · exact .inl rfl
  · exact .inr ⟨v, .ok, hd⟩

end Machine

/-! ### Coroutines -/

/-- A coroutine of the endpoint. -/
abbrev Async (α : Type) : Type := Prog Op Op.Res Exc α

variable {α : Type}

/-- `redis_fail_open`: a transport error is answered with the default. -/
def redisFailOpen (call : Async α) (default : α) : Async α :=
  call.handle fun e => if e.isTransport then .ret default else .raise e

/-- `_db_session` around an operation: commit after it, roll back on any `Exception`, always close
(which rolls back what is left). -/
def dbSession (body : Async α) : Async α :=
  Prog.tryFinally
    ((body.bind fun a => (Prog.perform Op.commit).bind fun _ => .ret a).handle fun e =>
      if e.isException then (Prog.perform Op.rollback).bind fun _ => .raise e else .raise e)
    (Prog.perform Op.rollback)

variable {P : Op → Prop}

theorem only_redisFailOpen {call : Async α} (default : α) (h : call.Only P) :
    (redisFailOpen call default).Only P := by
  refine h.handle fun e => ?_
  split <;> trivial

theorem only_dbSession {body : Async α} (h : body.Only P) (hc : P .commit) (hr : P .rollback) :
    (dbSession body).Only P := by
  refine Prog.Only.tryFinally (Prog.Only.handle ?_ fun e => ?_) (Prog.only_perform hr)
  · exact h.bind fun a => (Prog.only_perform hc).bind fun _ => trivial
  · split
    · exact (Prog.only_perform hr).bind fun _ => trivial
    · trivial

variable {T I : Type} [DecidableEq T] [DecidableEq I] {inst : T → I} {K : Contract (machine inst)}
  {t : T} {A B : WsWorld T I → Prop} {Q : α → WsWorld T I → Prop} {R : Exc → WsWorld T I → Prop}

/-- A transport error counts as the default. -/
theorem safe_redisFailOpen {call : Async α} {default : α} (h : K.Safe t call A Q R)
    (hd : ∀ e w, e.isTransport = true → K.inv w → R e w → Q default w) :
    K.Safe t (redisFailOpen call default) A Q R := by
  refine h.handle fun e => ?_
  split
  · rename_i he
    exact fun w hi hw => hd e w he hi hw
  · exact fun w _ hw => hw

/-- What holds after the operation, however it ends, and is kept by a commit and a rollback, holds
after the session. -/
theorem safe_dbSession {body : Async α} (h : K.Safe t body A (fun _ => B) fun _ => B)
    (hB : K.Stable t B) (hc : K.StepOk t B .commit fun _ => B)
    (hr : K.StepOk t B .rollback fun _ => B) :
    K.Safe t (dbSession body) A (fun _ => B) fun _ => B := by
  have hcommit : K.Safe t (Prog.perform Op.commit : Async Unit) B (fun _ => B) fun _ => B :=
    Contract.Safe.only (P := (· = .commit)) (Prog.only_perform rfl) hB fun o ho => ho ▸ hc
  have hroll : K.Safe t (Prog.perform Op.rollback : Async Unit) B (fun _ => B) fun _ => B :=
    Contract.Safe.only (P := (· = .rollback)) (Prog.only_perform rfl) hB fun o ho => ho ▸ hr
  refine Contract.Safe.tryFinally (Q := fun _ => B) (R := fun _ => B) ?_ (fun _ => hroll)
    fun _ => hroll
  refine Contract.Safe.handle (R := fun _ => B) ?_ fun e => ?_
  · exact h.bind fun a => hcommit.bind fun _ w _ hw => hw
  · split
    · exact hroll.bind fun _ w _ hw => hw
    · exact fun w _ hw => hw

end Chatspace.Ws
