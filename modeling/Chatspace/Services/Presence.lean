import Chatspace.Ws.Machine

/-!
# The presence service

* `isOnline` — reads the count;
* `handleConnect`, `handleHeartbeat`, `handleDisconnect` — keep it.
-/

namespace Chatspace.Ws.Presence

open Interleave

def buildPresenceEvent (userId : UserId) (state : PresenceState) (lastSeen : Option Time) :
    PresenceEvent := ⟨userId, state, lastSeen⟩

/-- `_publish`. -/
def publish (event : PresenceEvent) (userId : UserId) : Async Unit :=
  redisFailOpen (Prog.perform (Op.redisPublish (.presence userId event))) ()

def isOnline (userId : UserId) : Async Bool :=
  redisFailOpen
    ((Prog.perform (Op.redisGet userId)).bind fun raw => .ret (raw.any fun n => 0 < n)) false

def handleConnect (userId : UserId) (ttlSeconds : ℕ) : Async Unit := do
  let count ← redisFailOpen (Prog.perform (Op.incrementAndExpire userId ttlSeconds)) 0
  if count = 1 then
    publish (buildPresenceEvent userId .online none) userId
  else return ()

def handleHeartbeat (userId : UserId) (ttlSeconds : ℕ) : Async Unit :=
  redisFailOpen ((Prog.perform (Op.heartbeatRenew userId ttlSeconds)).bind fun _ => .ret ()) ()

def handleDisconnect (userId : UserId) : Async Unit := do
  let count ← redisFailOpen (Prog.perform (Op.decrementAndFloor userId)) 0
  if 0 < count then return ()
  else
    let lastSeen ← Prog.perform Op.utcNow
    Prog.perform (Op.updateLastSeen userId lastSeen)
    Prog.perform Op.commit
    publish (buildPresenceEvent userId .offline (some lastSeen)) userId

/-! ### What they perform -/

variable {P : Op → Prop} {userId : UserId} {ttlSeconds : ℕ}

theorem only_publish {event : PresenceEvent} (h : P (.redisPublish (.presence userId event))) :
    (publish event userId).Only P :=
  only_redisFailOpen () (Prog.only_perform h)

theorem only_handleConnect (hi : P (.incrementAndExpire userId ttlSeconds))
    (hp : P (.redisPublish (.presence userId (buildPresenceEvent userId .online none)))) :
    (handleConnect userId ttlSeconds).Only P := by
  refine Prog.Only.bind (only_redisFailOpen 0 (Prog.only_perform hi)) fun count => ?_
  split
  · exact only_publish hp
  · trivial

theorem only_handleHeartbeat (h : P (.heartbeatRenew userId ttlSeconds)) :
    (handleHeartbeat userId ttlSeconds).Only P :=
  only_redisFailOpen () ((Prog.only_perform h).bind fun _ => trivial)

theorem only_handleDisconnect (hd : P (.decrementAndFloor userId)) (hn : P .utcNow)
    (hu : ∀ lastSeen, P (.updateLastSeen userId lastSeen)) (hc : P .commit)
    (hp : ∀ event, P (.redisPublish (.presence userId event))) :
    (handleDisconnect userId).Only P := by
  refine Prog.Only.bind (only_redisFailOpen 0 (Prog.only_perform hd)) fun count => ?_
  split
  · trivial
  · exact (Prog.only_perform hn).bind fun lastSeen => (Prog.only_perform (hu lastSeen)).bind fun _ =>
      (Prog.only_perform hc).bind fun _ => only_publish (hp _)

end Chatspace.Ws.Presence
