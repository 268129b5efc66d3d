import Chatspace.Backend.Schema
import Chatspace.Interleave.RelyGuarantee
import Chatspace.Store.Expiring
import Mathlib.Data.List.Sort

/-!
# The machine the backend runs on

PostgreSQL at READ COMMITTED, one Redis, the mail relay, the object storage, the clock, and the
sources of ids and tokens, as a machine for the coroutines of every request on every instance.  A database statement that raises
has no effect; a Redis command that raises may have been carried out (`Choice.lost`).  Ids are new
(`generate_id`), and so are the digests of new random tokens.  An exception delivered at an await
is an answer of the operation awaited, `asyncio.CancelledError` included.

* `machine` — what every operation does;
* `exec_sql`, `exec_redisSetNx`, … — what each operation can have done;
* `Py` — the coroutines, with the SQLAlchemy calls the services make (`db.get`, `db.flush` of a
  changed, new or deleted object, `db.commit`, `SELECT … FOR UPDATE`).
-/

namespace Chatspace

open Interleave Store

/-- Exceptions. -/
inductive Exc where
  | cancelledError
  | dbError
  | integrityError
  /-- An `IntegrityError` that is no unique violation. -/
  | checkViolation
  | staleDataError
  | valueError
  | redisError
  | redisUnavailableError
  | httpException (status : ℕ)
  | channelNotFoundError
  | notChannelMemberError
  | invalidContentError
  | invalidMediaError
  | recipientNotFoundError
  | selfDMError
  | idempotencyResolutionTimeoutError
  | invalidCredentialsError
  | accountDeactivatedError
  | mustChangePasswordError
  | invalidRefreshTokenError
  | duplicateIdentityError
  | emailDeliveryError
  | mediaStorageError
  | messageNotFoundError
  | notMessageAuthorError
  | messageAlreadyDeletedError
  /-- What the library raises on a token it does not accept. -/
  | jwtError
  /-- `ExpiredTokenError` as well. -/
  | invalidTokenError
  | registrationFieldError (errors : List (String × String))
  | passwordPolicyError (errors : List (String × String))
  | bootstrapError (detail : String)
deriving DecidableEq

/-- Caught by `except Exception`; `asyncio.CancelledError` is not. -/
def Exc.isException : Exc → Bool
  | .cancelledError => false
  | _ => true

/-- Caught by `redis_fail_open` and `redis_fail_closed`. -/
def Exc.isTransport : Exc → Bool
  | .redisError => true
  | _ => false

inductive RedisKey where
  /-- `idem:message_send:{sender_id}:{idempotency_key}`. -/
  | idempotency (senderId : UserId) (idempotencyKey : Text)
  /-- `session:revocation:{session_id}`. -/
  | sessionRevocation (sessionId : SessionId)
deriving DecidableEq

inductive RedisValue where
  | uuid (id : ℕ)
  | text (s : Text)
deriving DecidableEq

/-- Pub/sub topics. -/
inductive Topic where
  | chan (channelId : ChannelId)
  | dm (least greatest : UserId)
  | user (userId : UserId)
deriving DecidableEq

/-- The conversation that an event is about, or that a frame names. -/
inductive ConversationOf (Id : Type) where
  | channel (channelId : Id)
  | dm (userId : Id)
deriving DecidableEq

abbrev ConversationRef : Type := ConversationOf ℕ

/-- Published envelopes. -/
inductive Event where
  | messageCreated (conversation : ConversationRef) (id : MessageId) (message : Message)
      (media : List (AttachmentId × Attachment))
  | messageEdited (conversation : ConversationRef) (id : MessageId) (message : Message)
      (media : List (AttachmentId × Attachment))
  | messageDeleted (conversation : ConversationRef) (id : MessageId) (deletedAt : Option Time)
  | memberAdded (channelId : ChannelId) (channel : Channel) (userId : UserId)
      (role : ChannelMemberRole) (joinedAt : Time) (memberCount : ℕ)
  | memberRemoved (channelId : ChannelId) (userId : UserId)
deriving DecidableEq

/-- What a coroutine awaits, or asks of the clock and of the random source. -/
inductive Op where
  | sql (o : Stmt schema)
  | redisGet (k : RedisKey)
  | redisSet (k : RedisKey) (v : RedisValue) (ex : ℕ)
  | redisSetNx (k : RedisKey) (v : RedisValue) (ex : ℕ)
  | redisDelete (k : RedisKey)
  | redisPublish (topic : Topic) (event : Event)
  | sendEmail
  | deleteObject (mediaId : AttachmentId)
  | sleep
  | utcNow
  | generateId
  | tokenUrlsafe

abbrev Op.Res : Op → Type
  | .sql o => o.Res
  | .redisGet _ => Option RedisValue
  | .redisSet .. => Unit
  | .redisSetNx .. => Bool
  | .redisDelete _ => Unit
  | .redisPublish .. => Unit
  | .sendEmail => Unit
  | .deleteObject _ => Unit
  | .sleep => Unit
  | .utcNow => Time
  | .generateId => ℕ
  | .tokenUrlsafe => RawToken

/-! ### Which operation it is -/

namespace Op

def isCommit : Op → Bool
  | .sql .commit => true
  | _ => false

def isRollback : Op → Bool
  | .sql .rollback => true
  | _ => false

def isSelect : Op → Bool
  | .sql (.select ..) => true
  | _ => false

def isPublish : Op → Bool
  | .redisPublish .. => true
  | _ => false

def isGenerateId : Op → Bool
  | .generateId => true
  | _ => false

/-- The row of table `τ` that an `UPDATE` writes, -/
def updated (τ : Tbl) : Op → Option τ.Key
  | .sql (.update τ' k _ _) => if h : τ' = τ then some (h ▸ k) else none
  | _ => none

/-- that an `INSERT` adds, -/
def inserted (τ : Tbl) : Op → Option τ.Key
  | .sql (.insert τ' k _) => if h : τ' = τ then some (h ▸ k) else none
  | _ => none

/-- and that a `DELETE` removes. -/
def deleted (τ : Tbl) : Op → Option τ.Key
  | .sql (.delete τ' k) => if h : τ' = τ then some (h ▸ k) else none
  | _ => none

/-- The condition of a `SELECT` from table `τ`. -/
def selected (τ : Tbl) : Op → Option (τ.Key → τ.Row → Bool)
  | .sql (.select τ' p) => if h : τ' = τ then some (h ▸ p) else none
  | _ => none

/-- What a `SET` writes, -/
def redisSets : Op → Option (RedisKey × RedisValue)
  | .redisSet k v _ => some (k, v)
  | _ => none

/-- and the key of a `SET … NX`. -/
def redisSetsNx : Op → Option RedisKey
  | .redisSetNx k _ _ => some k
  | _ => none

end Op

/-- The environment's part of a step: the operation is done (rows in this order; `value` is the
transaction's timestamp, the new id or the new token), or raises with or without effect. -/
inductive Choice where
  | ok (order : List ℕ) (value : ℕ)
  | fail (e : Exc)
  | lost (e : Exc)

def Choice.isOk : Choice → Bool
  | .ok .. => true
  | _ => false

theorem Choice.eq_ok {c : Choice} (h : c.isOk = true) : ∃ order value, c = .ok order value := by
  cases c with
  | ok order value => exact ⟨order, value, rfl⟩
  | fail e => cases h
  | lost e => cases h

/-- A statement that raises has no effect. -/
def Choice.sql : Choice → Store.Choice Exc
  | .ok order value => .ok order value
  | .fail e => .fail e
  | .lost e => .fail e

structure State (T : Type) where
  db : Db T schema
  redis : Expiring RedisKey RedisValue
  clock : Time
  ids : List ℕ
  tokens : List TokenHash
  published : List (Topic × Event)
  /-- The attachments whose object is no longer in storage. -/
  purged : List AttachmentId

/-- The backend's state with the history of its operations. -/
abbrev BackendWorld (T : Type) : Type := World T Op Op.Res Exc (State T)

/-- Time passes. -/
inductive Tick where
  | tick (n : ℕ)

section Machine

variable {T : Type} {α : Type}

/-- The answer `v` with state `s'`, or an exception with `s'` or with `s`. -/
def answer (c : Choice) (v : α) (s s' : State T) : Option (Except Exc α × State T) :=
  match c with
  | .ok .. => some (.ok v, s')
  | .fail e => some (.error e, s)
  | .lost e => some (.error e, s')

variable [DecidableEq T]

/-- One operation of process `t`. -/
def Op.exec (hash : RawToken → TokenHash) (t : T) :
    (o : Op) → Choice → State T → Option (Except Exc o.Res × State T)
  | .sql o, c, s => (Store.exec t o c.sql s.db).map fun a => (a.1, { s with db := a.2 })
  | .redisGet k, c, s => answer c (s.redis.get s.clock k) s s
  | .redisSet k v ex, c, s => answer c () s { s with redis := s.redis.set s.clock k v ex }
  | .redisSetNx k v ex, c, s =>
    answer c (s.redis.setNx s.clock k v ex).1 s
      { s with redis := (s.redis.setNx s.clock k v ex).2 }
  | .redisDelete k, c, s => answer c () s { s with redis := s.redis.delete k }
  | .redisPublish topic event, c, s =>
    answer c () s { s with published := s.published ++ [(topic, event)] }
  | .sendEmail, c, s => answer c () s s
  | .deleteObject mediaId, c, s => answer c () s { s with purged := mediaId :: s.purged }
  | .sleep, c, s => answer c () s s
  | .utcNow, .ok .., s => some (.ok s.clock, s)
  | .generateId, .ok _ n, s =>
    if n ∈ s.ids then none else some (.ok n, { s with ids := n :: s.ids })
  | .tokenUrlsafe, .ok _ n, s =>
    if hash n ∈ s.tokens then none else some (.ok n, { s with tokens := hash n :: s.tokens })
  | _, _, _ => none

/-- The backend, with the token digest `hash`. -/
def machine (T : Type) [DecidableEq T] (hash : RawToken → TokenHash) :
    Machine T Op Op.Res Exc Choice Tick (State T) where
  exec := Op.exec hash
  event := fun | .tick n, s => some { s with clock := s.clock + n }

/-- A state with these committed rows, and nothing else. -/
def State.ofRows (rows : (τ : Tbl) → List (τ.Key × τ.Row)) : State T where
  db τ := Table.ofRows (rows τ)
  redis := .empty
  clock := 0
  ids := []
  tokens := []
  published := []
  purged := []

/-! ### What each operation can have done -/

variable {hash : RawToken → TokenHash} {t : T} {c : Choice} {s s' : State T}

omit [DecidableEq T] in
theorem answer_eq_some {v : α} {r : Except Exc α} {s₁ : State T}
    (h : answer c v s s₁ = some (r, s')) :
    (r = .ok v ∧ s' = s₁) ∨ ∃ e, r = .error e ∧ (s' = s ∨ s' = s₁) := by
  cases c with
  | ok order value =>
    cases h
    exact .inl ⟨rfl, rfl⟩
  | fail e =>
    cases h
    exact .inr ⟨e, rfl, .inl rfl⟩
  | lost e =>
    cases h
    exact .inr ⟨e, rfl, .inr rfl⟩

theorem exec_sql {o : Stmt schema} {r : Except Exc o.Res}
    (h : (machine T hash).exec t (.sql o) c s = some (r, s')) :
    ∃ d, Store.exec t o c.sql s.db = some (r, d) ∧ s' = { s with db := d } := by
  obtain ⟨a, ha, hs⟩ := Option.map_eq_some_iff.mp h
  cases hs
  exact ⟨a.2, ha, rfl⟩

theorem exec_redisGet {k : RedisKey} {r : Except Exc (Option RedisValue)}
    (h : (machine T hash).exec t (.redisGet k) c s = some (r, s')) :
    s' = s ∧ ∀ v, r = .ok v → v = s.redis.get s.clock k := by
  obtain ⟨rfl, rfl⟩ | ⟨e, rfl, rfl | rfl⟩ := answer_eq_some h
  · refine ⟨rfl, fun v hv => ?_⟩
    cases hv
    rfl
  · exact ⟨rfl, nofun⟩
  · exact ⟨rfl, nofun⟩

theorem exec_redisSet {k : RedisKey} {v : RedisValue} {ex : ℕ} {r : Except Exc Unit}
    (h : (machine T hash).exec t (.redisSet k v ex) c s = some (r, s')) :
    (s' = s ∧ r ≠ .ok ()) ∨ s' = { s with redis := s.redis.set s.clock k v ex } := by
  obtain ⟨rfl, rfl⟩ | ⟨e, rfl, rfl | rfl⟩ := answer_eq_some h
  · exact .inr rfl
  · exact .inl ⟨rfl, nofun⟩
  · exact .inr rfl

theorem exec_redisSetNx {k : RedisKey} {v : RedisValue} {ex : ℕ} {r : Except Exc Bool}
    (h : (machine T hash).exec t (.redisSetNx k v ex) c s = some (r, s')) :
    (s' = s ∧ r ≠ .ok true) ∨
      (s.redis.get s.clock k = none ∧ r ≠ .ok false ∧
        s' = { s with redis := s.redis.set s.clock k v ex }) := by
  by_cases hk : s.redis.get s.clock k = none
  · have hset : s.redis.setNx s.clock k v ex = (true, s.redis.set s.clock k v ex) := if_pos hk
    obtain ⟨rfl, rfl⟩ | ⟨e, rfl, rfl | rfl⟩ := answer_eq_some h
    · exact .inr ⟨hk, by simp [hset], by rw [hset]⟩
    · exact .inl ⟨rfl, nofun⟩
    · exact .inr ⟨hk, nofun, by rw [hset]⟩
  · have hset : s.redis.setNx s.clock k v ex = (false, s.redis) := if_neg hk
    obtain ⟨rfl, rfl⟩ | ⟨e, rfl, rfl | rfl⟩ := answer_eq_some h
    · exact .inl ⟨by rw [hset], by simp [hset]⟩
    · exact .inl ⟨rfl, nofun⟩
    · exact .inl ⟨by rw [hset], nofun⟩

theorem exec_redisDelete {k : RedisKey} {r : Except Exc Unit}
    (h : (machine T hash).exec t (.redisDelete k) c s = some (r, s')) :
    (s' = s ∧ r ≠ .ok ()) ∨ s' = { s with redis := s.redis.delete k } := by
  obtain ⟨rfl, rfl⟩ | ⟨e, rfl, rfl | rfl⟩ := answer_eq_some h
  · exact .inr rfl
  · exact .inl ⟨rfl, nofun⟩
  · exact .inr rfl

theorem exec_redisPublish {topic : Topic} {event : Event} {r : Except Exc Unit}
    (h : (machine T hash).exec t (.redisPublish topic event) c s = some (r, s')) :
    (s' = s ∧ r ≠ .ok ()) ∨ s' = { s with published := s.published ++ [(topic, event)] } := by
  obtain ⟨rfl, rfl⟩ | ⟨e, rfl, rfl | rfl⟩ := answer_eq_some h
  · exact .inr rfl
  · exact .inl ⟨rfl, nofun⟩
  · exact .inr rfl

theorem exec_sendEmail {r : Except Exc Unit}
    (h : (machine T hash).exec t .sendEmail c s = some (r, s')) : s' = s := by
  obtain ⟨-, rfl⟩ | ⟨e, -, rfl | rfl⟩ := answer_eq_some h <;> rfl

theorem exec_deleteObject {mediaId : AttachmentId} {r : Except Exc Unit}
    (h : (machine T hash).exec t (.deleteObject mediaId) c s = some (r, s')) :
    (s' = s ∧ r ≠ .ok ()) ∨ s' = { s with purged := mediaId :: s.purged } := by
  obtain ⟨rfl, rfl⟩ | ⟨e, rfl, rfl | rfl⟩ := answer_eq_some h
  · exact .inr rfl
  · exact .inl ⟨rfl, nofun⟩
  · exact .inr rfl

theorem exec_sleep {r : Except Exc Unit} (h : (machine T hash).exec t .sleep c s = some (r, s')) :
    s' = s := by
  obtain ⟨-, rfl⟩ | ⟨e, -, rfl | rfl⟩ := answer_eq_some h <;> rfl

theorem exec_utcNow {r : Except Exc Time} (h : (machine T hash).exec t .utcNow c s = some (r, s')) :
    r = .ok s.clock ∧ s' = s := by
  cases c with
  | ok order value =>
    cases h
    exact ⟨rfl, rfl⟩
  | fail e => cases h
  | lost e => cases h

theorem exec_generateId {r : Except Exc ℕ}
    (h : (machine T hash).exec t .generateId c s = some (r, s')) :
    ∃ n, n ∉ s.ids ∧ r = .ok n ∧ s' = { s with ids := n :: s.ids } := by
  cases c with
  | ok order value =>
    simp only [machine, Op.exec] at h
    split at h
    · cases h
    · rename_i hn
      cases h
      exact ⟨value, hn, rfl, rfl⟩
  | fail e => cases h
  | lost e => cases h

theorem exec_tokenUrlsafe {r : Except Exc RawToken}
    (h : (machine T hash).exec t .tokenUrlsafe c s = some (r, s')) :
    ∃ n, hash n ∉ s.tokens ∧ r = .ok n ∧ s' = { s with tokens := hash n :: s.tokens } := by
  cases c with
  | ok order value =>
    simp only [machine, Op.exec] at h
    split at h
    · cases h
    · rename_i hn
      cases h
      exact ⟨value, hn, rfl, rfl⟩
  | fail e => cases h
  | lost e => cases h

/-- An operation raises exactly when the environment makes it raise. -/
theorem exec_answer {o : Op} {r : Except Exc o.Res}
    (h : (machine T hash).exec t o c s = some (r, s')) :
    (∃ a order value, r = .ok a ∧ c = .ok order value) ∨
      ∃ e, r = .error e ∧ (c = .fail e ∨ c = .lost e) := by
  cases o with
  | sql o =>
    obtain ⟨d, hd, -⟩ := exec_sql h
    obtain ⟨a, order, now, hr, hc⟩ | ⟨e, hr, hc⟩ := Store.exec_answer hd
    · cases c with
      | ok order value => exact .inl ⟨a, order, value, hr, rfl⟩
      | fail e => cases hc
      | lost e => cases hc
    · cases c with
      | ok order value => cases hc
      | fail e' =>
        cases hc
        exact .inr ⟨e, hr, .inl rfl⟩
      | lost e' =>
        cases hc
        exact .inr ⟨e, hr, .inr rfl⟩
  | redisGet _ | redisSet _ _ _ | redisSetNx _ _ _ | redisDelete _ | redisPublish _ _ | sendEmail
  | deleteObject _ | sleep =>
    cases c with
    | ok order value =>
      cases h
      exact .inl ⟨_, order, value, rfl, rfl⟩
    | fail e =>
      cases h
      exact .inr ⟨e, rfl, .inl rfl⟩
    | lost e =>
      cases h
      exact .inr ⟨e, rfl, .inr rfl⟩
  | utcNow =>
    cases c with
    | ok order value => exact .inl ⟨s.clock, order, value, (exec_utcNow h).1, rfl⟩
    | fail e => cases h
    | lost e => cases h
  | generateId =>
    obtain ⟨n, -, hr, -⟩ := exec_generateId h
    cases c with
    | ok order value => exact .inl ⟨n, order, value, hr, rfl⟩
    | fail e => cases h
    | lost e => cases h
  | tokenUrlsafe =>
    obtain ⟨n, -, hr, -⟩ := exec_tokenUrlsafe h
    cases c with
    | ok order value => exact .inl ⟨n, order, value, hr, rfl⟩
    | fail e => cases h
    | lost e => cases h

/-- Only a statement changes the database. -/
theorem exec_db {o : Op} {r : Except Exc o.Res} (h : (machine T hash).exec t o c s = some (r, s')) :
    s'.db = s.db ∨ ∃ (q : Stmt schema) (r' : Except Exc q.Res), o = .sql q ∧
      Store.exec t q c.sql s.db = some (r', s'.db) := by
  cases o with
  | sql q =>
    obtain ⟨d, hd, rfl⟩ := exec_sql h
    exact .inr ⟨q, r, rfl, hd⟩
  | redisGet k =>
    rw [(exec_redisGet h).1]
    exact .inl rfl
  | redisSet k v ex =>
    obtain ⟨rfl, -⟩ | rfl := exec_redisSet h <;> exact .inl rfl
  | redisSetNx k v ex =>
    obtain ⟨rfl, -⟩ | ⟨-, -, rfl⟩ := exec_redisSetNx h <;> exact .inl rfl
  | redisDelete k =>
    obtain ⟨rfl, -⟩ | rfl := exec_redisDelete h <;> exact .inl rfl
  | redisPublish topic event =>
    obtain ⟨rfl, -⟩ | rfl := exec_redisPublish h <;> exact .inl rfl
  | sendEmail =>
    rw [exec_sendEmail h]
    exact .inl rfl
  | deleteObject mediaId =>
    obtain ⟨rfl, -⟩ | rfl := exec_deleteObject h <;> exact .inl rfl
  | sleep =>
    rw [exec_sleep h]
    exact .inl rfl
  | utcNow =>
    rw [(exec_utcNow h).2]
    exact .inl rfl
  | generateId =>
    obtain ⟨n, -, -, rfl⟩ := exec_generateId h
    exact .inl rfl
  | tokenUrlsafe =>
    obtain ⟨n, -, -, rfl⟩ := exec_tokenUrlsafe h
    exact .inl rfl

/-- What another process holds in the database is kept by every operation. -/
theorem exec_keeps {t' : T} {o : Op} {r : Except Exc o.Res} (hne : t' ≠ t)
    (h : (machine T hash).exec t' o c s = some (r, s')) (τ : Tbl) :
    (s.db τ).Keeps t (s'.db τ) := by
  obtain hd | ⟨q, r', -, hd⟩ := exec_db h
  · rw [hd]
    exact .refl
  · exact Store.exec_keeps hne hd τ

/-- A process lets go of a row only when its transaction ends. -/
theorem exec_holds {o : Op} {r : Except Exc o.Res} {τ : Tbl} {k : τ.Key} (hc : o ≠ .sql .commit)
    (hr : o ≠ .sql .rollback) (h : (machine T hash).exec t o c s = some (r, s'))
    (hk : (s.db τ).Holds t k) : (s'.db τ).Holds t k := by
  obtain hd | ⟨q, r', rfl, hd⟩ := exec_db h
  · rw [hd]
    exact hk
  · refine Store.exec_holds (fun hq => hc ?_) (fun hq => hr ?_) hd hk
    · rw [hq]
    · rw [hq]

/-- A process changes no committed row but those it holds. -/
theorem exec_committed_of_not_holds {o : Op} {r : Except Exc o.Res} {τ : Tbl} {k : τ.Key}
    (h : (machine T hash).exec t o c s = some (r, s')) (hk : ¬ (s.db τ).Holds t k) :
    (s'.db τ).committed k = (s.db τ).committed k := by
  obtain hd | ⟨q, r', -, hd⟩ := exec_db h
  · rw [hd]
  · exact Store.exec_committed_of_not_holds hd hk

/-- What a process holds is kept by every step it does not take itself. -/
theorem other_keeps {K : Contract (machine T hash)} {w w' : BackendWorld T} (h : K.Other t w w')
    (τ : Tbl) : (w.state.db τ).Keeps t (w'.state.db τ) := by
  cases h with
  | proc hne hpre hexec hguar => exact exec_keeps hne hexec τ
  | event hpre hexec =>
    cases hexec
    exact .refl

end Machine

/-! ### Coroutines -/

/-- A coroutine of the backend. -/
abbrev Py (α : Type) : Type := Prog Op Op.Res Exc α

namespace Py

variable {α β : Type}

/-- `try: p except Exception as e: h e`. -/
def exceptException (p : Py α) (h : Exc → Py α) : Py α :=
  p.handle fun e => if e.isException then h e else .raise e

/-- `try: p finally: f`. -/
def tryFinally (p : Py α) (f : Py Unit) : Py α :=
  (p.handle fun e => f.bind fun _ => .raise e).bind fun a => f.bind fun _ => .ret a

/-- The statement `o`. -/
def sql (o : Stmt schema) : Py o.Res := Prog.perform (Op.sql o)

/-- `await db.get(…)`. -/
def get (τ : Tbl) (k : τ.Key) : Py (Option τ.Row) := sql (.get τ k)

/-- `await db.execute(select(…).where(p))`. -/
def select (τ : Tbl) (p : τ.Key → τ.Row → Bool) : Py (List (τ.Key × τ.Row)) := sql (.select τ p)

/-- The flush of a changed object: the row must still be there. -/
def flushUpdate (τ : Tbl) (k : τ.Key) (f : τ.Row → τ.Row) : Py Unit :=
  (sql (.update τ k (fun _ => true) f)).bind fun matched =>
    if matched then .ret () else .raise .staleDataError

/-- The flush of a new object: the row, with the columns the database defaults to its timestamp. -/
def flushInsert (τ : Tbl) (k : τ.Key) (f : Time → τ.Row) : Py τ.Row :=
  (sql (.insert τ k f)).bind fun
    | some row => .ret row
    | none => .raise .integrityError

/-- The flush of a deleted object: a row that is gone already is only warned about. -/
def flushDelete (τ : Tbl) (k : τ.Key) : Py Unit := (sql (.delete τ k)).bind fun _ => .ret ()

def commit : Py Unit := sql .commit

def rollback : Py Unit := sql .rollback

/-- `SELECT … WHERE p ORDER BY le FOR UPDATE`: the rows that satisfy `p` now are locked one after
the other, each kept if it satisfies `p` once it is locked. -/
def selectForUpdate (τ : Tbl) (p : τ.Key → τ.Row → Bool) (le : τ.Key → τ.Key → Bool) :
    Py (List (τ.Key × τ.Row)) :=
  (select τ p).bind fun rows =>
    (Prog.forEach ((rows.map Prod.fst).insertionSort fun j k => le j k = true) fun k =>
      (sql (.lock τ k (p k))).bind fun x => .ret (x.map fun v => (k, v))).bind fun locked =>
    .ret (locked.filterMap id)

/-- `redis_fail_open`: a transport error is answered with the default. -/
def redisFailOpen (call : Py α) (default : α) : Py α :=
  call.handle fun e => if e.isTransport then .ret default else .raise e

/-- `redis_fail_closed`: a transport error becomes `RedisUnavailableError`. -/
def redisFailClosed (call : Py α) : Py α :=
  call.handle fun e => if e.isTransport then .raise .redisUnavailableError else .raise e

/-- What `p` returned or raised. -/
def attempt (p : Py α) : Py (Except Exc α) :=
  (p.bind fun a => .ret (.ok a)).handle fun e => .ret (.error e)

/-- The part of `get_db_session` after the body: commit on clean exit, roll back on any
`Exception`, always close (which rolls back what is left). -/
def closeSession (r : Except Exc α) : Py Unit :=
  tryFinally
    (match r with
      | .ok _ => exceptException commit fun e => rollback.bind fun _ => .raise e
      | .error e => if e.isException then rollback else .ret ())
    rollback

/-- `get_db_session` around the body of a request. -/
def getDbSession (body : Py α) : Py α :=
  (attempt body).bind fun r => (closeSession r).bind fun _ => Prog.ofExcept r

/-- The same, keeping the outcome of the body whatever becomes of the session afterwards. -/
def outcome (body : Py α) : Py (Except Exc α) :=
  (attempt body).bind fun r => (attempt (closeSession r)).bind fun _ => .ret r

/-! ### Rules for coroutines -/

variable {P : Op → Prop} {p : Py α} {h : Exc → Py α} {f : Py Unit}

theorem only_exceptException (hp : p.Only P) (hh : ∀ e, (h e).Only P) :
    (exceptException p h).Only P := by
  refine hp.handle fun e => ?_
  split
  · exact hh e
  · trivial

theorem only_tryFinally (hp : p.Only P) (hf : f.Only P) : (tryFinally p f).Only P :=
  (hp.handle fun e => hf.bind fun _ => Prog.only_raise e).bind fun a =>
    hf.bind fun _ => Prog.only_ret a

theorem only_attempt (hp : p.Only P) : (attempt p).Only P := by
  refine Prog.Only.handle ?_ fun e => Prog.only_ret _
  exact hp.bind fun a => Prog.only_ret _

theorem only_flushUpdate {τ : Tbl} {k : τ.Key} {g : τ.Row → τ.Row}
    (hupdate : P (.sql (.update τ k (fun _ => true) g))) : (flushUpdate τ k g).Only P := by
  refine (Prog.only_perform hupdate).bind fun matched => ?_
  split <;> trivial

/-- Closing a session rolls back, and commits after a clean exit only. -/
theorem only_closeSession {r : Except Exc α} (hc : ∀ a, r = .ok a → P (.sql .commit))
    (hr : P (.sql .rollback)) : (closeSession r).Only P := by
  refine only_tryFinally ?_ (Prog.only_perform hr)
  cases r with
  | ok a =>
    exact only_exceptException (Prog.only_perform (hc a rfl)) fun e =>
      (Prog.only_perform hr).bind fun _ => trivial
  | error e =>
    show Prog.Only P (if _ then _ else _)
    split
    · exact Prog.only_perform hr
    · trivial

variable {T : Type} [DecidableEq T] {hash : RawToken → TokenHash} {K : Contract (machine T hash)}
  {t : T} {A : BackendWorld T → Prop}
  {Q : α → BackendWorld T → Prop}
  {R R' : Exc → BackendWorld T → Prop}

/-- The handler sees every exception but a cancellation. -/
theorem safe_exceptException (hp : K.Safe t p A Q R)
    (hh : ∀ e, e.isException = true → K.Safe t (h e) (R e) Q R')
    (hc : ∀ e w, e.isException = false → K.inv w → R e w → R' e w) :
    K.Safe t (exceptException p h) A Q R' := by
  refine hp.handle fun e => ?_
  split
  · rename_i he
    exact hh e he
  · rename_i he
    exact fun w hi hw => hc e w (by simpa using he) hi hw

theorem safe_attempt (hp : K.Safe t p A Q R) :
    K.Safe t (attempt p) A (Contract.Outcome Q R) R' :=
  Contract.Safe.handle (hp.bind fun _ _ _ hw => hw) fun _ _ _ hw => hw

/-- A request: the body, and then a session closed in a way that keeps what the outcome says. -/
theorem safe_outcome {Q' : Except Exc α → BackendWorld T → Prop}
    (hp : K.Safe t p A Q R)
    (hclose : ∀ r, K.Safe t (closeSession r) (Contract.Outcome Q R r) (fun _ => Q' r) fun _ => Q' r) :
    K.Safe t (outcome p) A Q' R' := by
  refine Contract.Safe.bind (safe_attempt hp) fun r => ?_
  refine Contract.Safe.bind (safe_attempt (hclose r)) fun x w _ hw => ?_
  cases x <;> exact hw

/-- Closing a session after a clean exit commits. -/
theorem safe_closeSession_ok {B F : BackendWorld T → Prop} {a : α}
    (hcommit : K.Safe t commit A (fun _ => B) fun _ => F)
    (hkeep : K.Safe t rollback B (fun _ => B) fun _ => F)
    (hrollback : K.Safe t rollback F (fun _ => F) fun _ => F) :
    K.Safe t (closeSession (.ok a : Except Exc α)) A (fun _ => B) fun _ => F := by
  have htry : K.Safe t (exceptException commit fun e => rollback.bind fun _ => .raise e) A
      (fun _ => B) fun _ => F :=
    safe_exceptException hcommit
      (fun e _ => Contract.Safe.bind hrollback fun _ => fun _ _ hw => hw) fun _ _ _ _ hw => hw
  refine Contract.Safe.bind (htry.handle fun e => ?_) fun _ => ?_
  · exact Contract.Safe.bind hrollback fun _ => fun _ _ hw => hw
  · exact Contract.Safe.bind hkeep fun _ => fun _ _ hw => hw

/-- Closing a session after an exception does not. -/
theorem safe_closeSession_error {F : BackendWorld T → Prop} {e : Exc}
    (hrollback : K.Safe t rollback F (fun _ => F) fun _ => F) :
    K.Safe t (closeSession (.error e : Except Exc α)) F (fun _ => F) fun _ => F := by
  refine Contract.Safe.bind (Q := fun _ => F) (Contract.Safe.handle (R := fun _ => F) ?_
    fun e => ?_) fun _ => ?_
  · show K.Safe t (if _ then _ else _) _ _ _
    split
    · exact hrollback
    · exact fun _ _ hw => hw
  · exact Contract.Safe.bind hrollback fun _ => fun _ _ hw => hw
  · exact Contract.Safe.bind hrollback fun _ => fun _ _ hw => hw

/-- The same, of what is known of the exception. -/
theorem safe_closeSession_raised {F : Exc → BackendWorld T → Prop} {e : Exc}
    (hrollback : ∀ e, K.Safe t rollback (F e) (fun _ => F e) F) :
    K.Safe t (closeSession (.error e : Except Exc α)) (F e) (fun _ => F e) F := by
  refine Contract.Safe.bind (Q := fun _ => F e) (Contract.Safe.handle (R := F) ?_
    fun e' => ?_) fun _ => ?_
  · show K.Safe t (if _ then _ else _) _ _ _
    split
    · exact hrollback e
    · exact fun _ _ hw => hw
  · exact Contract.Safe.bind (hrollback e') fun _ => fun _ _ hw => hw
  · exact Contract.Safe.bind (hrollback e) fun _ => fun _ _ hw => hw

/-- A request: the body, and then a session closed in a way that keeps what is known. -/
theorem safe_getDbSession {Q' : α → BackendWorld T → Prop}
    (hp : K.Safe t p A Q R)
    (hok : ∀ a, K.Safe t (closeSession (.ok a : Except Exc α)) (Q a) (fun _ => Q' a) R')
    (herr : ∀ e, K.Safe t (closeSession (.error e : Except Exc α)) (R e) (fun _ => R' e) R') :
    K.Safe t (getDbSession p) A Q' R' := by
  refine Contract.Safe.bind (safe_attempt hp) fun r => ?_
  cases r with
  | ok a => exact Contract.Safe.bind (hok a) fun _ w _ hw => hw
  | error e => exact Contract.Safe.bind (herr e) fun _ w _ hw => hw

/-- A request: its body leaves what may be committed, and what a commit leaves is kept. -/
theorem safe_session {B C F : BackendWorld T → Prop}
    (hcommit : K.Safe t commit B (fun _ => C) fun _ => F)
    (hkeep : K.Safe t rollback C (fun _ => C) fun _ => F)
    (hrollback : K.Safe t rollback F (fun _ => F) fun _ => F)
    (hp : K.Safe t p A (fun _ => B) fun _ => F) :
    K.Safe t (getDbSession p) A (fun _ => C) fun _ => F :=
  safe_getDbSession hp (fun _ => safe_closeSession_ok hcommit hkeep hrollback) fun _ =>
    safe_closeSession_error hrollback

end Py

variable {T α : Type} [DecidableEq T] {hash : RawToken → TokenHash} {K : Contract (machine T hash)}
  {t : T} {A B C : BackendWorld T → Prop} {body : Py α}

/-- A request of which nothing is asked but that it keeps to the contract. -/
theorem safe_request (hcommit : K.Safe t Py.commit B (fun _ => C) fun _ _ => True)
    (hkeep : K.Safe t Py.rollback C (fun _ => C) fun _ _ => True)
    (hrollback : K.Safe t Py.rollback (fun _ => True) (fun _ _ => True) fun _ _ => True)
    (h : K.Safe t body A (fun _ => B) fun _ _ => True) :
    K.Safe t (Py.getDbSession body) A (fun _ _ => True) fun _ _ => True :=
  (Py.safe_session hcommit hkeep hrollback h).mono (fun _ _ hw => hw) (fun _ _ _ _ => trivial)
    fun _ _ _ _ => trivial

end Chatspace
