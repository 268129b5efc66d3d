import Chatspace.Backend.Readers
import Chatspace.Codec.Json
import Chatspace.Core.Uuid
import Chatspace.Rates.Rounding
import Chatspace.Services.Sessions

/-!
# How fresh an authentication is

`core/deps.py` and `core/jwt.py`.  The row of the user is read in every request.  The verdict on the
session may come out of the cache, into which another check wrote it, some time after it had read
the row.

* `decodeAccessToken`, `requireAuth`, `requireSystemAdmin` — the dependencies of the routes;
* `Prompt` — how long a check takes from its read of the row to its write of the cache;
* `exec_redis_entry` — what can have put an entry into Redis;
* `safe_check` — what a check has done by the time it accepts;
* `History` — where what has been read, and what is cached, comes from;
* `accepted_fresh` — **an accepted request's user was active while it was checked (and later on a
  system admin, where that is asked for), and its session was valid no longer ago than the cache and
  one check's delay allow.**
-/

namespace Chatspace.RequireAuth

open Interleave Store Sessions Codec

/-! ### Tokens -/

/-- `HTTPAuthorizationCredentials`. -/
structure Credentials where
  scheme : Text
  credentials : Text

structure AccessTokenPayload where
  userId : Text
  sessionId : Text

structure AuthenticatedUser where
  userId : UserId
  sessionId : SessionId
deriving DecidableEq

def subKey : Text := ['s', 'u', 'b']

def sidKey : Text := ['s', 'i', 'd']

def iatKey : Text := ['i', 'a', 't']

def expKey : Text := ['e', 'x', 'p']

def bearerScheme : Text := ['b', 'e', 'a', 'r', 'e', 'r']

/-- The token that is sent, if there is one. -/
def bearerToken (credentials : Option Credentials) : Option Text :=
  credentials.bind fun c =>
    if c.scheme.map Char.toLower = bearerScheme ∧ c.credentials ≠ [] then some c.credentials
    else none

/-- A text before the first character of `p`, and after it. -/
def cut (p : Char → Bool) (s : Text) : Text × Text :=
  (s.takeWhile fun c => !p c, (s.dropWhile fun c => !p c).tail)

def natOf (digits : Text) : ℕ := digits.foldl (fun n c => 10 * n + (c.toNat - 48)) 0

def intOf : Text → ℤ
  | '-' :: digits => -natOf digits
  | '+' :: digits => natOf digits
  | digits => natOf digits

/-- The number that is written so in JSON. -/
def literalValue (literal : Text) : ℚ :=
  let (mantissa, exponent) := cut (fun c => c = 'e' || c = 'E') literal
  let (whole, fraction) := cut (fun c => c = '.') mantissa
  intOf (whole ++ fraction) * 10 ^ (intOf exponent - fraction.length)

/-- An `int | float`: the nearest double where there is a fraction or an exponent; a `bool` is an
`int`. -/
def numberOf : Json → Option ℚ
  | .number literal =>
    if literal.any fun c => c = '.' || c = 'e' || c = 'E' then
      some (Rates.significant 2 53 (literalValue literal))
    else some (literalValue literal)
  | .bool b => some (if b then 1 else 0)
  | _ => none

/-- `datetime.fromtimestamp(x, tz=UTC)` raises outside of the years 1 to 9999. -/
def isDatetime (x : ℚ) : Bool := -62135596800 ≤ x && x < 253402300800

/-- `decode_access_token`, over the `jwt.decode` of the library: the claims of a token that it
verifies at this time.  `ValueError` stands for `OverflowError` and `OSError` as well. -/
def decodeAccessToken (jwtDecode : Text → Time → Except Exc Json) (token : Text) (now : Time) :
    Except Exc AccessTokenPayload :=
  match jwtDecode token now with
  | .error .jwtError => .error .invalidTokenError
  | .error e => .error e
  | .ok claims =>
    match claims.field? subKey, claims.field? sidKey, (claims.field? iatKey).bind numberOf,
      (claims.field? expKey).bind numberOf with
    | some (.string userId), some (.string sessionId), some issuedAt, some expiresAt =>
      if isDatetime issuedAt && isDatetime expiresAt then .ok ⟨userId, sessionId⟩
      else .error .valueError
    | _, _, _, _ => .error .invalidTokenError

/-- `UUID(payload.user_id)` and `UUID(payload.session_id)`. -/
def AccessTokenPayload.user (payload : AccessTokenPayload) : Option AuthenticatedUser :=
  match Uuid.ofStr payload.userId, Uuid.ofStr payload.sessionId with
  | some userId, some sessionId => some ⟨userId.val, sessionId.val⟩
  | _, _ => none

/-! ### The dependencies -/

/-- `_unauthorized()`. -/
def unauthorized : Exc := .httpException 401

/-- Whom a token names, at this time. -/
def identify (jwtDecode : Text → Time → Except Exc Json) (token : Text) (now : Time) :
    Except Exc AuthenticatedUser :=
  match decodeAccessToken jwtDecode token now with
  | .error .invalidTokenError => .error unauthorized
  | .error e => .error e
  | .ok payload =>
    match payload.user with
    | none => .error unauthorized
    | some current => .ok current

def requireAuth (jwtDecode : Text → Time → Except Exc Json) (credentials : Option Credentials)
    (cacheTtlSeconds : ℕ) : Py AuthenticatedUser :=
  match bearerToken credentials with
  | none => .raise unauthorized
  | some token => do
    let now ← Prog.perform Op.utcNow
    match identify jwtDecode token now with
    | .error e => .raise e
    | .ok current =>
      let sessionActive ← isSessionActive current.sessionId cacheTtlSeconds
      if sessionActive then
        match ← Py.get .users current.userId with
        | none => .raise unauthorized
        | some user => if user.isActive then return current else .raise unauthorized
      else .raise unauthorized

/-- The identity map of the session keeps no reference to the row that `require_auth` loaded, so that
`db.get` asks again. -/
def requireSystemAdmin (jwtDecode : Text → Time → Except Exc Json)
    (credentials : Option Credentials) (cacheTtlSeconds : ℕ) : Py AuthenticatedUser := do
  let current ← requireAuth jwtDecode credentials cacheTtlSeconds
  match ← Py.get .users current.userId with
  | none => .raise (.httpException 403)
  | some user => if user.isSystemAdmin then return current else .raise (.httpException 403)

/-! ### Requests -/

/-- One request: to a protected route, to a route of the system admins, a check that a WebSocket
connection makes, or anything else. -/
inductive Task where
  | authenticated (credentials : Option Credentials)
  | systemAdmin (credentials : Option Credentials)
  | check (sessionId : SessionId)
  | other (program : Py (Option AuthenticatedUser))

/-- A request, with whom it was accepted as. -/
def Task.program (jwtDecode : Text → Time → Except Exc Json) (ttl : ℕ) :
    Task → Py (Option AuthenticatedUser)
  | .authenticated credentials =>
    (requireAuth jwtDecode credentials ttl).bind fun current => .ret (some current)
  | .systemAdmin credentials =>
    (requireSystemAdmin jwtDecode credentials ttl).bind fun current => .ret (some current)
  | .check id => (isSessionActive id ttl).bind fun _ => .ret none
  | .other program => program

/-- The request does nothing but check. -/
def Task.isCheck : Task → Bool
  | .other _ => false
  | _ => true

/-- The operation is no write of a session's cached verdict. -/
def KeepsVerdicts (o : Op) : Prop :=
  ∀ id v ex, o ≠ .redisSet (sessionRevocationKey id) v ex ∧
    o ≠ .redisSetNx (sessionRevocationKey id) v ex

abbrev AuthPool (T : Type) : Type := Pool T Op Op.Res Exc (Option AuthenticatedUser) (State T)

variable {T : Type} [DecidableEq T] {hash : RawToken → TokenHash}
  {jwtDecode : Text → Time → Except Exc Json} {ttl δ : ℕ} {task : T → Task} {t t' : T}
  {w w' : BackendWorld T} {id : SessionId} {s : State T} {p p₀ q : AuthPool T}
  {ls : List (Label T Choice Tick)} {h h' : List (Entry T Op Op.Res Exc)}

/-- Before the first request: no verdict is cached, no transaction is under way, and only checks
write verdicts. -/
structure Start (jwtDecode : Text → Time → Except Exc Json) (ttl : ℕ) (task : T → Task)
    (p : AuthPool T) : Prop where
  prog : ∀ t, p.prog t = (task t).program jwtDecode ttl
  trace : p.world.trace = []
  hold : ∀ τ k, (p.world.state.db τ).hold k = none
  cache : ∀ id, p.world.state.redis (sessionRevocationKey id) = none
  other : ∀ t program, task t = .other program → program.Only KeepsVerdicts

/-- The session is there, not revoked and not expired. -/
def Valid (id : SessionId) (w : BackendWorld T) : Prop :=
  ∃ session, row w id = some session ∧ session.revokedAt = none ∧
    w.state.clock < session.expiresAt

/-- No check takes longer than `δ` from its read of a session's row to its write of the verdict. -/
def Prompt (hash : RawToken → TokenHash) (task : T → Task) (δ : ℕ) (p : AuthPool T)
    (ls : List (Label T Choice Tick)) : Prop :=
  ∀ t, (task t).isCheck = true → ∀ id x h w v ex r h' w',
    (machine T hash).Performed p ls t ⟨t, .sql (.get .sessions id), x⟩ h w →
      (machine T hash).Performed p ls t ⟨t, .redisSet (sessionRevocationKey id) v ex, r⟩ h' w' →
        w'.state.clock ≤ w.state.clock + δ

/-! ### The contract -/

/-- The row of the session has just been read and found valid. -/
def JustRead (t : T) (id : SessionId) (h : List (Entry T Op Op.Res Exc)) : Prop :=
  ∃ session now older,
    h = ⟨t, .utcNow, .ok now⟩ :: ⟨t, .sql (.get .sessions id), .ok (some session)⟩ :: older ∧
      session.revokedAt = none ∧ now < session.expiresAt

/-- Checks write nothing into the database, and what they cache as active they have just read. -/
def contract (hash : RawToken → TokenHash) (ttl : ℕ) (task : T → Task) :
    Contract (machine T hash) where
  inv w := ∀ t, (task t).isCheck = true → ∀ τ k, ¬ (w.state.db τ).Holds t k
  pre := .always
  guar t o _ w _ := ∀ id v ex, o ≠ .redisSetNx (sessionRevocationKey id) v ex ∧
    (o = .redisSet (sessionRevocationKey id) v ex → v = cacheValueActive →
      (task t).isCheck = true ∧ ex = ttl ∧ JustRead t id (w.own t))

/-- A step keeps the invariant if no check changes the database by it. -/
theorem inv_after {o : Op} {r : Except Exc o.Res} {c : Choice}
    (hi : (contract hash ttl task).inv w) (hx : (machine T hash).exec t o c w.state = some (r, s))
    (hdb : (task t).isCheck = true → s.db = w.state.db) :
    (contract hash ttl task).inv (w.after t o r s) := by
  intro t' ht' τ k hk
  by_cases ht : t = t'
  · subst ht
    rw [World.after_state, hdb ht'] at hk
    exact hi t ht' τ k hk
  · exact hi t' ht' τ k ((exec_keeps ht hx τ).holds.mpr hk)

theorem eventsOk : (contract (T := T) hash ttl task).EventsOk := by
  intro e w s hi _ he
  cases e with
  | tick n =>
    cases he
    exact hi

/-- A request that writes no verdicts does what it likes, if it is no check. -/
theorem safe_other {program : Py (Option AuthenticatedUser)} (ht : (task t).isCheck = false)
    (hp : program.Only KeepsVerdicts) :
    (contract hash ttl task).Safe t program (fun _ => True) (fun _ _ => True) fun _ _ => True := by
  refine Contract.Safe.only hp (.const True) fun o ho w c r s hi _ _ hx => ?_
  refine ⟨inv_after hi hx fun hcheck => ?_, fun id v ex => ?_, trivial⟩
  · rw [ht] at hcheck
    cases hcheck
  · exact ⟨(ho id v ex).2, fun he => absurd he (ho id v ex).1⟩

/-! ### What a check has done -/

/-- An operation that changes nothing but, at most, what is cached for no session. -/
def Reads : Op → Prop
  | .sql (.get ..) | .redisGet _ | .utcNow => True
  | _ => False

theorem Reads.state {o : Op} (ho : Reads o) {r : Except Exc o.Res} {c : Choice}
    (hx : (machine T hash).exec t o c w.state = some (r, s)) : s = w.state := by
  unfold Reads at ho
  split at ho
  · exact (exec_getTable hx).1
  · exact (exec_redisGet hx).1
  · exact (exec_utcNow hx).2
  · exact ho.elim

/-- A read: what its answer adds to what the process has done. -/
theorem safe_read {o : Op} (ho : Reads o) (P : List (Entry T Op Op.Res Exc) → Prop)
    {Q : o.Res → List (Entry T Op Op.Res Exc) → Prop}
    (hQ : ∀ (w : BackendWorld T) c a s, P (w.own t) → (machine T hash).exec t o c w.state = some (.ok a, s) →
      Q a (⟨t, o, .ok a⟩ :: w.own t)) :
    (contract hash ttl task).Safe t (Prog.perform o) (fun w => P (w.own t))
      (fun a w => Q a (w.own t)) fun e => Answered t e := by
  refine Contract.Safe.perform (fun a => Contract.Stable.history (Q a)) (fun e => .seen)
    fun w c r s hi hw _ hx => ?_
  have hs := ho.state hx
  refine ⟨inv_after hi hx fun _ => by rw [hs], fun id v ex => ⟨?_, fun he => ?_⟩, ?_⟩
  · rintro rfl
    exact ho
  · subst he
    exact ho.elim
  · cases r with
    | ok a =>
      rw [Contract.Outcome_ok, World.own_after]
      exact hQ w c a s hw hx
    | error e => exact ⟨_, List.mem_cons_self, rfl, o, rfl⟩

/-- What has been learned of the session: the cache said `active`, or the row did. -/
def Learned (t : T) (id : SessionId) (h : List (Entry T Op Op.Res Exc)) : Prop :=
  ∃ newer older, h = newer ++ older ∧ ((∃ rest, older =
    ⟨t, .redisGet (sessionRevocationKey id), .ok (some cacheValueActive)⟩ :: rest) ∨
      JustRead t id older)

omit [DecidableEq T] in
theorem Learned.cons (h : Learned t id h') (x : Entry T Op Op.Res Exc) :
    Learned t id (x :: h') := by
  obtain ⟨newer, older, rfl, hor⟩ := h
  exact ⟨x :: newer, older, rfl, hor⟩

/-- Nothing the process has done is forgotten. -/
def After (first : List (Entry T Op Op.Res Exc)) (h : List (Entry T Op Op.Res Exc)) : Prop :=
  ∃ newer, h = newer ++ first

omit [DecidableEq T] in
theorem After.refl (first : List (Entry T Op Op.Res Exc)) : After first first := ⟨[], rfl⟩

omit [DecidableEq T] in
theorem After.cons {first : List (Entry T Op Op.Res Exc)} (h : After first h')
    (x : Entry T Op Op.Res Exc) : After first (x :: h') := by
  obtain ⟨newer, rfl⟩ := h
  exact ⟨x :: newer, rfl⟩

variable {first : List (Entry T Op Op.Res Exc)}

theorem safe_readSessionActiveFromDb :
    (contract hash ttl task).Safe t (readSessionActiveFromDb id) (fun w => After first (w.own t))
      (fun active w => After first (w.own t) ∧ (active = true → JustRead t id (w.own t)))
      fun e => Answered t e := by
  refine Contract.Safe.bind (Q := fun x w => After first (w.own t) ∧ ∃ older, w.own t =
    ⟨t, .sql (.get .sessions id), .ok x⟩ :: older) (safe_read (o := .sql (.get .sessions id)) trivial
      (After first) (Q := fun x h => After first h ∧ ∃ older,
        h = ⟨t, .sql (.get .sessions id), .ok x⟩ :: older)
      fun w c a s hw _ => ⟨hw.cons _, _, rfl⟩) fun x => ?_
  cases x with
  | none => exact fun w _ hw => ⟨hw.1, nofun⟩
  | some session =>
    refine Contract.Safe.bind (safe_read (o := .utcNow) trivial
      (fun h => After first h ∧ ∃ older,
        h = ⟨t, .sql (.get .sessions id), .ok (some session)⟩ :: older)
      (Q := fun now h => After first h ∧ ∃ older, h = ⟨t, .utcNow, .ok now⟩ ::
        ⟨t, .sql (.get .sessions id), .ok (some session)⟩ :: older)
      fun w c now s hw _ => ?_) fun now w _ hw => ⟨hw.1, fun hactive => ?_⟩
    · obtain ⟨hfirst, older, hown⟩ := hw
      exact ⟨hfirst.cons _, older, by rw [hown]⟩
    · rw [Bool.and_eq_true, Option.isNone_iff_eq_none, decide_eq_true_eq] at hactive
      obtain ⟨-, older, hown⟩ := hw
      exact ⟨session, now, older, hown, hactive.1, hactive.2⟩

/-- The cached verdict, as it was read. -/
theorem safe_readCache :
    (contract hash ttl task).Safe t (readCache id) (fun w => After first (w.own t))
      (fun cached w => After first (w.own t) ∧
        (cached = some (some cacheValueActive) → Learned t id (w.own t)))
      fun e => Answered t e := by
  have hget : (contract hash ttl task).Safe t
      (Prog.perform (Op.redisGet (sessionRevocationKey id))) (fun w => After first (w.own t))
      (fun v w => After first (w.own t) ∧ (v = some cacheValueActive → Learned t id (w.own t)))
      fun e => fun w => After first (w.own t) ∧ Answered t e w := by
    refine Contract.Safe.perform (fun v => .and (.history _) (.imp fun _ => .history _))
      (fun e => .and (.history _) .seen) fun w c r s hi hw _ hx => ?_
    have hs := (exec_redisGet hx).1
    refine ⟨inv_after hi hx fun _ => by rw [hs], fun _ _ _ => ⟨nofun, nofun⟩, ?_⟩
    cases r with
    | ok v =>
      rw [Contract.Outcome_ok, World.own_after]
      refine ⟨hw.cons _, fun hv => ⟨[], _, rfl, .inl ⟨w.own t, ?_⟩⟩⟩
      rw [hv]
    | error e =>
      rw [Contract.Outcome_error, World.own_after]
      exact ⟨hw.cons _, _, List.mem_cons_self, rfl, _, rfl⟩
  -- a transport error has become `RedisUnavailableError` when the outer handler sees it
  refine Contract.Safe.handle (R := fun e w => After first (w.own t) ∧
    (e = .redisUnavailableError ∨ Answered t e w)) ?_ fun e => ?_
  · refine Contract.Safe.bind (hget.handle fun e => ?_) fun v w _ hw => ⟨hw.1, fun hv => ?_⟩
    · split
      · exact fun w _ hw => ⟨hw.1, .inl rfl⟩
      · exact fun w _ hw => ⟨hw.1, .inr hw.2⟩
    · exact hw.2 (Option.some.inj hv)
  · split
    · exact fun w _ hw => ⟨hw.1, nofun⟩
    · rename_i he
      exact fun w _ hw => hw.2.resolve_left he

theorem safe_writeCache (ht : (task t).isCheck = true) (active : Bool) :
    (contract hash ttl task).Safe t (writeCache id active ttl)
      (fun w => After first (w.own t) ∧ (active = true → JustRead t id (w.own t)))
      (fun _ w => After first (w.own t) ∧ (active = true → Learned t id (w.own t)))
      fun e => Answered t e := by
  refine Contract.Safe.handle (R := fun e w => (After first (w.own t) ∧
    (active = true → Learned t id (w.own t))) ∧ Answered t e w) ?_ fun e => ?_
  · refine Contract.Safe.perform (fun _ => .and (.history _) (.imp fun _ => .history _))
      (fun _ => .and (.and (.history _) (.imp fun _ => .history _)) .seen) ?_
    intro w c r s hi hw _ hx
    have hdb : s.db = w.state.db := by
      obtain ⟨rfl, -⟩ | rfl := exec_redisSet hx
      · rfl
      · rfl
    have hpost : ∀ x : Entry T Op Op.Res Exc, After first (x :: w.own t) ∧
        (active = true → Learned t id (x :: w.own t)) :=
      fun x => ⟨hw.1.cons x, fun hactive => ⟨[x], w.own t, rfl, .inr (hw.2 hactive)⟩⟩
    refine ⟨inv_after hi hx fun _ => hdb, fun id' v ex => ⟨nofun, fun he hv => ?_⟩, ?_⟩
    · cases he
      cases active with
      | true => exact ⟨ht, rfl, hw.2 rfl⟩
      | false => cases hv
    · cases r with
      | ok a =>
        rw [Contract.Outcome_ok, World.own_after]
        exact hpost _
      | error e =>
        rw [Contract.Outcome_error, World.own_after]
        exact ⟨hpost _, _, List.mem_cons_self, rfl, _, rfl⟩
  · split
    · exact fun w _ hw => hw.1
    · exact fun w _ hw => hw.2

/-- A check that answers `True` has learned it from the cache or from the row. -/
theorem safe_isSessionActive (ht : (task t).isCheck = true) :
    (contract hash ttl task).Safe t (isSessionActive id ttl) (fun w => After first (w.own t))
      (fun active w => After first (w.own t) ∧ (active = true → Learned t id (w.own t)))
      fun e => Answered t e := by
  refine Contract.Safe.bind safe_readCache fun cached => ?_
  match cached with
  | none =>
    refine (safe_readSessionActiveFromDb.weaken fun _ _ hw => hw.1).mono (fun _ _ hw => hw)
      (fun active w _ hw => ⟨hw.1, fun hactive => ⟨[], w.own t, rfl, .inr (hw.2 hactive)⟩⟩)
      fun _ _ _ hw => hw
  | some (some v) =>
    refine fun w _ hw => ⟨hw.1, fun hactive => hw.2 ?_⟩
    rw [of_decide_eq_true hactive]
  | some none =>
    refine Contract.Safe.bind (safe_readSessionActiveFromDb.weaken fun _ _ hw => hw.1)
      fun active => ?_
    exact Contract.Safe.bind (safe_writeCache ht active) fun _ _ _ hw => hw

/-- What a request has done when it is accepted. -/
structure Concluded (jwtDecode : Text → Time → Except Exc Json) (t : T)
    (credentials : Option Credentials) (current : AuthenticatedUser)
    (h : List (Entry T Op Op.Res Exc)) : Prop where
  token : ∃ token now, bearerToken credentials = some token ∧
    identify jwtDecode token now = .ok current ∧ After [⟨t, .utcNow, .ok now⟩] h
  session : Learned t current.sessionId h
  active : ∃ user, ⟨t, .sql (.get .users current.userId), .ok (some user)⟩ ∈ h ∧
    user.isActive = true

variable {credentials : Option Credentials} {current : AuthenticatedUser} {e : Exc}

omit [DecidableEq T] in
theorem Concluded.cons (h : Concluded jwtDecode t credentials current h')
    (x : Entry T Op Op.Res Exc) : Concluded jwtDecode t credentials current (x :: h') where
  token := by
    obtain ⟨token, now, hbearer, hidentify, hafter⟩ := h.token
    exact ⟨token, now, hbearer, hidentify, hafter.cons x⟩
  session := h.session.cons x
  active := by
    obtain ⟨user, hmem, hactive⟩ := h.active
    exact ⟨user, List.mem_cons_of_mem x hmem, hactive⟩

/-- The token could not be decoded, which is no verdict on it. -/
def Undecoded (jwtDecode : Text → Time → Except Exc Json) (t : T)
    (credentials : Option Credentials) (e : Exc) (h : List (Entry T Op Op.Res Exc)) : Prop :=
  ∃ token now, bearerToken credentials = some token ∧
    decodeAccessToken jwtDecode token now = .error e ∧ e ≠ .invalidTokenError ∧
      After [⟨t, .utcNow, .ok now⟩] h

/-- Why a token names nobody. -/
theorem identify_error {token : Text} {now : Time} (h : identify jwtDecode token now = .error e) :
    e = unauthorized ∨
      decodeAccessToken jwtDecode token now = .error e ∧ e ≠ .invalidTokenError := by
  unfold identify at h
  split at h
  · cases h
    exact .inl rfl
  · rename_i e' hne hdecode
    cases h
    exact .inr ⟨hdecode, hne⟩
  · split at h
    · cases h
      exact .inl rfl
    · cases h

theorem safe_requireAuth (ht : (task t).isCheck = true) (credentials : Option Credentials) :
    (contract hash ttl task).Safe t (requireAuth jwtDecode credentials ttl) (fun w => w.own t = [])
      (fun current w => Concluded jwtDecode t credentials current (w.own t))
      fun e w => (e = unauthorized ∨ Undecoded jwtDecode t credentials e (w.own t)) ∨
        Answered t e w := by
  unfold requireAuth
  cases hbearer : bearerToken credentials with
  | none => exact fun _ _ _ => .inl (.inl rfl)
  | some token =>
    have hnow : (contract hash ttl task).Safe t (Prog.perform Op.utcNow) (fun w => w.own t = [])
        (fun now w => After [⟨t, .utcNow, .ok now⟩] (w.own t)) fun e => Answered t e :=
      safe_read (o := .utcNow) trivial (· = []) (Q := fun now => After [⟨t, .utcNow, .ok now⟩])
        fun w c now s hw _ => ⟨[], by rw [hw]; rfl⟩
    refine Contract.Safe.bind (hnow.mono (fun _ _ hw => hw) (fun _ _ _ hw => hw)
      fun _ _ _ => .inr) fun now => ?_
    cases hidentify : identify jwtDecode token now with
    | error e =>
      intro w _ hw
      rcases identify_error hidentify with rfl | ⟨hdecode, hne⟩
      · exact .inl (.inl rfl)
      · exact .inl (.inr ⟨token, now, hbearer, hdecode, hne, hw⟩)
    | ok current =>
      refine Contract.Safe.bind ((safe_isSessionActive ht).mono (fun _ _ hw => hw)
        (fun _ _ _ hw => hw) fun _ _ _ => .inr) fun active => ?_
      cases active with
      | false => exact fun _ _ _ => .inl (.inl rfl)
      | true =>
        have hget : (contract hash ttl task).Safe t (Py.get .users current.userId)
            (fun w => After [⟨t, .utcNow, .ok now⟩] (w.own t) ∧
              (true = true → Learned t current.sessionId (w.own t)))
            (fun x w => (After [⟨t, .utcNow, .ok now⟩] (w.own t) ∧
              Learned t current.sessionId (w.own t)) ∧
                ⟨t, .sql (.get .users current.userId), .ok x⟩ ∈ w.own t) fun e => Answered t e :=
          safe_read (o := .sql (.get .users current.userId)) trivial
            (fun h => After [⟨t, .utcNow, .ok now⟩] h ∧
              (true = true → Learned t current.sessionId h))
            (Q := fun x h => (After [⟨t, .utcNow, .ok now⟩] h ∧ Learned t current.sessionId h) ∧
              ⟨t, .sql (.get .users current.userId), .ok x⟩ ∈ h)
            fun w c x s hw _ => ⟨⟨hw.1.cons _, (hw.2 rfl).cons _⟩, List.mem_cons_self⟩
        refine Contract.Safe.bind (hget.mono (fun _ _ hw => hw) (fun _ _ _ hw => hw)
          fun _ _ _ => .inr) fun x => ?_
        cases x with
        | none => exact fun _ _ _ => .inl (.inl rfl)
        | some user =>
          show (contract hash ttl task).Safe t (if _ then _ else _) _ _ _
          split
          · rename_i hactive
            exact fun w _ hw =>
              ⟨⟨token, now, hbearer, hidentify, hw.1.1⟩, hw.1.2, user, hw.2, hactive⟩
          · exact fun _ _ _ => .inl (.inl rfl)

/-- The row is read again, and may have changed since. -/
theorem safe_requireSystemAdmin (ht : (task t).isCheck = true)
    (credentials : Option Credentials) :
    (contract hash ttl task).Safe t (requireSystemAdmin jwtDecode credentials ttl)
      (fun w => w.own t = []) (fun current w =>
        Concluded jwtDecode t credentials current (w.own t) ∧
          ∃ user, ⟨t, .sql (.get .users current.userId), .ok (some user)⟩ ∈ w.own t ∧
            user.isSystemAdmin = true)
      fun e w => ((e = unauthorized ∨ Undecoded jwtDecode t credentials e (w.own t)) ∨
        e = .httpException 403) ∨ Answered t e w := by
  refine Contract.Safe.bind ((safe_requireAuth ht credentials).mono (fun _ _ hw => hw)
    (fun _ _ _ hw => hw) fun _ _ _ hw => hw.imp .inl id) fun current => ?_
  have hget : (contract hash ttl task).Safe t (Py.get .users current.userId)
      (fun w => Concluded jwtDecode t credentials current (w.own t))
      (fun x w => Concluded jwtDecode t credentials current (w.own t) ∧
        ⟨t, .sql (.get .users current.userId), .ok x⟩ ∈ w.own t) fun e => Answered t e :=
    safe_read (o := .sql (.get .users current.userId)) trivial
      (Concluded jwtDecode t credentials current)
      (Q := fun x h => Concluded jwtDecode t credentials current h ∧
        ⟨t, .sql (.get .users current.userId), .ok x⟩ ∈ h)
      fun w c x s hw _ => ⟨hw.cons _, List.mem_cons_self⟩
  refine Contract.Safe.bind (hget.mono (fun _ _ hw => hw) (fun _ _ _ hw => hw)
    fun _ _ _ => .inr) fun x => ?_
  cases x with
  | none => exact fun _ _ _ => .inl (.inr rfl)
  | some user =>
    show (contract hash ttl task).Safe t (if _ then _ else _) _ _ _
    split
    · rename_i hadmin
      exact fun w _ hw => ⟨hw.1, user, hw.2, hadmin⟩
    · exact fun _ _ _ => .inl (.inr rfl)

/-! ### Moments -/

/-- What puts an entry into Redis. -/
theorem exec_redis_entry {o : Op} {r : Except Exc o.Res} {c : Choice} {s s' : State T} {k : RedisKey}
    {e : RedisValue × ℕ} (hx : (machine T hash).exec t o c s = some (r, s'))
    (he : s'.redis k = some e) : s.redis k = some e ∨ ∃ v ex,
      (o = .redisSet k v ex ∨ o = .redisSetNx k v ex) ∧ e = (v, s.clock + ex) := by
  have hset : ∀ {k' v ex}, (s.redis.set s.clock k' v ex) k = some e →
      s.redis k = some e ∨ k' = k ∧ e = (v, s.clock + ex) := by
    intro k' v ex h
    by_cases hk : k = k'
    · subst hk
      rw [Expiring.set_self] at h
      exact .inr ⟨rfl, (Option.some.inj h).symm⟩
    · rw [Expiring.set_of_ne hk] at h
      exact .inl h
  cases o with
  | redisSet k' v ex =>
    obtain ⟨rfl, -⟩ | rfl := exec_redisSet hx
    · exact .inl he
    · obtain h | ⟨rfl, h⟩ := hset he
      · exact .inl h
      · exact .inr ⟨v, ex, .inl rfl, h⟩
  | redisSetNx k' v ex =>
    obtain ⟨rfl, -⟩ | ⟨-, -, rfl⟩ := exec_redisSetNx hx
    · exact .inl he
    · obtain h | ⟨rfl, h⟩ := hset he
      · exact .inl h
      · exact .inr ⟨v, ex, .inr rfl, h⟩
  | redisDelete k' =>
    obtain ⟨rfl, -⟩ | rfl := exec_redisDelete hx
    · exact .inl he
    · by_cases hk : k = k'
      · subst hk
        change (s.redis.delete k) k = some e at he
        rw [Expiring.delete_self] at he
        cases he
      · change (s.redis.delete k') k = some e at he
        rw [Expiring.delete_of_ne hk] at he
        exact .inl he
  | sql o =>
    obtain ⟨d, -, rfl⟩ := exec_sql hx
    exact .inl he
  | redisGet k' =>
    rw [(exec_redisGet hx).1] at he
    exact .inl he
  | redisPublish topic event =>
    obtain ⟨rfl, -⟩ | rfl := exec_redisPublish hx
    · exact .inl he
    · exact .inl he
  | sendEmail =>
    rw [exec_sendEmail hx] at he
    exact .inl he
  | deleteObject mediaId =>
    obtain ⟨rfl, -⟩ | rfl := exec_deleteObject hx
    · exact .inl he
    · exact .inl he
  | sleep =>
    rw [exec_sleep hx] at he
    exact .inl he
  | utcNow =>
    rw [(exec_utcNow hx).2] at he
    exact .inl he
  | generateId =>
    obtain ⟨n, -, -, rfl⟩ := exec_generateId hx
    exact .inl he
  | tokenUrlsafe =>
    obtain ⟨n, -, -, rfl⟩ := exec_tokenUrlsafe hx
    exact .inl he

/-- The row of the session was read at a moment of the run, as it is committed. -/
def ReadAt (hash : RawToken → TokenHash) (p : AuthPool T) (ls : List (Label T Choice Tick)) (t : T)
    (id : SessionId) (session : Session) (w : BackendWorld T) : Prop :=
  row w id = some session ∧
    ∃ h, (machine T hash).Performed p ls t ⟨t, .sql (.get .sessions id), .ok (some session)⟩ h w

/-- Where what has been read, and what is cached, comes from. -/
structure History (hash : RawToken → TokenHash) (ttl : ℕ) (task : T → Task) (p : AuthPool T)
    (ls : List (Label T Choice Tick)) (w' : BackendWorld T) : Prop where
  read : ∀ t, (task t).isCheck = true → ∀ id session newer older,
    w'.own t = newer ++ ⟨t, .sql (.get .sessions id), .ok (some session)⟩ :: older →
      ∃ w, ReadAt hash p ls t id session w ∧ w.state.clock ≤ w'.state.clock ∧
        ∀ now, ⟨t, .utcNow, .ok now⟩ ∈ newer → w.state.clock ≤ now
  cached : ∀ id, ∀ e ∈ w'.state.redis (sessionRevocationKey id), e.1 = cacheValueActive →
    ∃ t session w v ex r h w₁, (task t).isCheck = true ∧ ReadAt hash p ls t id session w ∧
      session.revokedAt = none ∧ w.state.clock < session.expiresAt ∧
        (machine T hash).Performed p ls t ⟨t, .redisSet (sessionRevocationKey id) v ex, r⟩ h w₁ ∧
          e.2 = w₁.state.clock + ttl

theorem ReadAt.append {session : Session} (h : ReadAt hash p ls t id session w)
    (ls' : List (Label T Choice Tick)) : ReadAt hash p (ls ++ ls') t id session w := by
  obtain ⟨hrow, older, hperf⟩ := h
  exact ⟨hrow, older, hperf.append ls'⟩

theorem History.refl_nil (hp : Start jwtDecode ttl task p) : History hash ttl task p [] p.world where
  read t _ id session newer older hown := by
    rw [World.own, hp.trace] at hown
    cases newer <;> cases hown
  cached id e he := by
    rw [hp.cache] at he
    cases he

/-- A process does something. -/
theorem History.proc {o : Op} {r : Except Exc o.Res} {c : Choice}
    {k : Except Exc o.Res → Prog Op Op.Res Exc (Option AuthenticatedUser)}
    (hi : (contract hash ttl task).inv q.world) (hq : (machine T hash).run p ls = some q)
    (h : History hash ttl task p ls q.world) (hk : q.prog t = .call o k)
    (hx : (machine T hash).exec t o c q.world.state = some (r, s))
    (hg : (contract hash ttl task).guar t o r q.world (q.world.after t o r s)) :
    History hash ttl task p (ls ++ [.proc t c]) (q.world.after t o r s) := by
  have hperf := Machine.performed_concat hq hk hx
  have hclock : s.clock = q.world.state.clock := exec_clock hx
  constructor
  · intro t' ht' id session newer older hown
    by_cases ht : t = t'
    · subst ht
      rw [World.own_after] at hown
      cases newer with
      | nil =>
        obtain ⟨hhead, rfl⟩ := List.cons.inj hown
        cases hhead
        -- a check holds no row, so that what it sees is what is committed
        have hview := (exec_getTable hx).2 _ rfl
        rw [Table.view_of_not_holds (hi t ht' .sessions id)] at hview
        exact ⟨q.world, ⟨hview.symm, _, hperf⟩, hclock.ge, nofun⟩
      | cons y newer =>
        obtain ⟨rfl, htail⟩ := List.cons.inj hown
        obtain ⟨w, hread, hle, hnow⟩ := h.read t ht' id session newer older htail
        refine ⟨w, hread.append _, hle.trans hclock.ge, fun now hmem => ?_⟩
        obtain heq | hmem := List.mem_cons.mp hmem
        · cases heq
          rw [Except.ok.inj (exec_utcNow hx).1]
          exact hle
        · exact hnow now hmem
    · rw [World.own_after_of_ne ht] at hown
      obtain ⟨w, hread, hle, hnow⟩ := h.read t' ht' id session newer older hown
      exact ⟨w, hread.append _, hle.trans hclock.ge, hnow⟩
  · intro id e he hactive
    obtain hold | ⟨v, ex, rfl | rfl, rfl⟩ := exec_redis_entry hx he
    · obtain ⟨t₁, session, w, v, ex, r₁, h₁, w₁, hcheck, hread, hnone, hlt, hset, hexp⟩ :=
        h.cached id e hold hactive
      exact ⟨t₁, session, w, v, ex, r₁, h₁, w₁, hcheck, hread.append _, hnone, hlt,
        hset.append _, hexp⟩
    · obtain ⟨hcheck, rfl, session, now, older, hown, hnone, hlt⟩ := (hg id v ex).2 rfl hactive
      obtain ⟨w, hread, -, hnow⟩ := h.read t hcheck id session [_] older hown
      exact ⟨t, session, w, v, ex, r, _, q.world, hcheck, hread.append _, hnone,
        (hnow now (List.mem_singleton.mpr rfl)).trans_lt hlt, hperf, rfl⟩
    · exact absurd rfl (hg id v ex).1

theorem History.event {e : Tick} (h : History hash ttl task p ls w)
    (he : (machine T hash).event e w.state = some s) :
    History hash ttl task p (ls ++ [.event e]) ⟨s, w.trace⟩ := by
  cases e with
  | tick n =>
    cases he
    constructor
    · intro t ht id session newer older hown
      obtain ⟨w₁, hread, hle, hnow⟩ := h.read t ht id session newer older hown
      exact ⟨w₁, hread.append _, hle.trans (Nat.le_add_right _ _), hnow⟩
    · intro id e he hactive
      obtain ⟨t₁, session, w₁, v, ex, r₁, h₁, w₂, hcheck, hread, hnone, hlt, hset, hexp⟩ :=
        h.cached id e he hactive
      exact ⟨t₁, session, w₁, v, ex, r₁, h₁, w₂, hcheck, hread.append _, hnone, hlt,
        hset.append _, hexp⟩

/-- What the requests end with. -/
def Ends (jwtDecode : Text → Time → Except Exc Json) (task : T → Task) (t : T)
    (x : Option AuthenticatedUser) (w : BackendWorld T) : Prop :=
  match task t with
  | .authenticated credentials => ∃ current, x = some current ∧
      Concluded jwtDecode t credentials current (w.own t)
  | .systemAdmin credentials => ∃ current, x = some current ∧
      Concluded jwtDecode t credentials current (w.own t) ∧
        ∃ user, ⟨t, .sql (.get .users current.userId), .ok (some user)⟩ ∈ w.own t ∧
          user.isSystemAdmin = true
  | _ => True

/-- What they raise: `401`, `403` where the privilege is asked for, what decoding the token raised,
or what they were answered. -/
def Refused (jwtDecode : Text → Time → Except Exc Json) (task : T → Task) (t : T) (e : Exc)
    (w : BackendWorld T) : Prop :=
  match task t with
  | .authenticated credentials =>
    (e = unauthorized ∨ Undecoded jwtDecode t credentials e (w.own t)) ∨ Answered t e w
  | .systemAdmin credentials => ((e = unauthorized ∨
      Undecoded jwtDecode t credentials e (w.own t)) ∨ e = .httpException 403) ∨ Answered t e w
  | _ => True

theorem Start.sound (hp : Start jwtDecode ttl task p) :
    (contract hash ttl task).Sound (Ends jwtDecode task) (Refused jwtDecode task) p where
  inv t _ τ k hk := by
    obtain ⟨x, hx⟩ := hk
    rw [hp.hold] at hx
    cases hx
  safe t := by
    have hown : p.world.own t = [] := by rw [World.own, hp.trace, List.filter_nil]
    rw [hp.prog]
    cases ht : task t with
    | authenticated credentials =>
      refine ⟨fun w => w.own t = [], .history (· = []), hown, ?_⟩
      refine Contract.Safe.bind ((safe_requireAuth (by rw [ht]; rfl) credentials).mono
        (fun _ _ hw => hw) (fun _ _ _ hw => hw) fun e w _ hw => ?_) fun x w _ hw => ?_
      · simpa only [Refused, ht] using hw
      · simp only [Ends, ht]
        exact ⟨x, rfl, hw⟩
    | systemAdmin credentials =>
      refine ⟨fun w => w.own t = [], .history (· = []), hown, ?_⟩
      refine Contract.Safe.bind ((safe_requireSystemAdmin (by rw [ht]; rfl) credentials).mono
        (fun _ _ hw => hw) (fun _ _ _ hw => hw) fun e w _ hw => ?_) fun current w _ hw => ?_
      · simpa only [Refused, ht] using hw
      · simp only [Ends, ht]
        exact ⟨current, rfl, hw⟩
    | check id =>
      refine ⟨fun w => After [] (w.own t), .history _, ⟨_, (List.append_nil _).symm⟩, ?_⟩
      refine Contract.Safe.bind ((safe_isSessionActive (by rw [ht]; rfl)).mono
        (fun _ _ hw => hw) (fun _ _ _ hw => hw) fun e w _ _ => ?_) fun _ w _ _ => ?_
      · simp only [Refused, ht]
      · simp only [Ends, ht]
    | other program =>
      refine ⟨fun _ => True, .const True, trivial, ?_⟩
      refine (safe_other (by rw [ht]; rfl) (hp.other t program ht)).mono (fun _ _ hw => hw)
        (fun _ w _ _ => ?_) fun _ w _ _ => ?_
      · simp only [Ends, ht]
      · simp only [Refused, ht]

/-- Every run has such a history. -/
theorem history_of_run (hp : Start jwtDecode ttl task p)
    (hr : (machine T hash).run p ls = some q) :
    (contract hash ttl task).Sound (Ends jwtDecode task) (Refused jwtDecode task) q ∧
      History hash ttl task p ls q.world := by
  refine Contract.Sound.history (H := fun ls q => History hash ttl task p ls q.world)
    (fun ls m t c o k r s hm h hk hx hg => ?_) (fun ls m e s _ h he => h.event he) eventsOk
    hp.sound (.refl_nil hp) (Machine.meets_always ls) hr
  exact h.proc (hp.sound.run eventsOk (Machine.meets_always ls) hm).inv hm hk hx hg

/-! ### The result -/

/-- The credentials a request is made with, and whether it takes a system admin. -/
def Task.asks : Task → Option (Option Credentials × Bool)
  | .authenticated credentials => some (credentials, false)
  | .systemAdmin credentials => some (credentials, true)
  | _ => none

/-- What an acceptance goes by. -/
structure Fresh (hash : RawToken → TokenHash) (jwtDecode : Text → Time → Except Exc Json) (δ ttl : ℕ)
    (p : AuthPool T) (ls : List (Label T Choice Tick)) (t : T) (credentials : Option Credentials)
    (systemAdmin : Bool) (current : AuthenticatedUser) : Prop where
  token : ∃ token, bearerToken credentials = some token ∧ (machine T hash).During p ls t fun w =>
    identify jwtDecode token w.state.clock = .ok current
  session : (machine T hash).During p ls t fun w => (machine T hash).Passes p ls fun w' =>
    Valid current.sessionId w' ∧ w.state.clock ≤ w'.state.clock + (ttl + δ)
  active : (machine T hash).During p ls t fun w => ∃ user,
    (w.state.db .users).committed current.userId = some user ∧ user.isActive = true
  admin : systemAdmin = true → (machine T hash).During p ls t fun w => ∃ user,
    (w.state.db .users).committed current.userId = some user ∧ user.isSystemAdmin = true

/-- What a process has done was done in a state that the contract describes. -/
theorem performed_sound {x : Entry T Op Op.Res Exc} (hp : Start jwtDecode ttl task p)
    (hx : (machine T hash).Performed p ls t x h w) :
    (contract hash ttl task).inv w ∧ ∃ ls', History hash ttl task p ls' w ∧
      ∀ t y h' w', (machine T hash).Performed p ls' t y h' w' →
        (machine T hash).Performed p ls t y h' w' := by
  obtain ⟨ls₁, c, ls₂, m, m', rfl, hm, -, rfl, -⟩ := hx
  obtain ⟨hsound, hhistory⟩ := history_of_run hp hm
  exact ⟨hsound.inv, ls₁, hhistory, fun t y h' w' hy => hy.append _⟩

/-- A verdict that was learned was right, not long ago. -/
theorem Learned.fresh (hl : Learned t id (q.world.own t)) (hp : Start jwtDecode ttl task p)
    (ht : (task t).isCheck = true) (hδ : Prompt hash task δ p ls)
    (hr : (machine T hash).run p ls = some q) :
    (machine T hash).During p ls t fun w => (machine T hash).Passes p ls fun w' =>
      Valid id w' ∧ w.state.clock ≤ w'.state.clock + (ttl + δ) := by
  have hstart : p.world.own t = [] := by rw [World.own, hp.trace, List.filter_nil]
  obtain ⟨newer, older, hown, ⟨rest, rfl⟩ | ⟨session, now, rest, rfl, hnone, hlt⟩⟩ := hl
  · obtain ⟨w, hperf⟩ := Machine.performed_of_own hstart hr hown
    obtain ⟨c, s, hexec⟩ := hperf.exec
    have hget := (exec_redisGet hexec).2 _ rfl
    obtain ⟨e, he, hif⟩ := Option.bind_eq_some_iff.mp hget.symm
    split at hif
    · rename_i hexpires
      obtain ⟨-, ls', hhistory, hlift⟩ := performed_sound hp hperf
      obtain ⟨t₁, session, w₀, v, ex, r, h₁, w₁, hcheck, ⟨hrow, h₀, hread⟩, hnone, hlt, hset, hexp⟩ :=
        hhistory.cached id e he (Option.some.inj hif)
      have hprompt := hδ t₁ hcheck id _ _ _ _ _ _ _ _ (hlift _ _ _ _ hread) (hlift _ _ _ _ hset)
      refine ⟨_, _, w, hperf, (hlift _ _ _ _ hread).passes ⟨⟨session, hrow, hnone, hlt⟩, ?_⟩⟩
      calc w.state.clock ≤ w₁.state.clock + ttl := by rw [← hexp]; exact hexpires.le
        _ ≤ w₀.state.clock + δ + ttl := Nat.add_le_add_right hprompt ttl
        _ = w₀.state.clock + (ttl + δ) := by rw [Nat.add_assoc, Nat.add_comm δ]
    · cases hif
  · obtain ⟨-, hhistory⟩ := history_of_run hp hr
    obtain ⟨w, ⟨hrow, h₀, hread⟩, -, hnow⟩ :=
      hhistory.read t ht id session (newer ++ [⟨t, .utcNow, .ok now⟩]) rest (by
        rw [hown, List.append_assoc]
        rfl)
    have hclock := hnow now (List.mem_append_right _ (List.mem_singleton.mpr rfl))
    exact ⟨_, _, w, hread, hread.passes
      ⟨⟨session, hrow, hnone, hclock.trans_lt hlt⟩, Nat.le_add_right _ _⟩⟩

/-- What the request read of the clock, it read at a moment of the request. -/
theorem during_utcNow {now : Time} {P : Time → Prop} (hp : Start jwtDecode ttl task p)
    (hr : (machine T hash).run p ls = some q) (h : After [⟨t, .utcNow, .ok now⟩] (q.world.own t))
    (hnow : P now) : (machine T hash).During p ls t fun w => P w.state.clock := by
  have hstart : p.world.own t = [] := by rw [World.own, hp.trace, List.filter_nil]
  obtain ⟨newer, hown⟩ := h
  obtain ⟨w, hperf⟩ := Machine.performed_of_own hstart hr hown
  obtain ⟨c, s, hexec⟩ := hperf.exec
  have hclock : now = w.state.clock := Except.ok.inj (exec_utcNow hexec).1
  rw [hclock] at hnow
  exact ⟨_, _, w, hperf, hnow⟩

/-- So with a row of a user. -/
theorem during_user {u : UserId} {user : User} (hp : Start jwtDecode ttl task p)
    (ht : (task t).isCheck = true) (hr : (machine T hash).run p ls = some q)
    (h : ⟨t, .sql (.get .users u), .ok (some user)⟩ ∈ q.world.own t) :
    (machine T hash).During p ls t fun w => (w.state.db .users).committed u = some user := by
  have hstart : p.world.own t = [] := by rw [World.own, hp.trace, List.filter_nil]
  obtain ⟨old, w, hperf⟩ := Machine.performed_of_mem hstart hr h
  obtain ⟨c, s, hexec⟩ := hperf.exec
  have hview := (exec_getTable hexec).2 _ rfl
  rw [Table.view_of_not_holds ((performed_sound hp hperf).1 t ht .users u)] at hview
  exact ⟨_, _, w, hperf, hview.symm⟩

/-- A conclusion of the request's own reads. -/
theorem Concluded.fresh {systemAdmin : Bool}
    (hc : Concluded jwtDecode t credentials current (q.world.own t))
    (hadmin : systemAdmin = true →
      ∃ user, ⟨t, .sql (.get .users current.userId), .ok (some user)⟩ ∈ q.world.own t ∧
        user.isSystemAdmin = true) (hp : Start jwtDecode ttl task p)
    (ht : (task t).isCheck = true) (hδ : Prompt hash task δ p ls)
    (hr : (machine T hash).run p ls = some q) :
    Fresh hash jwtDecode δ ttl p ls t credentials systemAdmin current where
  token := by
    obtain ⟨token, now, hbearer, hidentify, hafter⟩ := hc.token
    exact ⟨token, hbearer, during_utcNow
      (P := fun now => identify jwtDecode token now = .ok current) hp hr hafter hidentify⟩
  session := hc.session.fresh hp ht hδ hr
  active := by
    obtain ⟨user, hmem, hactive⟩ := hc.active
    exact (during_user hp ht hr hmem).mono fun w hrow => ⟨user, hrow, hactive⟩
  admin hsystem := by
    obtain ⟨user, hmem, hsystemAdmin⟩ := hadmin hsystem
    exact (during_user hp ht hr hmem).mono fun w hrow => ⟨user, hrow, hsystemAdmin⟩

/-- **Authentication is fresh.** Whatever other requests do, besides writing verdicts: whoever is
accepted is whom the token names, was active at a moment of the request (and a system admin at one,
where that is asked for), and in a session that was valid at a moment not longer ago than the time
to live of the cache and the delay of a check; whoever is not is refused with `401` (`403`), unless
an operation raised, or the decoding of the token did that is no verdict on it. -/
theorem accepted_fresh {systemAdmin : Bool}
    (hp : Start jwtDecode ttl task p₀) (hδ : Prompt hash task δ p₀ ls)
    (hr : (machine T hash).run p₀ ls = some p)
    (ht : (task t).asks = some (credentials, systemAdmin)) :
    (∀ x, p.prog t = .ret x → ∃ current, x = some current ∧
      Fresh hash jwtDecode δ ttl p₀ ls t credentials systemAdmin current) ∧
    ∀ e, p.prog t = .raise e → e = unauthorized ∨ systemAdmin = true ∧ e = .httpException 403 ∨
      Answered t e p.world ∨ ∃ token, bearerToken credentials = some token ∧
        e ≠ .invalidTokenError ∧ (machine T hash).During p₀ ls t fun w =>
          decodeAccessToken jwtDecode token w.state.clock = .error e := by
  have hsound := (history_of_run hp hr).1
  have hundecoded : ∀ e, Undecoded jwtDecode t credentials e (p.world.own t) →
      ∃ token, bearerToken credentials = some token ∧ e ≠ .invalidTokenError ∧
        (machine T hash).During p₀ ls t fun w =>
          decodeAccessToken jwtDecode token w.state.clock = .error e := by
    intro e he
    obtain ⟨token, now, hbearer, hdecode, hne, hafter⟩ := he
    exact ⟨token, hbearer, hne, during_utcNow
      (P := fun now => decodeAccessToken jwtDecode token now = .error e) hp hr hafter hdecode⟩
  cases htask : task t with
  | authenticated c =>
    rw [htask] at ht
    cases ht
    refine ⟨fun x hx => ?_, fun e he => ?_⟩
    · have hend := hsound.ret hx
      simp only [Ends, htask] at hend
      obtain ⟨current, rfl, hc⟩ := hend
      exact ⟨current, rfl, hc.fresh nofun hp (by rw [htask]; rfl) hδ hr⟩
    · have hend := hsound.raise he
      simp only [Refused, htask] at hend
      obtain (h401 | hdecode) | hanswered := hend
      · exact .inl h401
      · exact .inr (.inr (.inr (hundecoded e hdecode)))
      · exact .inr (.inr (.inl hanswered))
  | systemAdmin c =>
    rw [htask] at ht
    cases ht
    refine ⟨fun x hx => ?_, fun e he => ?_⟩
    · have hend := hsound.ret hx
      simp only [Ends, htask] at hend
      obtain ⟨current, rfl, hc, hadmin⟩ := hend
      exact ⟨current, rfl, hc.fresh (fun _ => hadmin) hp (by rw [htask]; rfl) hδ hr⟩
    · have hend := hsound.raise he
      simp only [Refused, htask] at hend
      obtain ((h401 | hdecode) | h403) | hanswered := hend
      · exact .inl h401
      · exact .inr (.inr (.inr (hundecoded e hdecode)))
      · exact .inr (.inl ⟨rfl, h403⟩)
      · exact .inr (.inr (.inl hanswered))
  | check id =>
    rw [htask] at ht
    cases ht
  | other program =>
    rw [htask] at ht
    cases ht

/-! ### A verdict that has gone stale -/

theorem clock_run (hr : (machine T hash).run p ls = some q) :
    p.world.state.clock ≤ q.world.state.clock := by
  refine Machine.run_induction (C := .always)
    (P := fun q : AuthPool T => p.world.state.clock ≤ q.world.state.clock)
    (fun m l n hm _ hs => hm.trans ?_) le_rfl (Machine.meets_always ls) hr
  cases l with
  | event e =>
    obtain ⟨s, he, rfl⟩ := Machine.step_event hs
    cases e with
    | tick n =>
      cases he
      exact Nat.le_add_right _ _
  | proc t c =>
    obtain ⟨o, k, r, s, -, hx, rfl⟩ := Machine.step_proc hs
    exact (exec_clock hx).ge

/-- No check takes longer than the run. -/
theorem prompt_of_run (hr : (machine T hash).run p ls = some q) :
    Prompt hash task q.world.state.clock p ls := by
  intro t _ id x h w v ex r h' w' _ hset
  obtain ⟨ls₁, c, ls₂, m, m', rfl, hm, -, rfl, -⟩ := hset
  obtain ⟨n, hn, hrest⟩ := Machine.run_append_some hr
  obtain rfl : m = n := Option.some.inj (hm.symm.trans hn)
  exact (clock_run hrest).trans (Nat.le_add_left _ _)

/-- The claims of a token of user 10 in session 1. -/
def tenInOne (token : Text) (now : Time) : Except Exc Json :=
  if token = ['t'] ∧ now < 900 then
    .ok (.object [(subKey, .string (Uuid.str 10)), (sidKey, .string (Uuid.str 1)),
      (iatKey, .number ['0']), (expKey, .number ['9', '0', '0'])])
  else .error .jwtError

local instance neZeroChecks : NeZero 3 := ⟨by decide⟩

/-- A connection of session 1 is checked, the session is logged out, and a request comes in. -/
def staleTasks : Fin 3 → Task
  | 0 => .check 1
  | 1 => .other ((logout 1 10).bind fun _ => .ret none)
  | 2 => .authenticated (some ⟨['B', 'e', 'a', 'r', 'e', 'r'], ['t']⟩)

def staleRequests : AuthPool (Fin 3) where
  world := ⟨State.ofRows fun
    | .users => [(10, ⟨[], [], [], [], [], true, false, false, 0⟩)]
    | .sessions => [(1, ⟨10, 7, 0, none, days 30, none⟩)]
    | _ => [], []⟩
  prog t := (staleTasks t).program tenInOne 60

theorem staleRequests_start : Start tenInOne 60 staleTasks staleRequests where
  prog _ := rfl
  trace := rfl
  hold _ _ := rfl
  cache _ := rfl
  other t program ht := by
    match t with
    | 0 => cases ht
    | 2 => cases ht
    | 1 =>
      cases ht
      refine Prog.Only.bind (Prog.Only.bind (Py.only_attempt ?_) fun r => ?_) fun _ => trivial
      · refine Prog.Only.bind ?_ fun _ => ?_
        · refine Prog.Only.bind (Prog.only_perform fun _ _ _ => ⟨nofun, nofun⟩) fun x => ?_
          cases x with
          | none => trivial
          | some session =>
            show Prog.Only _ (if _ then _ else _)
            split
            · trivial
            split
            · refine Prog.Only.bind (Prog.only_perform fun _ _ _ => ⟨nofun, nofun⟩) fun now => ?_
              exact Prog.Only.bind (Py.only_flushUpdate fun _ _ _ => ⟨nofun, nofun⟩)
                fun _ => trivial
            · trivial
        · refine Prog.Only.bind (Prog.only_perform fun _ _ _ => ⟨nofun, nofun⟩) fun _ => ?_
          refine Prog.Only.handle (Prog.only_perform fun _ _ _ => ⟨nofun, nofun⟩) fun e => ?_
          split <;> trivial
      · refine Prog.Only.bind (Py.only_closeSession (fun _ _ _ _ _ => ⟨nofun, nofun⟩)
          fun _ _ _ => ⟨nofun, nofun⟩) fun _ => ?_
        cases r <;> trivial

/-- `n` awaits of request `t`. -/
def answered (t : Fin 3) (n : ℕ) : List (Label (Fin 3) Choice Tick) :=
  List.replicate n (.proc t (.ok [] 0))

/-- The verdict is cached; the session is revoked, but Redis does not answer the `DEL`; five seconds
later the request finds the verdict. -/
def staleRun : List (Label (Fin 3) Choice Tick) :=
  answered 0 4 ++ answered 1 4 ++ [.proc 1 (.fail .redisError)] ++ answered 1 2 ++
    [.event (.tick 5)] ++ answered 2 3

theorem accepted_fresh_stale :
    ∃ q, (machine (Fin 3) fun n => n).run staleRequests staleRun = some q ∧
      ¬ Valid 1 q.world ∧ q.prog 2 = .ret (some ⟨10, 1⟩) ∧
        Fresh (fun n => n) tenInOne 5 60 staleRequests staleRun 2
          (some ⟨['B', 'e', 'a', 'r', 'e', 'r'], ['t']⟩) false ⟨10, 1⟩ := by
  obtain ⟨q, hq⟩ := Option.isSome_iff_exists.mp
    (show ((machine (Fin 3) fun n => n).run staleRequests staleRun).isSome = true by
      decide +kernel)
  have hprompt : Prompt (fun n => n) staleTasks q.world.state.clock staleRequests staleRun :=
    prompt_of_run hq
  have hend : ((machine (Fin 3) fun n => n).run staleRequests staleRun).all (fun q =>
      decide (q.world.state.clock = 5) && decide ((q.prog 2).value = some (some ⟨10, 1⟩)) &&
      (row q.world 1).all fun session => decide (session.revokedAt = some 0)) = true := by
    decide +kernel
  rw [hq, Option.all_some] at hend
  simp only [Bool.and_eq_true, decide_eq_true_eq] at hend
  obtain ⟨⟨hclock, hvalue⟩, hrow⟩ := hend
  have hret := Prog.ret_of_value hvalue
  rw [hclock] at hprompt
  obtain ⟨current, hcurrent, hfresh⟩ :=
    (accepted_fresh staleRequests_start hprompt hq rfl).1 _ hret
  cases hcurrent
  refine ⟨q, hq, fun hvalid => ?_, hret, hfresh⟩
  obtain ⟨session, hsession, hnone, -⟩ := hvalid
  rw [hsession, Option.all_some, decide_eq_true_eq, hnone] at hrow
  cases hrow

end Chatspace.RequireAuth
