import Mathlib.Algebra.GroupWithZero.Nat
import Chatspace.Services.Sessions

/-!
# The revocation cache under interleaving

Any number of `is_session_active` checks and of requests that revoke sessions, step by step in any
order.  Two facts carry the argument: a revoked row stays revoked, whoever commits, and the `DEL`
of an invalidation comes after the commit of the revocation.  What they leave open is the cache
write of a check that read the row before that commit.

* `noStaleActive` — no check writes `active` over an invalidation;
* `inactive_after_invalidation` — **then every check that starts after the invalidation answers
  `False`**;
* `active_after_invalidation` — one such write, and a later check answers `True`.
-/

namespace Chatspace.RevocationCache

open Interleave Store Sessions

/-- One request. -/
inductive Task where
  | check (sessionId : SessionId) (cacheTtlSeconds : ℕ)
  | deleteSession (sessionId : SessionId) (userId : UserId)
  | logout (sessionId : SessionId) (userId : UserId)

/-- A request, with the verdict of those that ask for one. -/
def Task.program : Task → Py (Option Bool)
  | .check id ttl => (isSessionActive id ttl).bind fun active => .ret (some active)
  | .deleteSession id u => (Sessions.deleteSession id u).bind fun _ => .ret none
  | .logout id u => (Sessions.logout id u).bind fun _ => .ret none

variable {T : Type} [DecidableEq T] {hash : RawToken → TokenHash} {t t' : T}
  {w w' : BackendWorld T} {id id₀ : SessionId} {u : UserId} {P : Prop}

/-- The session is revoked, for everybody to see. -/
def Revoked (id : SessionId) (w : BackendWorld T) : Prop :=
  ∃ s, row w id = some s ∧ s.revokedAt ≠ none

/-- The session belongs to `u`. -/
def Owned (id : SessionId) (u : UserId) (w : BackendWorld T) : Prop :=
  ∃ s, row w id = some s ∧ s.userId = u

/-- The `DEL` of an invalidation of session `id`, carried out. -/
def isInvalidation (id : SessionId) : Entry T Op Op.Res Exc → Bool
  | ⟨_, .redisDelete k, .ok _⟩ => k = sessionRevocationKey id
  | _ => false

/-- The cache entry of session `id` has been invalidated. -/
def Invalidated (id : SessionId) (w : BackendWorld T) : Prop :=
  ∃ e ∈ w.trace, isInvalidation id e = true

/-- Uncommitted versions of sessions are revocations, and `id₀` is not cached as active once it has
been invalidated. -/
structure Inv (id₀ : SessionId) (w : BackendWorld T) : Prop where
  pending : ∀ id t v, (w.state.db .sessions).hold id = some ⟨t, some v⟩ →
    ∃ s s₀, v = some s ∧ row w id = some s₀ ∧ s.revokedAt ≠ none ∧ s.userId = s₀.userId
  revoked : Invalidated id₀ w → Revoked id₀ w
  cached : Invalidated id₀ w →
    ∀ e ∈ w.state.redis (sessionRevocationKey id₀), e.1 ≠ cacheValueActive

/-- No session loses its row, its owner or its revocation. -/
def Guar (w w' : BackendWorld T) : Prop :=
  ∀ id s, row w id = some s → ∃ s', row w' id = some s' ∧ s'.userId = s.userId ∧
    (s.revokedAt ≠ none → s'.revokedAt ≠ none)

/-- No check writes the verdict `active` for `id₀` after an invalidation of it. -/
abbrev noStaleActive (id₀ : SessionId) :
    Machine.Condition T Op Op.Res Exc Choice Tick (State T) where
  op _ o _ w := ∀ x ∈ o.redisSets,
    x.1 = sessionRevocationKey id₀ → Invalidated id₀ w → x.2 ≠ cacheValueActive
  event _ _ := True

instance (id : SessionId) (w : BackendWorld T) : Decidable (Invalidated id w) :=
  inferInstanceAs (Decidable (∃ e ∈ w.trace, isInvalidation id e = true))

def contract (hash : RawToken → TokenHash) (id₀ : SessionId) : Contract (machine T hash) where
  inv := Inv id₀
  pre := noStaleActive id₀
  guar _ _ _ := Guar

/-! ### What the steps keep -/

omit [DecidableEq T] in
theorem Guar.of_rows (h : ∀ id, row w' id = row w id) : Guar w w' :=
  fun id s hs => ⟨s, (h id).trans hs, rfl, fun hr => hr⟩

omit [DecidableEq T] in
theorem Guar.revoked (h : Guar w w') (hr : Revoked id w) : Revoked id w' := by
  obtain ⟨s, hs, hrev⟩ := hr
  obtain ⟨s', hs', -, hrev'⟩ := h id s hs
  exact ⟨s', hs', hrev' hrev⟩

omit [DecidableEq T] in
theorem Guar.owned (h : Guar w w') (ho : Owned id u w) : Owned id u w' := by
  obtain ⟨s, hs, hu⟩ := ho
  obtain ⟨s', hs', hu', -⟩ := h id s hs
  exact ⟨s', hs', hu'.trans hu⟩

/-- What a transaction sees of a session is the committed row, or a revocation of it. -/
theorem Inv.view (hi : Inv id₀ w) (t : T) {s₀ : Session} (h : row w id = some s₀) :
    ∃ s, (w.state.db .sessions).view t id = some s ∧ s.userId = s₀.userId ∧
      (s₀.revokedAt ≠ none → s.revokedAt ≠ none) := by
  obtain hv | ⟨v, hhold, hv⟩ := (w.state.db .sessions).view_cases t id
  · exact ⟨s₀, hv.trans h, rfl, fun hr => hr⟩
  · obtain ⟨s, s₁, rfl, h₁, hrev, hu⟩ := hi.pending id t v hhold
    have h₀ : s₁ = s₀ := Option.some.inj (h₁.symm.trans h)
    subst h₀
    exact ⟨s, hv, hu, fun _ => hrev⟩

omit [DecidableEq T] in
/-- A step that adds no invalidation and no entry to the cache keeps the invariant if it keeps the
versions in order. -/
theorem Inv.of_guar (hi : Inv id₀ w) (hg : Guar w w')
    (hpending : ∀ id t v, (w'.state.db .sessions).hold id = some ⟨t, some v⟩ →
      ∃ s s₀, v = some s ∧ row w' id = some s₀ ∧ s.revokedAt ≠ none ∧ s.userId = s₀.userId)
    (htrace : Invalidated id₀ w' → Invalidated id₀ w)
    (hredis : ∀ e ∈ w'.state.redis (sessionRevocationKey id₀),
      e ∈ w.state.redis (sessionRevocationKey id₀)) : Inv id₀ w' where
  pending := hpending
  revoked h := hg.revoked (hi.revoked (htrace h))
  cached h e he := hi.cached (htrace h) e (hredis e he)

omit [DecidableEq T] in
theorem invalidated_after {o : Op} {r : Except Exc o.Res} {s : State T} :
    Invalidated id (w.after t o r s) ↔
      isInvalidation id (⟨t, o, r⟩ : Entry T Op Op.Res Exc) = true ∨ Invalidated id w := by
  simp [Invalidated]

omit [DecidableEq T] in
/-- A step that leaves the sessions and the cache alone. -/
theorem quiet_step {o : Op} {r : Except Exc o.Res} {s : State T} (hi : Inv id₀ w)
    (hdb : s.db .sessions = w.state.db .sessions) (hredis : s.redis = w.state.redis)
    (ho : isInvalidation id₀ (⟨t, o, r⟩ : Entry T Op Op.Res Exc) = false) :
    Inv id₀ (w.after t o r s) ∧ Guar w (w.after t o r s) := by
  have hrow : ∀ id, row (w.after t o r s) id = row w id := fun id => by
    show (s.db .sessions).committed id = _
    rw [hdb]
    rfl
  refine ⟨hi.of_guar (.of_rows hrow) (fun id t' v hv => ?_) (fun h => ?_) ?_, .of_rows hrow⟩
  · rw [World.after_state, hdb] at hv
    obtain ⟨s₁, s₀, h₁, h₀, h⟩ := hi.pending id t' v hv
    exact ⟨s₁, s₀, h₁, (hrow id).trans h₀, h⟩
  · exact (invalidated_after.mp h).resolve_left (by simp [ho])
  · rw [World.after_state, hredis]
    exact fun e he => he

/-- A statement that leaves nothing new uncommitted and commits what `t` has written. -/
theorem settle_step {o : Stmt schema} {r : Except Exc o.Res} {d : Db T schema} (hi : Inv id₀ w)
    (hhold : (d .sessions).hold = (w.state.db .sessions).release t)
    (hrow : ∀ id, (d .sessions).committed id = row w id ∨
      (d .sessions).committed id = (w.state.db .sessions).view t id) :
    Inv id₀ (w.after t (.sql o) r { w.state with db := d }) ∧
      Guar w (w.after t (.sql o) r { w.state with db := d }) := by
  have hg : Guar w (w.after t (.sql o) r { w.state with db := d }) := by
    intro id s hs
    obtain h | h := hrow id
    · exact ⟨s, h.trans hs, rfl, fun hr => hr⟩
    · obtain ⟨s', hs', hu, hr⟩ := hi.view t hs
      exact ⟨s', h.trans hs', hu, hr⟩
  refine ⟨hi.of_guar hg (fun id t' v hv => ?_) (fun h => ?_) fun e he => he, hg⟩
  · have hv' : (d .sessions).hold id = some ⟨t', some v⟩ := hv
    rw [hhold] at hv'
    obtain ⟨s, s₀, rfl, h₀, hrev, hu⟩ := hi.pending id t' v (Table.release_eq_some hv').1
    obtain ⟨s', hs', hu', -⟩ := hg id s₀ h₀
    exact ⟨s, s', rfl, hs', hrev, hu.trans hu'.symm⟩
  · exact (invalidated_after.mp h).resolve_left nofun

/-- What is seen of a session has a committed row. -/
theorem Inv.row_of_view (hi : Inv id₀ w) {x : Session}
    (h : (w.state.db .sessions).view t id = some x) :
    ∃ s₀, row w id = some s₀ ∧ x.userId = s₀.userId := by
  obtain hv | ⟨v, hhold, hv⟩ := (w.state.db .sessions).view_cases t id
  · exact ⟨x, hv.symm.trans h, rfl⟩
  · obtain ⟨s, s₀, rfl, h₀, -, hu⟩ := hi.pending id t v hhold
    have hx : x = s := Option.some.inj (h.symm.trans hv)
    exact ⟨s₀, h₀, by rw [hx, hu]⟩

/-- `t` sees the session as revoked. -/
def Dead (t : T) (id : SessionId) (w : BackendWorld T) : Prop :=
  ∃ s, (w.state.db .sessions).view t id = some s ∧ s.revokedAt ≠ none

theorem revoke_step {p : Session → Bool} {ts : Time} {r : Except Exc Bool} {s : State T}
    {c : Choice} (hi : Inv id₀ w)
    (h : (machine T hash).exec t (.sql (.update .sessions id p (Session.revoke ts))) c w.state =
      some (r, s)) :
    Inv id₀ (w.after t (.sql (.update .sessions id p (Session.revoke ts))) r s) ∧
      Guar w (w.after t (.sql (.update .sessions id p (Session.revoke ts))) r s) ∧
      (r = .ok true →
        Dead t id (w.after t (.sql (.update .sessions id p (Session.revoke ts))) r s)) := by
  obtain ⟨d, hd, rfl⟩ := exec_sql h
  obtain ⟨rfl, hr⟩ | ⟨x, -, hx, -, hset, rfl⟩ := exec_update hd
  · obtain ⟨hi', hg⟩ := quiet_step (t := t) (r := r)
      (o := .sql (.update .sessions id p (Session.revoke ts))) hi rfl rfl rfl
    exact ⟨hi', hg, fun h => absurd h hr⟩
  have hwrite : d .sessions = (w.state.db .sessions).write t id (some (Session.revoke ts x)) := by
    rw [hset]
    exact Db.set_self ..
  have hrow : ∀ j, (d .sessions).committed j = row w j := fun j => by rw [hwrite]; rfl
  obtain ⟨s₀, h₀, hu⟩ := hi.row_of_view hx
  refine ⟨hi.of_guar (.of_rows hrow) (fun j t' v hv => ?_) (fun h => ?_) fun e he => he,
    .of_rows hrow, fun _ => ?_⟩
  · change (d .sessions).hold j = _ at hv
    rw [hwrite] at hv
    by_cases hj : j = id
    · subst hj
      rw [Table.hold_write_self] at hv
      cases hv
      exact ⟨Session.revoke ts x, s₀, rfl, (hrow j).trans h₀, Option.some_ne_none ts, hu⟩
    · rw [Table.hold_write_of_ne hj] at hv
      obtain ⟨s, s₁, hs, h₁, h⟩ := hi.pending j t' v hv
      exact ⟨s, s₁, hs, (hrow j).trans h₁, h⟩
  · exact (invalidated_after.mp h).resolve_left nofun
  · refine ⟨Session.revoke ts x, ?_, Option.some_ne_none ts⟩
    show (d .sessions).view t id = _
    rw [hwrite]
    exact Table.view_write_self

/-- The operations that leave the sessions and the cache alone, or settle a transaction. -/
def Harmless : Op → Prop
  | .sql (.get ..) | .sql (.select ..) | .sql .commit | .sql .rollback | .redisGet _ | .utcNow => True
  | _ => False

theorem harmless_step {o : Op} (ho : Harmless o) {r : Except Exc o.Res} {s : State T} {c : Choice}
    (hi : Inv id₀ w) (h : (machine T hash).exec t o c w.state = some (r, s)) :
    Inv id₀ (w.after t o r s) ∧ Guar w (w.after t o r s) := by
  unfold Harmless at ho
  split at ho
  · obtain ⟨d, hd, rfl⟩ := exec_sql h
    obtain ⟨rfl, -⟩ := exec_get hd
    exact quiet_step hi rfl rfl rfl
  · obtain ⟨d, hd, rfl⟩ := exec_sql h
    obtain ⟨rfl, -⟩ := exec_select hd
    exact quiet_step hi rfl rfl rfl
  · obtain ⟨d, hd, rfl⟩ := exec_sql h
    obtain ⟨rfl, -⟩ | ⟨rfl, -⟩ := exec_commit hd
    · exact quiet_step hi rfl rfl rfl
    · exact settle_step hi rfl fun _ => .inr rfl
  · obtain ⟨d, hd, rfl⟩ := exec_sql h
    obtain ⟨rfl, -⟩ | ⟨rfl, -⟩ := exec_rollback hd
    · exact quiet_step hi rfl rfl rfl
    · exact settle_step hi rfl fun _ => .inl rfl
  · obtain ⟨rfl, -⟩ := exec_redisGet h
    exact quiet_step hi rfl rfl rfl
  · obtain ⟨-, rfl⟩ := exec_utcNow h
    exact quiet_step hi rfl rfl rfl
  · exact ho.elim

/-! ### Stable knowledge -/

theorem guar_other (h : (contract hash id₀).Other t w w') : Guar w w' := by
  cases h with
  | proc hne hpre hexec hguar => exact hguar
  | event hpre hexec =>
    cases hexec
    exact .of_rows fun _ => rfl

theorem stable_revoked : (contract hash id₀).Stable t (Revoked id) :=
  fun _ _ _ _ ho h => (guar_other ho).revoked h

theorem stable_owned : (contract hash id₀).Stable t (Owned id u) :=
  fun _ _ _ _ ho h => (guar_other ho).owned h

theorem stable_invalidated : (contract hash id₀).Stable t (Invalidated id) := by
  intro w w' _ _ ho h
  cases ho with
  | proc hne hpre hexec hguar => exact invalidated_after.mpr (.inr h)
  | event hpre hexec => exact h

theorem stable_dead : (contract hash id₀).Stable t (Dead t id) := by
  rintro w w' hi - ho ⟨s, hs, hrev⟩
  have hkeeps := other_keeps ho .sessions
  by_cases hk : (w.state.db .sessions).Holds t id
  · exact ⟨s, (hkeeps.view hk).trans hs, hrev⟩
  · rw [Table.view_of_not_holds hk] at hs
    obtain ⟨s', hs', -, hrev'⟩ := guar_other ho id s hs
    have hk' : ¬ (w'.state.db .sessions).Holds t id := fun h => hk (hkeeps.holds.mpr h)
    exact ⟨s', (Table.view_of_not_holds hk').trans hs', hrev' hrev⟩

/-! ### The cache -/

omit [DecidableEq T] in
theorem redis_only {o : Op} {r : Except Exc o.Res} {m : Expiring RedisKey RedisValue}
    (hi : Inv id₀ w) (hrevoked : Invalidated id₀ (w.after t o r { w.state with redis := m }) →
      Revoked id₀ w)
    (hcached : Invalidated id₀ (w.after t o r { w.state with redis := m }) →
      ∀ e ∈ m (sessionRevocationKey id₀), e.1 ≠ cacheValueActive) :
    Inv id₀ (w.after t o r { w.state with redis := m }) ∧
      Guar w (w.after t o r { w.state with redis := m }) :=
  ⟨⟨hi.pending, hrevoked, hcached⟩, .of_rows fun _ => rfl⟩

/-- A cache write keeps the invariant unless it is what the condition excludes. -/
theorem set_step {v : RedisValue} {ttl : ℕ} {r : Except Exc Unit} {s : State T} {c : Choice}
    (hi : Inv id₀ w) (hp : (noStaleActive id₀).op t (.redisSet (sessionRevocationKey id) v ttl) c w)
    (h : (machine T hash).exec t (.redisSet (sessionRevocationKey id) v ttl) c w.state =
      some (r, s)) :
    Inv id₀ (w.after t (.redisSet (sessionRevocationKey id) v ttl) r s) ∧
      Guar w (w.after t (.redisSet (sessionRevocationKey id) v ttl) r s) := by
  obtain ⟨rfl, -⟩ | rfl := exec_redisSet h
  · exact quiet_step hi rfl rfl rfl
  have hold : Invalidated id₀ (w.after t (.redisSet (sessionRevocationKey id) v ttl) r
      { w.state with redis := w.state.redis.set w.state.clock (sessionRevocationKey id) v ttl }) →
      Invalidated id₀ w := fun h => (invalidated_after.mp h).resolve_left nofun
  refine redis_only hi (fun h => hi.revoked (hold h)) fun h e he => ?_
  by_cases hk : sessionRevocationKey id₀ = sessionRevocationKey id
  · rw [← hk, Expiring.set_self] at he
    cases he
    exact hp _ rfl hk.symm (hold h)
  · rw [Expiring.set_of_ne hk] at he
    exact hi.cached (hold h) e he

/-- An invalidation keeps the invariant if the revocation has been committed. -/
theorem delete_step {r : Except Exc Unit} {s : State T} {c : Choice} (hi : Inv id₀ w)
    (hrev : Revoked id w)
    (h : (machine T hash).exec t (.redisDelete (sessionRevocationKey id)) c w.state =
      some (r, s)) :
    Inv id₀ (w.after t (.redisDelete (sessionRevocationKey id)) r s) ∧
      Guar w (w.after t (.redisDelete (sessionRevocationKey id)) r s) := by
  obtain ⟨rfl, hr⟩ | rfl := exec_redisDelete h
  · refine quiet_step hi rfl rfl ?_
    cases r with
    | ok a => exact absurd rfl hr
    | error e => rfl
  by_cases hid : id = id₀
  · subst hid
    refine redis_only hi (fun _ => hrev) fun _ e he => ?_
    rw [Expiring.delete_self] at he
    cases he
  have hk : sessionRevocationKey id₀ ≠ sessionRevocationKey id := fun h => hid (by cases h; rfl)
  have hold : Invalidated id₀ (w.after t (.redisDelete (sessionRevocationKey id)) r
      { w.state with redis := w.state.redis.delete (sessionRevocationKey id) }) →
      Invalidated id₀ w := by
    refine fun h => (invalidated_after.mp h).resolve_left ?_
    cases r with
    | ok a => simpa [isInvalidation] using fun h => hk h.symm
    | error e => simp [isInvalidation]
  refine redis_only hi (fun h => hi.revoked (hold h)) fun h e he => ?_
  rw [Expiring.delete_of_ne hk] at he
  exact hi.cached (hold h) e he

/-! ### The checks -/

/-- What a check knows: if `P`, it asks about `id₀` and comes after an invalidation. -/
def Late (id₀ id : SessionId) (P : Prop) (w : BackendWorld T) : Prop :=
  P → id = id₀ ∧ Invalidated id₀ w

theorem stable_late : (contract hash id₀).Stable t (Late id₀ id P) :=
  .imp fun _ => (Contract.Stable.const _).and stable_invalidated

omit [DecidableEq T] in
theorem Late.after (h : Late id₀ id P w) {o : Op} {r : Except Exc o.Res} {s : State T} :
    Late id₀ id P (w.after t o r s) :=
  fun hP => ⟨(h hP).1, invalidated_after.mpr (.inr (h hP).2)⟩

/-- A harmless operation of a check; `B` is what its answer says. -/
theorem late_step {o : Op} (ho : Harmless o) {B : o.Res → Prop}
    (hB : ∀ w c s a, Inv id₀ w → Late id₀ id P w → (machine T hash).exec t o c w.state =
      some (.ok a, s) → B a) :
    (contract hash id₀).StepOk t (Late id₀ id P) o
      (Contract.Outcome (fun a w => Late id₀ id P w ∧ B a) fun _ => Late id₀ id P) := by
  intro w c r s hi hw _ h
  obtain ⟨hi', hg⟩ := harmless_step ho hi h
  refine ⟨hi', hg, ?_⟩
  cases r with
  | ok a => exact ⟨hw.after, hB w c s a hi hw h⟩
  | error e => exact hw.after

/-- A late check finds the row revoked. -/
theorem safe_readSessionActiveFromDb :
    (contract hash id₀).Safe t (readSessionActiveFromDb id) (Late id₀ id P)
      (fun active w => Late id₀ id P w ∧ (P → active = false)) fun _ => Late id₀ id P := by
  refine Contract.Safe.await
    (fun x w => Late id₀ id P w ∧ ∀ s, x = some s → P → s.revokedAt ≠ none)
    (fun x => stable_late.and (.const _)) (fun _ => stable_late)
    (late_step (by trivial) fun w c s a hi hw h x ha hP => ?_) fun x => ?_
  · obtain ⟨rfl, hinv⟩ := hw hP
    obtain ⟨s₀, h₀, hrev⟩ := hi.revoked hinv
    obtain ⟨x', hx', -, hrev'⟩ := hi.view t h₀
    obtain ⟨d, hd, -⟩ := exec_sql h
    have hview := (exec_get hd).2 a rfl
    rw [ha, hx'] at hview
    cases hview
    exact hrev' hrev
  · match x with
    | none => exact fun w _ hw => ⟨hw.1, fun _ => rfl⟩
    | some session =>
      refine Contract.Safe.await
        (fun _ w => Late id₀ id P w ∧ (P → session.revokedAt ≠ none))
        (fun _ => stable_late.and (.const _)) (fun _ => stable_late) ?_ fun now => ?_
      · intro w c r s hi hw hp h
        obtain ⟨hi', hg, hr⟩ := late_step (B := fun _ => True) (by trivial)
          (fun _ _ _ _ _ _ _ => trivial) w c r s hi hw.1 hp h
        refine ⟨hi', hg, ?_⟩
        cases r with
        | ok now => exact ⟨hr.1, hw.2 session rfl⟩
        | error e => exact hr
      · refine fun w _ hw => ⟨hw.1, fun hP => ?_⟩
        rw [Option.isNone_eq_false_iff.mpr (Option.isSome_iff_ne_none.mpr (hw.2 hP)),
          Bool.false_and]

/-- A late check does not find the verdict `active` in the cache. -/
theorem safe_readCache :
    (contract hash id₀).Safe t (readCache id) (Late id₀ id P)
      (fun cached w => Late id₀ id P w ∧ (P → cached ≠ some (some cacheValueActive)))
      fun _ => Late id₀ id P := by
  have hget : (contract hash id₀).Safe t
      (Prog.perform (Op.redisGet (sessionRevocationKey id))) (Late id₀ id P)
      (fun v w => Late id₀ id P w ∧ (P → v ≠ some cacheValueActive)) fun _ => Late id₀ id P := by
    refine Contract.Safe.perform (fun v => stable_late.and (.const _)) (fun _ => stable_late)
      (late_step (by trivial) fun w c s v hi hw h hP hv => ?_)
    obtain ⟨rfl, hinv⟩ := hw hP
    have hv' := (exec_redisGet h).2 v rfl
    rw [hv] at hv'
    obtain ⟨e, he, hif⟩ := Option.bind_eq_some_iff.mp hv'.symm
    split at hif
    · exact hi.cached hinv e he (Option.some.inj hif)
    · cases hif
  refine Contract.Safe.handle (R := fun _ => Late id₀ id P) ?_ fun e => ?_
  · refine Contract.Safe.bind (hget.handle fun e => ?_) fun v w _ hw => ⟨hw.1, fun hP h => ?_⟩
    · split
      · exact fun w _ hw => hw
      · exact fun w _ hw => hw
    · exact hw.2 hP (Option.some.inj h)
  · split
    · exact fun w _ hw => ⟨hw, fun _ => nofun⟩
    · exact fun w _ hw => hw

theorem safe_writeCache (active : Bool) (ttl : ℕ) :
    (contract hash id₀).Safe t (writeCache id active ttl) (Late id₀ id P)
      (fun _ => Late id₀ id P) fun _ => Late id₀ id P := by
  refine Contract.Safe.handle (R := fun _ => Late id₀ id P) ?_ fun e => ?_
  · refine Contract.Safe.perform (fun _ => stable_late) (fun _ => stable_late) ?_
    intro w c r s hi hw hp h
    obtain ⟨hi', hg⟩ := set_step hi hp h
    refine ⟨hi', hg, ?_⟩
    cases r with
    | ok a => exact hw.after
    | error e => exact hw.after
  · split
    · exact fun w _ hw => hw
    · exact fun w _ hw => hw

/-- A check; if it is late, its verdict is `False`. -/
theorem safe_isSessionActive (ttl : ℕ) :
    (contract hash id₀).Safe t (isSessionActive id ttl) (Late id₀ id P)
      (fun active _ => P → active = false) fun _ _ => True := by
  refine Contract.Safe.mono (R := fun _ => Late id₀ id P)
    (Q := fun active w => Late id₀ id P w ∧ (P → active = false)) ?_ (fun _ _ hw => hw)
    (fun _ _ _ hw => hw.2) fun _ _ _ _ => trivial
  refine Contract.Safe.bind safe_readCache fun cached => ?_
  match cached with
  | none => exact safe_readSessionActiveFromDb.weaken fun _ _ hw => hw.1
  | some (some v) =>
    refine fun w _ hw => ⟨hw.1, fun hP => decide_eq_false fun h => hw.2 hP ?_⟩
    rw [h]
  | some none =>
    refine Contract.Safe.bind (safe_readSessionActiveFromDb.weaken fun _ _ hw => hw.1)
      fun active => ?_
    refine Contract.Safe.bind (Q := fun _ w => Late id₀ id P w ∧ (P → active = false)) ?_
      fun _ w _ hw => hw
    exact Contract.Safe.const fun hactive => (safe_writeCache active ttl).mono (fun _ _ hw => hw)
      (fun _ _ _ hw => ⟨hw, hactive⟩) fun _ _ _ hw => hw

/-! ### The revocations -/

/-- A harmless operation of a revocation. -/
theorem harmless_ok {A : BackendWorld T → Prop} {o : Op} (ho : Harmless o)
    {B : o.Res → BackendWorld T → Prop}
    (hB : ∀ w c s a, Inv id₀ w → A w → (machine T hash).exec t o c w.state = some (.ok a, s) →
      Guar w (w.after t o (.ok a : Except Exc o.Res) s) →
      B a (w.after t o (.ok a : Except Exc o.Res) s)) :
    (contract hash id₀).StepOk t A o (Contract.Outcome B fun _ _ => True) := by
  intro w c r s hi hw _ h
  obtain ⟨hi', hg⟩ := harmless_step ho hi h
  refine ⟨hi', hg, ?_⟩
  cases r with
  | ok a => exact hB w c s a hi hw h hg
  | error e => trivial

/-- The owner of the session is never refused, and a session reported as revoked is seen so. -/
theorem safe_revokeSession :
    (contract hash id₀).Safe t (revokeSession id u) (fun w => P → Owned id u w)
      (fun outcome w => (P → outcome = .revoked) ∧ (outcome = .revoked → Dead t id w))
      fun _ _ => True := by
  refine Contract.Safe.await
    (fun x w => (P → ∃ s, x = some s ∧ s.userId = u) ∧
      ∀ s, x = some s → s.revokedAt ≠ none → Dead t id w)
    (fun x => (Contract.Stable.const _).and (.forall fun s => .imp fun _ => .imp fun _ => stable_dead))
    (fun _ => .const True) (harmless_ok (by trivial) fun w c s x hi hw h hg => ?_) fun x => ?_
  · obtain ⟨d, hd, rfl⟩ := exec_sql h
    obtain ⟨rfl, hx⟩ := exec_get hd
    have hview := hx x rfl
    refine ⟨fun hP => ?_, fun s hs hrev => ⟨s, hview.symm.trans hs, hrev⟩⟩
    obtain ⟨s₀, h₀, hu⟩ := hw hP
    obtain ⟨s, hs, hsu, -⟩ := hi.view t h₀
    exact ⟨s, hview.trans hs, hsu.trans hu⟩
  · match x with
    | none =>
      refine fun w _ hw => ⟨fun hP => ?_, nofun⟩
      obtain ⟨s, hs, -⟩ := hw.1 hP
      cases hs
    | some session =>
      show (contract hash id₀).Safe t (if _ then _ else _) _ _ _
      split
      · rename_i hne
        refine fun w _ hw => ⟨fun hP => ?_, nofun⟩
        obtain ⟨s, hs, hu⟩ := hw.1 hP
        cases hs
        exact absurd hu hne
      split
      · refine Contract.Safe.await (fun _ _ => True) (fun _ => .const True) (fun _ => .const True)
          (harmless_ok (by trivial) fun _ _ _ _ _ _ _ _ => trivial) fun now => ?_
        refine Contract.Safe.bind (Q := fun _ => Dead t id) ?_
          fun _ w _ hw => ⟨fun _ => rfl, fun _ => hw⟩
        refine Contract.Safe.await (fun matched w => matched = true → Dead t id w)
          (fun _ => .imp fun _ => stable_dead) (fun _ => .const True) ?_ fun matched => ?_
        · intro w c r s hi _ _ h
          obtain ⟨hi', hg, hdead⟩ := revoke_step hi h
          refine ⟨hi', hg, ?_⟩
          cases r with
          | ok matched => exact fun hm => hdead (by rw [hm])
          | error e => trivial
        · cases matched with
          | true => exact fun w _ hw => hw rfl
          | false => exact fun w _ _ => trivial
      · rename_i hsome
        refine fun w _ hw => ⟨fun _ => rfl, fun _ => hw.2 session rfl ?_⟩
        simpa using hsome

/-- What is committed is seen by everybody. -/
theorem safe_commit :
    (contract hash id₀).Safe t Py.commit (Dead t id) (fun _ => Revoked id) fun _ _ => True := by
  refine Contract.Safe.perform (fun _ => stable_revoked) (fun _ => .const True)
    (harmless_ok (by trivial) fun w c s a hi hw h hg => ?_)
  obtain ⟨d, hd, rfl⟩ := exec_sql h
  obtain ⟨-, hr⟩ | ⟨rfl, -⟩ := exec_commit hd
  · exact absurd rfl hr
  · exact hw

theorem safe_invalidateSessionCache :
    (contract hash id₀).Safe t (invalidateSessionCache id) (Revoked id) (fun _ _ => True)
      fun _ _ => True := by
  refine Contract.Safe.handle (R := fun _ _ => True) ?_ fun e => ?_
  · refine Contract.Safe.perform (fun _ => .const True) (fun _ => .const True) ?_
    intro w c r s hi hw _ h
    obtain ⟨hi', hg⟩ := delete_step hi hw h
    exact ⟨hi', hg, by cases r <;> trivial⟩
  · split
    · exact fun _ _ _ => trivial
    · exact fun _ _ _ => trivial

theorem safe_revokeRequest {A : BackendWorld T → Prop} {body : Py Unit}
    (h : (contract hash id₀).Safe t body A (fun _ _ => True) fun _ _ => True) :
    (contract hash id₀).Safe t (Py.getDbSession body) A (fun _ _ => True) fun _ _ => True := by
  have hclose : ∀ r : Except Exc Unit, (contract hash id₀).Safe t (Py.closeSession r)
      (fun _ => True) (fun _ _ => True) fun _ _ => True := by
    intro r
    refine Contract.Safe.only (P := Harmless) (Py.only_closeSession (fun _ _ => trivial) trivial)
      (.const True) fun o ho w c r s hi _ _ h => ?_
    obtain ⟨hi', hg⟩ := harmless_step ho hi h
    exact ⟨hi', hg, trivial⟩
  exact Py.safe_getDbSession h (fun _ => hclose _) fun _ => hclose _

theorem safe_deleteSession :
    (contract hash id₀).Safe t (deleteSession id u) (fun _ => True) (fun _ _ => True)
      fun _ _ => True := by
  have hrevoke : (contract hash id₀).Safe t (revokeSession id u) (fun _ => True)
      (fun outcome w => outcome = .revoked → Dead t id w) fun _ _ => True :=
    (safe_revokeSession (P := False)).mono (fun _ _ _ h => h.elim) (fun _ _ _ hw => hw.2)
      fun _ _ _ _ => trivial
  refine safe_revokeRequest (Contract.Safe.bind hrevoke fun outcome => ?_)
  match outcome with
  | .notFound => exact fun _ _ _ => trivial
  | .forbidden => exact fun _ _ _ => trivial
  | .revoked =>
    exact Contract.Safe.bind (safe_commit.weaken fun w _ hw => hw rfl) fun _ =>
      safe_invalidateSessionCache

/-- A logout ends the session it comes in, whatever `revoke_session` reports. -/
theorem safe_logout :
    (contract hash id₀).Safe t (logout id u) (Owned id u) (fun _ _ => True) fun _ _ => True := by
  have hrevoke : (contract hash id₀).Safe t (revokeSession id u) (Owned id u)
      (fun _ => Dead t id) fun _ _ => True :=
    (safe_revokeSession (P := True)).mono (fun _ _ hw _ => hw)
      (fun _ _ _ hw => hw.2 (hw.1 trivial)) fun _ _ _ _ => trivial
  refine safe_revokeRequest (Contract.Safe.bind hrevoke fun outcome => ?_)
  exact Contract.Safe.bind safe_commit fun _ => safe_invalidateSessionCache

/-! ### The result -/

abbrev SessionPool (T : Type) : Type := Pool T Op Op.Res Exc (Option Bool) (State T)

/-- Before the first request: no transaction on the sessions, and a user logs out of a session of
that user's own. -/
structure Start (task : T → Task) (p : SessionPool T) : Prop where
  prog : ∀ t, p.prog t = (task t).program
  trace : p.world.trace = []
  hold : ∀ id, (p.world.state.db .sessions).hold id = none
  owned : ∀ t id u, task t = .logout id u → Owned id u p.world

theorem Start.sound {task : T → Task} {p : SessionPool T} (h : Start task p) :
    (contract hash id₀).Sound (fun _ _ _ => True) (fun _ _ _ => True) p where
  inv := by
    have hnone : ¬ Invalidated id₀ p.world := by
      rintro ⟨e, he, -⟩
      rw [h.trace] at he
      cases he
    refine ⟨fun id t v hv => ?_, fun hinv => absurd hinv hnone, fun hinv => absurd hinv hnone⟩
    rw [h.hold] at hv
    cases hv
  safe t := by
    rw [h.prog]
    cases htask : task t with
    | check id ttl =>
      refine ⟨Late id₀ id False, stable_late, fun h => h.elim, ?_⟩
      exact Contract.Safe.bind (safe_isSessionActive ttl) fun _ _ _ _ => trivial
    | deleteSession id u =>
      exact ⟨fun _ => True, .const True, trivial,
        Contract.Safe.bind safe_deleteSession fun _ _ _ _ => trivial⟩
    | logout id u =>
      exact ⟨Owned id u, stable_owned, h.owned t id u htask,
        Contract.Safe.bind safe_logout fun _ _ _ _ => trivial⟩

theorem eventsOk : (contract (T := T) hash id₀).EventsOk := by
  rintro ⟨n⟩ w s hi - he
  cases he
  exact ⟨hi.pending, hi.revoked, hi.cached⟩

/-- **Revoked sessions are inactive.** In every interleaving of checks and revocations in which no
check writes `active` over an invalidation, a check that starts after an invalidation of its
session answers `False`, if it answers. -/
theorem inactive_after_invalidation {task : T → Task} {p₀ q p : SessionPool T}
    {ls ls' : List (Label T Choice Tick)} {ttl : ℕ} {active : Bool} (h₀ : Start task p₀)
    (hC : (machine T hash).Meets (noStaleActive id) p₀ (ls ++ ls'))
    (hq : (machine T hash).run p₀ ls = some q) (hinv : Invalidated id q.world)
    (hcheck : q.prog t = (Task.check id ttl).program)
    (hp : (machine T hash).run q ls' = some p) (hret : p.prog t = .ret (some active)) :
    active = false := by
  obtain ⟨hC₁, hC₂⟩ := Machine.meets_append hC
  have hmid : (contract hash id).Sound (fun _ _ _ => True) (fun _ _ _ => True) q :=
    h₀.sound.run eventsOk hC₁ hq
  have hlate : Late id id True q.world := fun _ => ⟨rfl, hinv⟩
  have hsafe : (contract hash id).Safe t (q.prog t) (Late id id True)
      (fun r _ => r = some false) fun _ _ => True := by
    rw [hcheck]
    refine Contract.Safe.bind (safe_isSessionActive ttl) fun active w _ hw => ?_
    rw [hw trivial]
  have hend := (hmid.focus stable_late hlate hsafe).run eventsOk (hC₂ q hq) hp
  have hfalse := hend.ret hret
  rw [Function.update_self] at hfalse
  exact Option.some.inj hfalse

/-! ### A check that straddles the revocation -/

/-- Two checks of session 1 and its deletion by its owner. -/
def threeTasks : Fin 3 → Task
  | 0 => .check 1 60
  | 1 => .deleteSession 1 10
  | 2 => .check 1 60

/-- The three before they start, nothing cached. -/
def threeRequests : SessionPool (Fin 3) where
  world := ⟨State.ofRows fun
    | .sessions => [(1, ⟨10, 7, 0, none, days 30, none⟩)]
    | _ => [], []⟩
  prog t := (threeTasks t).program

theorem threeRequests_start : Start threeTasks threeRequests where
  prog _ := rfl
  trace := rfl
  hold _ := rfl
  owned t id u h := by
    match t with
    | 0 => cases h
    | 1 => cases h
    | 2 => cases h

local instance neZeroRequests : NeZero 3 := ⟨by decide⟩

/-- `n` awaits of request `t`. -/
def awaits (t : Fin 3) (n : ℕ) : List (Label (Fin 3) Choice Tick) :=
  List.replicate n (.proc t (.ok [] 0))

/-- The first check reads an empty cache and an active row; then the session is deleted and its
cache entry invalidated; then the first check writes what it has read. -/
def staleWrite : List (Label (Fin 3) Choice Tick) := awaits 0 3 ++ awaits 1 5 ++ awaits 0 1

/-- **A stale verdict.** Redis answers every command, the invalidation has returned, and a check
that starts then answers `True`. -/
theorem active_after_invalidation :
    Start threeTasks threeRequests ∧
      ∃ q p, (machine (Fin 3) fun n => n).run threeRequests staleWrite = some q ∧
        Invalidated 1 q.world ∧ q.prog 2 = (Task.check 1 60).program ∧
        (machine (Fin 3) fun n => n).run q (awaits 2 1) = some p ∧
        p.prog 2 = .ret (some true) := by
  obtain ⟨q, hq⟩ := Option.isSome_iff_exists.mp
    (show ((machine (Fin 3) fun n => n).run threeRequests staleWrite).isSome = true by decide)
  refine ⟨threeRequests_start, q, ?_⟩
  cases hq
  exact ⟨_, rfl, by decide, rfl, rfl, rfl⟩

theorem inactive_after_deletion :
    ∃ q p active, (machine (Fin 3) fun n => n).run threeRequests (awaits 1 5) = some q ∧
      (machine (Fin 3) fun n => n).run q (awaits 2 4) = some p ∧
      p.prog 2 = .ret (some active) ∧ active = false := by
  obtain ⟨q, hq⟩ := Option.isSome_iff_exists.mp
    (show ((machine (Fin 3) fun n => n).run threeRequests (awaits 1 5)).isSome = true by decide)
  have hinv : Invalidated 1 q.world ∧ q.prog 2 = (Task.check 1 60).program ∧
      ∃ p active, (machine (Fin 3) fun n => n).run q (awaits 2 4) = some p ∧
        p.prog 2 = .ret (some active) := by
    cases hq
    exact ⟨by decide, rfl, _, _, rfl, rfl⟩
  obtain ⟨hinv, hcheck, p, active, hp, hret⟩ := hinv
  exact ⟨q, p, active, hq, hp, hret,
    inactive_after_invalidation threeRequests_start (by decide) hq hinv hcheck hp hret⟩

end Chatspace.RevocationCache
