import Chatspace.Backend.Tables
import Chatspace.Services.AdminUsers

/-!
# The last system admin

Deactivations and reactivations of any users, step by step in any order.  A deactivation of a system
admin locks the active system admins one after the other, keeps those that still are, and goes on if
it keeps two; the flags of its target were read before, under no lock.

* `system_admin_remains` — **every committed state has an active system admin, and a deactivation
  that is refused has changed none**.
-/

namespace Chatspace.LastSystemAdmin

open Interleave Store AdminUsers Sessions Channels

/-- One request. -/
inductive Task where
  | deactivate (userId : UserId)
  | reactivate (userId : UserId)

def Task.program : Task → Py Unit
  | .deactivate userId => (deactivateUserRoute userId).bind fun _ => .ret ()
  | .reactivate userId => reactivateUserRoute userId

variable {T : Type} [DecidableEq T] {hash : RawToken → TokenHash} {task : T → Task} {t : T}
  {w w' : BackendWorld T} {u v target : UserId} {s : State T} {o : Op} {r : Except Exc o.Res}

def committedUser (w : BackendWorld T) (u : UserId) : Option User :=
  (w.state.db .users).committed u

def isActiveSystemAdmin (x : User) : Bool := x.isSystemAdmin && x.isActive

/-- Some system admin is active. -/
def HasSystemAdmin (w : BackendWorld T) : Prop :=
  ∃ u x, committedUser w u = some x ∧ isActiveSystemAdmin x = true

/-- Nobody is made a system admin, or ceases to be one. -/
def contract (hash : RawToken → TokenHash) : Contract (machine T hash) where
  inv := HasSystemAdmin
  pre := .always
  guar _ _ _ w w' := ∀ u x', committedUser w' u = some x' →
    ∃ x, committedUser w u = some x ∧ x'.isSystemAdmin = x.isSystemAdmin

theorem aboutCommitted : AboutCommitted (contract (T := T) hash) [.users] fun _ => False := by
  intro t o r w s _ _ _ hc hi
  have husers := hc .users List.mem_cons_self
  rcases hi with ⟨u, x, hx, hadmin⟩
  refine ⟨⟨u, x, ?_, hadmin⟩, fun v y hy => ⟨y, ?_, rfl⟩⟩
  · rw [committedUser, World.after_state, husers]
    exact hx
  · rw [committedUser, World.after_state, husers] at hy
    exact hy

theorem allows : Allows (contract (T := T) hash) [.users] fun _ => False :=
  aboutCommitted.allows List.mem_cons_self fun _ => id

/-! ### What a request knows -/

/-- What a transaction holds of the users. -/
abbrev Mine : Type := UserId → Option (Option (Option User) × Option User)

/-- Besides the target, an active system admin is held and not written. -/
def Another (target : UserId) (m : Mine) : Prop :=
  ∃ v x, v ≠ target ∧ m v = some (none, some x) ∧ isActiveSystemAdmin x = true

/-- The only change is to the flag of a user; and if it is to deactivate a system admin then another
one is held. -/
def Fit (m : Mine) : Prop :=
  ∀ u v x, m u = some (some v, x) → ∃ y b, x = some y ∧ v = some (setActive b y) ∧
    (b = true ∨ y.isSystemAdmin = false ∨ Another u m)

/-- The committed target is no system admin. -/
def NoAdmin (target : UserId) (w : BackendWorld T) : Prop :=
  ∀ x, committedUser w target = some x → x.isSystemAdmin = false

variable {K : Contract (machine T hash)}

theorem stable_fit : K.Stable t fun w => Fit ((w.state.db .users).mine t) := stable_mine

theorem kept_fit {N : Op → Prop} : Kept K [.users] N t fun w => Fit ((w.state.db .users).mine t) :=
  Kept.mine List.mem_cons_self

theorem kept_another {N : Op → Prop} :
    Kept K [.users] N t fun w => Another target ((w.state.db .users).mine t) :=
  Kept.mine List.mem_cons_self

theorem kept_unwritten {N : Op → Prop} : Kept K [.users] N t (Unwritten .users t) :=
  Chatspace.kept_unwritten List.mem_cons_self

theorem fit_of_unwritten (h : Unwritten .users t w) : Fit ((w.state.db .users).mine t) :=
  fun u v x hx => absurd hx (h u v x)

theorem fit_of_released {s : State T} (h : ∀ τ k, (s.db τ).mine t k = none) :
    Fit ((s.db .users).mine t) := by
  intro u v x hx
  rw [h] at hx
  cases hx

theorem kept_noAdmin {N : Op → Prop} : Kept (contract hash) [.users] N t (NoAdmin target) where
  stable w w' _ _ ho h x' hx' := by
    cases ho with
    | proc hne hpre hexec hguar =>
      rcases hguar target x' hx' with ⟨x, hx, hsame⟩
      rw [hsame]
      exact h x hx
    | event hpre hexec =>
      cases hexec
      exact h x' hx'
  quiet w o r s _ hun h x hx := by
    refine h x ?_
    rw [committedUser, World.after_state, hun.db .users List.mem_cons_self] at hx
    exact hx

/-! ### Commits -/

/-- A row that is not written is committed as it is. -/
theorem view_of_mine_none {x : Option User} (h : (w.state.db .users).mine t u = some (none, x)) :
    (w.state.db .users).view t u = x := by
  rcases Table.mine_eq_some.mp h with ⟨hhold, hc⟩
  rw [Table.view_of_locked hhold, hc]

theorem hasSystemAdmin_commit (hi : HasSystemAdmin w) (h : Fit ((w.state.db .users).mine t)) :
    ∃ u x, (w.state.db .users).view t u = some x ∧ isActiveSystemAdmin x = true := by
  rcases hi with ⟨u, x, hx, hadmin⟩
  rcases (w.state.db .users).view_cases t u with hv | ⟨v, hhold, hv⟩
  · exact ⟨u, x, hv.trans hx, hadmin⟩
  rcases h u v (some x) (Table.mine_eq_some.mpr ⟨hhold, hx⟩) with ⟨y, b, hy, rfl, hb⟩
  cases hy
  rcases hb with rfl | hno | ⟨u', z, -, hmine, hz⟩
  · refine ⟨u, setActive true x, hv, ?_⟩
    simp only [isActiveSystemAdmin, Bool.and_eq_true] at hadmin
    simp [isActiveSystemAdmin, setActive, hadmin.1]
  · simp [isActiveSystemAdmin, hno] at hadmin
  · exact ⟨u', z, view_of_mine_none hmine, hz⟩

theorem safe_commit : (contract hash).Safe t Py.commit
    (fun w => Fit ((w.state.db .users).mine t)) (fun _ w => Fit ((w.state.db .users).mine t))
    fun _ _ => True := by
  refine Contract.Safe.perform (fun _ => stable_fit) (fun _ => .const True)
    fun w ch r s hi hw _ h => ?_
  rcases exec_commitAll h with ⟨rfl, e, rfl⟩ | ⟨rfl, rfl⟩
  · rcases aboutCommitted.failed id hi with ⟨hi', hg⟩
    exact ⟨hi', hg, trivial⟩
  refine ⟨hasSystemAdmin_commit hi hw, fun u x' hx' => ?_, fit_of_released fun _ _ => Table.mine_commit⟩
  rcases (w.state.db .users).view_cases t u with hv | ⟨v, hhold, hv⟩
  · exact ⟨x', hv.symm.trans hx', rfl⟩
  · rcases hw u v _ (Table.mine_eq_some.mpr ⟨hhold, rfl⟩) with ⟨y, b, hy, rfl, -⟩
    refine ⟨y, hy, ?_⟩
    have he : some (setActive b y) = some x' := hv.symm.trans hx'
    cases he
    rfl

theorem safe_request {α : Type} {body : Py α} {A : BackendWorld T → Prop}
    (h : (contract hash).Safe t body A (fun _ w => Fit ((w.state.db .users).mine t))
      fun _ _ => True) :
    (contract hash).Safe t (Py.getDbSession body) A (fun _ _ => True) fun _ _ => True :=
  Chatspace.safe_request safe_commit
    (safe_rollback aboutCommitted id stable_fit fun _ _ _ _ hmine => fit_of_released hmine)
    (safe_abort aboutCommitted id) h

/-! ### The requests -/

/-- The flags of the target were read under no lock; whether it is a system admin never changes. -/
theorem safe_getUser :
    (contract hash).Safe t (getUserOr404 target) (Unwritten .users t)
      (fun x w => Unwritten .users t w ∧ (x.isSystemAdmin = false → NoAdmin target w))
      fun _ _ => True := by
  refine Contract.Safe.await (fun found w => ∀ x ∈ found, Unwritten .users t w ∧
    (x.isSystemAdmin = false → NoAdmin target w)) (fun _ => ?_) (fun _ => .const True)
    (fun w ch r s hi hw _ h => ?_) fun found => ?_
  · exact .forall fun x => .imp fun _ =>
      (kept_unwritten (N := fun _ => False)).stable.and (.imp fun _ =>
        (kept_noAdmin (N := fun _ => False)).stable)
  · rcases aboutCommitted.uncommitted (q := .get .users target) nofun id h hi with ⟨hi', hg⟩
    rcases exec_getTable h with ⟨rfl, hr⟩
    refine ⟨hi', hg, ?_⟩
    cases r with
    | error e => trivial
    | ok found =>
      rintro x rfl
      refine ⟨hw, fun hno y hy => ?_⟩
      have hview := hr (some x) rfl
      rw [view_of_unwritten hw] at hview
      have hxy : some x = some y := hview.trans hy
      cases hxy
      exact hno
  · cases found with
    | none => exact fun _ _ _ => trivial
    | some x => exact fun w _ hw => hw x rfl

/-- **The guard.** If two active system admins are counted then one besides the target is held. -/
theorem safe_lockAndCount (target : UserId) :
    (contract hash).Safe t lockAndCountActiveSystemAdmins (Unwritten .users t)
      (fun n w => Unwritten .users t w ∧
        (2 ≤ n → Another target ((w.state.db .users).mine t))) fun _ _ => True := by
  refine Contract.Safe.bind (safe_selectForUpdate aboutCommitted id fun _ _ => id)
    fun rows w _ hw => ?_
  rcases hw with ⟨hunwritten, hnodup, hrows⟩
  refine ⟨hunwritten, fun hlen => ?_⟩
  match rows with
  | [] => simp at hlen
  | [_] => simp at hlen
  | a :: b :: rows =>
    have hab : a.1 ≠ b.1 := by
      intro he
      simp [he] at hnodup
    have hadmin : ∀ x ∈ a :: b :: rows, (w.state.db .users).mine t x.1 = some (none, some x.2) ∧
        isActiveSystemAdmin x.2 = true := hrows
    by_cases ha : a.1 = target
    · exact ⟨b.1, b.2, fun hb => hab (ha.trans hb.symm), hadmin b (by simp)⟩
    · exact ⟨a.1, a.2, ha, hadmin a (by simp)⟩

theorem quiet_succession {departing : UserId} {c : Option ChannelId} :
    (runSoleAdminSuccession departing c).Only (Quiet [.users] fun _ => False) :=
  only_runSoleAdminSuccession (fun _ => quiet_select id) (fun _ _ => quiet_lock (by simp) id)
    (fun _ => quiet_update (by simp) id) departing c

theorem quiet_revokeSessions :
    (revokeSessionsForUser target none (.ret ()) (.ret ())).Only (Quiet [.users] fun _ => False) :=
  only_revokeSessionsForUser (quiet_other nofun nofun id) (fun _ => quiet_select id)
    (fun _ _ => quiet_update (by simp) id) trivial trivial

/-- The flag is written: the row was free, and is held now. -/
theorem safe_setActive {b : Bool} :
    (contract hash).Safe t (Py.flushUpdate .users target (setActive b))
      (fun w => Unwritten .users t w ∧
        (b = true ∨ NoAdmin target w ∨ Another target ((w.state.db .users).mine t)))
      (fun _ w => Fit ((w.state.db .users).mine t)) fun _ _ => True := by
  refine Contract.Safe.await (fun _ w => Fit ((w.state.db .users).mine t)) (fun _ => stable_fit)
    (fun _ => .const True) (fun w ch r s hi hw _ h => ?_) fun matched => ?_
  · rcases aboutCommitted.uncommitted (q := .update ..) nofun id h hi with ⟨hi', hg⟩
    refine ⟨hi', hg, ?_⟩
    rcases hw with ⟨hunwritten, hwhy⟩
    rcases exec_updateTable h with ⟨rfl, -⟩ | ⟨y, -, hy, -, rfl, rfl⟩
    · cases r with
      | error e => trivial
      | ok matched => exact fit_of_unwritten hunwritten
    rw [view_of_unwritten hunwritten] at hy
    simp only [Contract.Outcome_ok, World.after_state, State.set_db]
    intro u v x hx
    rcases hunwritten.mine_write hx with ⟨rfl, rfl, rfl⟩
    refine ⟨y, b, hy, rfl, hwhy.imp_right (Or.imp (fun hno => hno y hy) ?_)⟩
    rintro ⟨v, z, hv, hmine, hz⟩
    exact ⟨v, z, hv, by rw [Table.mine_write_of_ne hv, hmine], hz⟩
  · cases matched with
    | true => exact fun _ _ hw => hw
    | false => exact fun _ _ _ => trivial

theorem safe_deactivate :
    (contract hash).Safe t (deactivate target)
      (fun w => Unwritten .users t w ∧
        (NoAdmin target w ∨ Another target ((w.state.db .users).mine t)))
      (fun _ w => Fit ((w.state.db .users).mine t)) fun _ _ => True := by
  refine Contract.Safe.bind (((kept_unwritten.and (kept_noAdmin.or kept_another)).only allows
    quiet_succession)) fun promoted => ?_
  refine Contract.Safe.bind (safe_setActive.weaken fun w _ hw => ⟨hw.1, .inr hw.2⟩) fun _ => ?_
  exact Contract.Safe.bind (kept_fit.only allows quiet_revokeSessions) fun _ _ _ hw => hw

theorem safe_deactivateUser {x : User} :
    (contract hash).Safe t (deactivateUser target x)
      (fun w => Unwritten .users t w ∧ (x.isSystemAdmin = false → NoAdmin target w))
      (fun _ w => Fit ((w.state.db .users).mine t)) fun _ _ => True := by
  show Contract.Safe _ _ (if _ then _ else (if _ then _ else _)) _ _ _
  split
  · exact fun _ _ hw => fit_of_unwritten hw.1
  split
  · refine Contract.Safe.bind ((safe_lockAndCount target).weaken fun _ _ hw => hw.1)
      fun n => ?_
    show Contract.Safe _ _ (if _ then _ else _) _ _ _
    split
    · exact fun _ _ hw => fit_of_unwritten hw.1
    · exact safe_deactivate.weaken fun w _ hw => ⟨hw.1, .inr (hw.2 (by omega))⟩
  · rename_i hno
    refine safe_deactivate.weaken fun w _ hw => ⟨hw.1, .inl (hw.2 ?_)⟩
    simpa using hno

theorem quiet_invalidate {sessionId : SessionId} :
    (invalidateSessionCache sessionId).Only (Quiet [.users] fun _ => False) := by
  have hdelete : Quiet [.users] (fun _ => False) (.redisDelete (sessionRevocationKey sessionId)) :=
    quiet_other nofun nofun id
  refine (Prog.only_perform hdelete).handle fun e => ?_
  split <;> trivial

theorem safe_deactivateRoute :
    (contract hash).Safe t (deactivateUserRoute target) (Unwritten .users t) (fun _ _ => True)
      fun _ _ => True := by
  refine safe_request (Contract.Safe.bind safe_getUser fun x => ?_)
  refine Contract.Safe.bind safe_deactivateUser fun result => ?_
  cases result with
  | lastActiveSystemAdmin =>
    exact Contract.Safe.bind ((safe_abort aboutCommitted id).weaken fun _ _ _ => trivial)
      fun _ _ _ _ => trivial
  | alreadyInactive => exact Contract.Safe.bind safe_commit fun _ _ _ hw => hw
  | deactivated revoked promoted =>
    refine Contract.Safe.bind safe_commit fun _ => ?_
    exact Contract.Safe.bind (kept_fit.only allows (Prog.only_forEach _ fun _ => quiet_invalidate))
      fun _ _ _ hw => hw

theorem safe_reactivateRoute :
    (contract hash).Safe t (reactivateUserRoute target) (Unwritten .users t) (fun _ _ => True)
      fun _ _ => True := by
  refine safe_request (Contract.Safe.bind safe_getUser fun x => ?_)
  show Contract.Safe _ _ (if _ then _ else _) _ _ _
  split
  · refine Contract.Safe.bind (safe_setActive.weaken fun _ _ hw => ⟨hw.1, .inl rfl⟩) fun _ => ?_
    exact safe_commit
  · exact safe_rollback aboutCommitted id stable_fit fun _ _ _ _ hmine => fit_of_released hmine

/-- Every request keeps to the contract. -/
theorem safe_task :
    (contract hash).Safe t (task t).program (Unwritten .users t) (fun _ _ => True)
      fun _ _ => True := by
  cases task t with
  | deactivate u => exact Contract.Safe.bind safe_deactivateRoute fun _ _ _ _ => trivial
  | reactivate u => exact safe_reactivateRoute

/-! ### Refusals -/

/-- Request `t` has committed nothing. -/
def NoCommit (t : T) (w : BackendWorld T) : Prop :=
  ∀ e ∈ w.trace, e.proc = t → e ≠ ⟨t, .sql .commit, .ok ()⟩

/-- An exception of a request: one of its awaits raised it, or it is not the refusal, or nothing is
committed. -/
def Justified (t : T) (e : Exc) (w : BackendWorld T) : Prop :=
  Contract.Raised t e w ∨ e ≠ .httpException 409 ∨ NoCommit t w

abbrev anything (T : Type) [DecidableEq T] (hash : RawToken → TokenHash) :
    Contract (machine T hash) := .free _

omit [DecidableEq T] in
theorem noCommit_after (ho : o ≠ .sql .commit) (h : NoCommit t w) :
    NoCommit t (w.after t o r s) := by
  intro e he hproc
  rcases List.mem_cons.mp he with rfl | he
  · rintro ⟨⟩
    exact ho rfl
  · exact h e he hproc

theorem stable_noCommit : K.Stable t (NoCommit t) := .own

/-- A part of the request before its commit. -/
theorem safe_uncommitted {α : Type} {p : Py α} (ho : p.Only (· ≠ .sql .commit))
    (hp : p.Propagates (· ≠ .httpException 409)) :
    (anything T hash).Safe t p (NoCommit t) (fun _ => NoCommit t) (Justified t) :=
  (Contract.safe_propagates hp ho stable_noCommit fun _ _ _ _ => noCommit_after).mono
    (fun _ _ hw => hw) (fun _ _ _ hw => hw) fun _ _ _ hw => hw.imp_right .inl

/-- A statement or command whose exception is left to propagate. -/
theorem safe_await {o : Op} :
    (anything T hash).Safe t (Prog.perform o) (fun _ => True) (fun _ _ => True)
      (Contract.Raised t) := by
  refine Contract.Safe.perform (fun _ => .const True) (fun _ => .seen) fun w c r s _ _ _ _ => ?_
  refine ⟨trivial, trivial, ?_⟩
  cases r with
  | ok a => trivial
  | error e => exact ⟨_, List.mem_cons_self, rfl, o, rfl⟩

theorem stable_justified {e : Exc} : K.Stable t (Justified t e) :=
  Contract.Stable.or .seen (.or (.const _) stable_noCommit)

omit [DecidableEq T] in
theorem justified_after {e : Exc} (ho : o ≠ .sql .commit) (h : Justified t e w) :
    Justified t e (w.after t o r s) := by
  rcases h with ⟨x, hx, h⟩ | h | h
  · exact .inl ⟨x, List.mem_cons_of_mem _ hx, h⟩
  · exact .inr (.inl h)
  · exact .inr (.inr (noCommit_after ho h))

/-- A rollback on the way out. -/
theorem safe_rollback_justified {e : Exc} :
    (anything T hash).Safe t Py.rollback (Justified t e) (fun _ => Justified t e) (Justified t) := by
  refine Contract.Safe.perform (fun _ => stable_justified) (fun _ => stable_justified)
    fun w c r s _ hw _ _ => ⟨trivial, trivial, ?_⟩
  cases r with
  | ok a => exact justified_after nofun hw
  | error e' => exact .inl ⟨_, List.mem_cons_self, rfl, _, rfl⟩

theorem safe_closeSession {α : Type} {x : Except Exc α} :
    (anything T hash).Safe t (Py.closeSession x)
      (Contract.Outcome (fun _ _ => True) (Justified t) x)
      (fun _ => Contract.Outcome (fun _ _ => True) (Justified t) x) (Justified t) := by
  cases x with
  | ok a =>
    refine Contract.Safe.bind (Q := fun _ _ => True) (Contract.Safe.handle
      (R := fun e => Justified t e) ?_ fun e => ?_) fun _ => ?_
    · refine Py.safe_exceptException (R := fun e => Justified t e)
        (safe_await.mono (fun _ _ hw => hw) (fun _ _ _ hw => hw) fun _ _ _ hw => .inl hw)
        (fun e _ => ?_) fun _ _ _ _ hw => hw
      exact Contract.Safe.bind safe_rollback_justified fun _ _ _ hw => hw
    · exact Contract.Safe.bind safe_rollback_justified fun _ _ _ hw => hw
    · refine Contract.Safe.bind (safe_await.mono (fun _ _ _ => trivial) (fun _ _ _ _ => trivial)
        fun _ _ _ hw => .inl hw) fun _ _ _ _ => trivial
  | error e =>
    refine Contract.Safe.bind (Q := fun _ => Justified t e) (Contract.Safe.handle
      (R := fun e' => Justified t e') ?_ fun e' => ?_) fun _ => ?_
    · show (anything T hash).Safe t (if _ then _ else _) _ _ _
      split
      · exact safe_rollback_justified
      · exact fun _ _ hw => hw
    · exact Contract.Safe.bind safe_rollback_justified fun _ _ _ hw => hw
    · exact Contract.Safe.bind safe_rollback_justified fun _ _ _ hw => hw

theorem only_deactivateUser {x : User} :
    (deactivateUser target x).Only (· ≠ .sql .commit) := by
  have hdeactivate : (deactivate target).Only (· ≠ .sql .commit) := by
    refine (only_runSoleAdminSuccession (fun _ => nofun) (fun _ _ => nofun) (fun _ => nofun) target
      none).bind fun promoted => ?_
    refine Prog.Only.bind (Py.only_flushUpdate nofun) fun _ => ?_
    have hrevoke : (revokeSessionsForUser target none (.ret ()) (.ret ())).Only
        (· ≠ .sql .commit) :=
      only_revokeSessionsForUser nofun (fun _ => nofun) (fun _ _ => nofun) trivial trivial
    exact hrevoke.bind fun revoked => trivial
  show Prog.Only _ (if _ then _ else (if _ then _ else _))
  split
  · trivial
  split
  · refine Prog.Only.bind ((only_selectForUpdate nofun fun _ => nofun).bind fun _ => trivial)
      fun n => ?_
    show Prog.Only _ (if _ then _ else _)
    split
    · trivial
    · exact hdeactivate
  · exact hdeactivate

theorem propagates_deactivateUser {x : User} :
    (deactivateUser target x).Propagates (· ≠ .httpException 409) := by
  have hdeactivate : (deactivate target).Propagates (· ≠ .httpException 409) := by
    refine (propagates_runSoleAdminSuccession nofun target none).bind fun promoted => ?_
    refine (propagates_flushUpdate nofun).bind fun _ => ?_
    refine Prog.Propagates.bind ?_ fun revoked => trivial
    refine (Prog.propagates_perform _).bind fun ts => ?_
    refine Prog.Propagates.bind ((Prog.propagates_perform _).bind fun _ => trivial)
      fun sessions => ?_
    exact (Prog.propagates_forEach _ fun sid => propagates_flushUpdate nofun).bind fun _ => trivial
  show Prog.Propagates _ (if _ then _ else (if _ then _ else _))
  split
  · trivial
  split
  · refine Prog.Propagates.bind (propagates_selectForUpdate.bind fun _ => trivial) fun n => ?_
    show Prog.Propagates _ (if _ then _ else _)
    split
    · trivial
    · exact hdeactivate
  · exact hdeactivate

/-- After the commit every exception is one that an await raised. -/
theorem safe_committed :
    (anything T hash).Safe t Py.commit (fun _ => True) (fun _ _ => True) (Justified t) :=
  safe_await.mono (fun _ _ hw => hw) (fun _ _ _ hw => hw) fun _ _ _ hw => .inl hw

theorem safe_invalidate {sessionId : SessionId} :
    (anything T hash).Safe t (invalidateSessionCache sessionId) (fun _ => True) (fun _ _ => True)
      (Justified t) := by
  refine Contract.Safe.handle safe_await fun e => ?_
  split
  · exact fun _ _ _ => trivial
  · exact fun _ _ hw => .inl hw

theorem safe_refusal :
    (anything T hash).Safe t (deactivateUserRoute target) (NoCommit t) (fun _ _ => True)
      (Justified t) := by
  refine Py.safe_getDbSession (Q := fun _ _ => True) (R := Justified t) ?_
    (fun a => safe_closeSession.mono (fun _ _ hw => hw) (fun _ _ _ _ => trivial)
      fun _ _ _ hw => hw) fun e => safe_closeSession
  refine Contract.Safe.bind (safe_uncommitted ?_ ?_) fun x => ?_
  · refine (Prog.only_perform nofun).bind fun found => ?_
    cases found <;> trivial
  · refine (Prog.propagates_perform _).bind fun found => ?_
    cases found with
    | none => simp [Prog.Propagates]
    | some x => trivial
  refine Contract.Safe.bind (safe_uncommitted only_deactivateUser propagates_deactivateUser)
    fun result => ?_
  cases result with
  | lastActiveSystemAdmin =>
    refine Contract.Safe.bind ((safe_rollback_justified (e := .httpException 409)).weaken
      fun _ _ hw => .inr (.inr hw)) fun _ _ _ hw => hw
  | alreadyInactive =>
    exact Contract.Safe.bind (safe_committed.weaken fun _ _ _ => trivial) fun _ _ _ _ => trivial
  | deactivated revoked promoted =>
    refine Contract.Safe.bind (safe_committed.weaken fun _ _ _ => trivial) fun _ => ?_
    refine Contract.Safe.bind (Contract.Safe.forEach (I := fun _ _ _ => True)
      (fun _ _ _ => safe_invalidate) _ []) fun _ _ _ _ => trivial

/-! ### The result -/

abbrev UserPool (T : Type) : Type := Pool T Op Op.Res Exc Unit (State T)

/-- Before the first request: some system admin is active, and no transaction is open. -/
structure Start (task : T → Task) (p : UserPool T) : Prop where
  prog : ∀ t, p.prog t = (task t).program
  trace : p.world.trace = []
  hold : ∀ τ k, (p.world.state.db τ).hold k = none
  admin : HasSystemAdmin p.world

theorem Start.sound {p : UserPool T} (h : Start task p) :
    (contract hash).Sound (fun _ _ _ => True) (fun _ _ _ => True) p where
  inv := h.admin
  safe t := by
    refine ⟨Unwritten .users t, (kept_unwritten (N := fun _ => False)).stable, fun k v x hv => ?_, ?_⟩
    · have hhold := (Table.mine_eq_some.mp hv).1
      rw [h.hold] at hhold
      cases hhold
    · rw [h.prog]
      exact safe_task

theorem Start.refusals {p : UserPool T} (h : Start task p) (hash : RawToken → TokenHash) :
    (anything T hash).Sound (fun _ _ _ => True)
      (fun t e w => (∃ u, task t = .deactivate u) → Justified t e w) p where
  inv := trivial
  safe t := by
    refine ⟨NoCommit t, stable_noCommit, fun e he => ?_, ?_⟩
    · rw [h.trace] at he
      cases he
    rw [h.prog]
    cases ht : task t with
    | deactivate u =>
      refine Contract.Safe.mono (A := NoCommit t) (Q := fun _ _ => True) (R := Justified t) ?_
        (fun _ _ hw => hw) (fun _ _ _ hw => hw) fun e w _ hw _ => hw
      exact Contract.Safe.bind safe_refusal fun _ _ _ _ => trivial
    | reactivate u =>
      refine (Contract.safe_free (fun o w c r s _ _ _ _ => ⟨trivial, trivial, trivial⟩) _).mono
        (fun _ _ _ => trivial) (fun _ _ _ _ => trivial) ?_
      rintro e w - - ⟨u', hu'⟩
      cases hu'

/-- The request ended with the refusal of the last active system admin: the 409 that the route
raises itself. -/
def Refused (t : T) (p : UserPool T) : Prop :=
  p.prog t = .raise (.httpException 409) ∧ ¬ Contract.Raised t (.httpException 409) p.world

/-- A step that is no successful commit leaves what is committed. -/
theorem committed_of_step {p q : UserPool T} {c : Choice}
    (h : (machine T hash).step p (.proc t c) = some q)
    (hno : (⟨t, .sql .commit, .ok ()⟩ : Entry T Op Op.Res Exc) ∉ q.world.trace) (τ : Tbl) :
    (q.world.state.db τ).committed = (p.world.state.db τ).committed := by
  rcases Machine.step_proc h with ⟨o, k, r, s, -, hx, rfl⟩
  by_cases ho : o = .sql .commit
  · subst ho
    rcases exec_commitAll hx with ⟨rfl, -⟩ | ⟨-, rfl⟩
    · rfl
    · exact absurd List.mem_cons_self hno
  · exact exec_committed_db ho hx τ

/-- **A system admin remains.** In every interleaving of deactivations and reactivations that starts
with an active system admin, every committed state has one; and no step of a deactivation that is
refused as that of the last one changes what is committed. -/
theorem system_admin_remains {p₀ p : UserPool T} {ls : List (Label T Choice Tick)}
    (h₀ : Start task p₀) (hp : (machine T hash).run p₀ ls = some p) :
    HasSystemAdmin p.world ∧
      ∀ t u, task t = .deactivate u → Refused t p →
        ∀ ls₁ c ls₂ q q', ls = ls₁ ++ .proc t c :: ls₂ → (machine T hash).run p₀ ls₁ = some q →
          (machine T hash).step q (.proc t c) = some q' →
          ∀ τ, (q'.world.state.db τ).committed = (q.world.state.db τ).committed := by
  refine ⟨?_, fun t u ht href ls₁ c ls₂ q q' hls hq hq' τ => ?_⟩
  · refine (h₀.sound.run (fun e w s hi _ h => ?_) (Machine.meets_always ls) hp).inv
    cases h
    exact hi
  have hend := (h₀.refusals hash).run (fun _ _ _ _ _ _ => trivial) (Machine.meets_always ls) hp
  have hno : NoCommit t p.world := by
    rcases hend.raise href.1 ⟨u, ht⟩ with hraised | hne | hno
    · exact absurd hraised href.2
    · exact absurd rfl hne
    · exact hno
  refine committed_of_step hq' (fun he => ?_) τ
  -- what request `t` committed would still be in the history at the end
  rw [hls] at hp
  rcases Machine.run_append_some hp with ⟨m, hm, hrest⟩
  cases hq.symm.trans hm
  rcases Option.bind_eq_some_iff.mp hrest with ⟨m', hm', hend'⟩
  cases hq'.symm.trans hm'
  exact hno _ (Machine.mem_trace_of_run hend' he) rfl rfl

/-! ### Two deactivations of each other -/

/-- Two system admins deactivate one another. -/
def eachOther : Bool → Task
  | false => .deactivate 10
  | true => .deactivate 11

def twoSystemAdmins : UserPool Bool where
  world := ⟨State.ofRows fun
    | .users => [(10, ⟨['a'], ['a'], ['p'], ['f'], ['l'], true, true, false, 0⟩),
        (11, ⟨['b'], ['b'], ['p'], ['f'], ['l'], true, true, false, 0⟩)]
    | _ => [], []⟩
  prog t := (eachOther t).program

theorem twoSystemAdmins_start : Start eachOther twoSystemAdmins where
  prog _ := rfl
  trace := rfl
  hold _ _ := rfl
  admin := ⟨10, _, rfl, rfl⟩

/-- `k` awaits of request `t`. -/
def awaits (t : Bool) (k : ℕ) : List (Label Bool Choice Tick) :=
  List.replicate k (.proc t (.ok [] 1))

/-- Both have read their target and found the two admins; the second locks them when the first has
committed, counts one, and is refused. -/
theorem system_admin_remains_mutual :
    ∃ p, (machine Bool id).run twoSystemAdmins
        (awaits true 2 ++ awaits false 9 ++ awaits true 5) = some p ∧
      Refused true p ∧ HasSystemAdmin p.world := by
  rcases Option.isSome_iff_exists.mp
    (show ((machine Bool id).run twoSystemAdmins
      (awaits true 2 ++ awaits false 9 ++ awaits true 5)).isSome = true by decide) with ⟨p, hp⟩
  have hok : ((machine Bool id).run twoSystemAdmins (awaits true 2 ++ awaits false 9 ++
      awaits true 5)).all (fun p => p.world.trace.all fun e => e.answer.isOk) = true := by decide
  rw [hp, Option.all_some, List.all_eq_true] at hok
  have hrefused : Refused true p := by
    refine ⟨?_, ?_⟩
    · cases hp
      rfl
    · rintro ⟨x, hx, -, o, rfl⟩
      cases hok _ hx
  exact ⟨p, hp, hrefused, (system_admin_remains twoSystemAdmins_start hp).1⟩

end Chatspace.LastSystemAdmin
