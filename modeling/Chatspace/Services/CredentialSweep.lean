import Chatspace.Interleave.History
import Chatspace.Services.AdminUsers
import Chatspace.Services.Password
import Mathlib.Data.Fintype.Basic
import Mathlib.Tactic.FinCases

/-!
# Logins against credential sweeps

A sweep (a password reset, a password change, a deactivation) writes the user's row and revokes the
sessions that its own `SELECT` returns.  A login reads the user's row, and commits its session some
time later.  Both may be anywhere in the other's middle.

* `onTime` — no session of the user is committed between a sweep's `SELECT` and its commit, nor
  after that commit by a login that read the user's row before it;
* `sweep_complete` — **then every session of the user that is not revoked belongs to a login that
  read the user's row after the commit of every sweep**, or is the one a password change keeps;
* `session_outlives_sweep` — a login that commits just after the sweep leaves its session alive.
-/

namespace Chatspace.CredentialSweep

open Interleave Store Sessions Auth AdminUsers Password

/-- One request. -/
inductive Task where
  | login (email password : Text)
  | confirmPasswordReset (resetToken : RawToken) (newPassword : Text)
  | changePassword (currentPassword newPassword : Text) (userId : UserId) (sessionId : SessionId)
  | deactivate (userId : UserId)
  | reactivate (userId : UserId)

def Task.program (env : Primitives) (ttl : ℕ) : Task → Py Unit
  | .login email password => (Auth.login env email password ttl).bind fun _ => .ret ()
  | .confirmPasswordReset token new => Password.confirmPasswordReset env token new
  | .changePassword current new u id => Password.changePassword env current new u id
  | .deactivate u => (deactivateUserRoute u).bind fun _ => .ret ()
  | .reactivate u => reactivateUserRoute u

def Task.isSweep : Task → Bool
  | .confirmPasswordReset .. | .changePassword .. | .deactivate _ => true
  | .login .. | .reactivate _ => false

/-- The session a sweep leaves alone. -/
def Task.keeps : Task → Option SessionId
  | .changePassword _ _ _ id => some id
  | _ => none

variable {T : Type} [DecidableEq T] {env : Primitives} {task : T → Task} {u u₀ : UserId}
  {t t' r : T} {w w' : BackendWorld T} {id : SessionId} {L : List SessionId}

/-! ### The history of a run -/

abbrev BackendEntry (T : Type) : Type := Entry T Op Op.Res Exc

/-- The session inserted by an operation. -/
def inserted : BackendEntry T → Option (SessionId × Session)
  | ⟨_, .sql (.insert .sessions id _), .ok (some s)⟩ => some (id, s)
  | _ => none

/-- `t` looks the user up. -/
def isUserRead (t : T) (e : BackendEntry T) : Bool :=
  match e with
  | ⟨p, .sql (.select .users _), _⟩ => p = t
  | _ => false

/-- `r` lists the sessions. -/
def isSessionRead (r : T) (e : BackendEntry T) : Bool :=
  match e with
  | ⟨p, .sql (.select .sessions _), _⟩ => p = r
  | _ => false

/-- `t` commits. -/
def isCommit (t : T) (e : BackendEntry T) : Bool :=
  match e with
  | ⟨p, .sql .commit, .ok _⟩ => p = t
  | _ => false

/-- `r` writes the row of user `u`. -/
def isUserWrite (r : T) (u : UserId) (e : BackendEntry T) : Bool :=
  match e with
  | ⟨p, .sql (.update .users k _ _), .ok true⟩ => p = r ∧ k = u
  | _ => false

def UserWrite (r : T) (u : UserId) (w : BackendWorld T) : Prop :=
  ∃ e ∈ w.trace, isUserWrite r u e = true

/-- Login `t` has inserted session `id` of user `u`. -/
def Opened (t : T) (id : SessionId) (u : UserId) (w : BackendWorld T) : Prop :=
  ∃ e ∈ w.trace, e.proc = t ∧ ∃ s, inserted e = some (id, s) ∧ s.userId = u

/-- What the sweeps of user `u₀` have left: a session that is not revoked is the one the sweep
keeps, or was opened by a login that looked the user up after the sweep's commit. -/
def Swept (task : T → Task) (u₀ : UserId) (w : BackendWorld T) : Prop :=
  ∀ r newer, (task r).isSweep = true → UserWrite r u₀ w →
    since (isCommit r) w.trace = some newer →
    ∀ id s, row w id = some s → s.userId = u₀ → s.revokedAt = none →
      (task r).keeps = some id ∨ ∃ t, Opened t id u₀ w ∧ ∃ e ∈ newer, isUserRead t e = true

/-- No login that read the user's row before the commit of a sweep of `u₀` commits a session of
`u₀` after it. -/
def FreshLogin (task : T → Task) (u₀ : UserId) (t : T) (w : BackendWorld T) : Prop :=
  (∃ e ∈ w.trace, e.proc = t ∧ ∃ x ∈ inserted e, x.2.userId = u₀) →
    ∀ r, (task r).isSweep = true → UserWrite r u₀ w →
      ∀ newer ∈ since (isCommit r) w.trace, ∃ e ∈ newer, isUserRead t e = true

/-- No session of `u₀` that is still alive was committed after the sweep listed the sessions. -/
def FullList (task : T → Task) (u₀ : UserId) (r : T) (w : BackendWorld T) : Prop :=
  (task r).isSweep = true → UserWrite r u₀ w → since (isCommit r) w.trace = none →
    ∀ newer ∈ since (isSessionRead r) w.trace, ∀ e ∈ w.trace, ∀ x ∈ inserted e, x.2.userId = u₀ →
      ∀ s ∈ row w x.1, s.revokedAt = none → (task r).keeps ≠ some x.1 →
        ∀ e' ∈ newer, isCommit e.proc e' = false

/-- The commits of logins and sweeps that do not overtake each other. -/
abbrev onTime (task : T → Task) (u₀ : UserId) :
    Machine.Condition T Op Op.Res Exc Choice Tick (State T) where
  op t o _ w := o.isCommit = true → FreshLogin task u₀ t w ∧ FullList task u₀ t w
  event _ _ := True

instance : Decidable (UserWrite r u w) :=
  inferInstanceAs (Decidable (∃ e ∈ w.trace, isUserWrite r u e = true))

instance [Fintype T] : Decidable (FreshLogin task u₀ t w) := by
  unfold FreshLogin
  infer_instance

instance : Decidable (FullList task u₀ r w) := by
  unfold FullList
  infer_instance

/-- Uncommitted versions of sessions are new sessions, or revocations. -/
structure Inv (task : T → Task) (u₀ : UserId) (w : BackendWorld T) : Prop where
  pending : ∀ id t v, (w.state.db .sessions).hold id = some ⟨t, some v⟩ →
    ∃ s, v = some s ∧ ((row w id = none ∧ (task t).isSweep = false ∧ Opened t id s.userId w) ∨
      ∃ s₀, row w id = some s₀ ∧ s.revokedAt ≠ none ∧ s.userId = s₀.userId)
  swept : Swept task u₀ w

/-- A committed session keeps its owner and its revocation, and a new one is committed by the login
that opened it. -/
structure Guar (t : T) (o : Op) (r : Except Exc o.Res) (w w' : BackendWorld T) : Prop where
  old : ∀ id s, row w id = some s → ∃ s', row w' id = some s' ∧ s'.userId = s.userId ∧
    (s.revokedAt ≠ none → s'.revokedAt ≠ none)
  new : ∀ id s, row w id = none → row w' id = some s →
    Opened t id s.userId w ∧ isCommit t (⟨t, o, r⟩ : BackendEntry T) = true

def contract (env : Primitives) (task : T → Task) (u₀ : UserId) :
    Contract (machine T env.hashRefreshToken) where
  inv := Inv task u₀
  pre := onTime task u₀
  guar := Guar

/-! ### What the steps keep -/

theorem Guar.of_rows {o : Op} {x : Except Exc o.Res} (h : ∀ id, row w' id = row w id) :
    Guar t o x w w' where
  old id s hs := ⟨s, (h id).trans hs, rfl, fun hr => hr⟩
  new id s hn hs := by
    rw [h id, hn] at hs
    cases hs

omit [DecidableEq T] in
theorem Opened.after (h : Opened t id u w) {o : Op} {x : Except Exc o.Res} {s : State T} :
    Opened t id u (w.after t' o x s) := by
  obtain ⟨e, he, h⟩ := h
  exact ⟨e, List.mem_cons_of_mem _ he, h⟩

theorem userWrite_after {o : Op} {x : Except Exc o.Res} {s : State T} :
    UserWrite r u (w.after t o x s) ↔
      isUserWrite r u (⟨t, o, x⟩ : BackendEntry T) = true ∨ UserWrite r u w := by
  simp [UserWrite]

/-- `r` has not committed. -/
def Uncommitted (r : T) (w : BackendWorld T) : Prop := since (isCommit r) w.trace = none

/-- A step that is no commit, and writes the user's row only before its transaction commits, keeps
the invariant if it keeps the versions in order. -/
theorem quiet_step {o : Op} {x : Except Exc o.Res} {s : State T} (hi : Inv task u₀ w)
    (hcommit : ∀ r, isCommit r (⟨t, o, x⟩ : BackendEntry T) = false)
    (hwrite : ∀ r, isUserWrite r u₀ (⟨t, o, x⟩ : BackendEntry T) = true → Uncommitted r w)
    (hrow : ∀ id, (s.db .sessions).committed id = row w id)
    (hpending : ∀ id t' v, (s.db .sessions).hold id = some ⟨t', some v⟩ →
      (w.state.db .sessions).hold id = some ⟨t', some v⟩ ∨
      ∃ s₁, v = some s₁ ∧ ((row w id = none ∧ (task t').isSweep = false ∧
          Opened t' id s₁.userId (w.after t o x s)) ∨
        ∃ s₀, row w id = some s₀ ∧ s₁.revokedAt ≠ none ∧ s₁.userId = s₀.userId)) :
    Inv task u₀ (w.after t o x s) ∧ Guar t o x w (w.after t o x s) := by
  have hrow' : ∀ id, row (w.after t o x s) id = row w id := hrow
  refine ⟨⟨fun id t' v hv => ?_, fun r newer hr hw hs id s₁ h₁ hu hrev => ?_⟩, .of_rows hrow'⟩
  · rw [hrow']
    obtain hv | hv := hpending id t' v hv
    · obtain ⟨s₁, rfl, ⟨h₀, hsweep, hopen⟩ | h⟩ := hi.pending id t' v hv
      · exact ⟨s₁, rfl, .inl ⟨h₀, hsweep, hopen.after⟩⟩
      · exact ⟨s₁, rfl, .inr h⟩
    · exact hv
  · rw [World.after_trace, since_cons_of_false (hcommit r)] at hs
    obtain ⟨newer', hs', rfl⟩ := Option.map_eq_some_iff.mp hs
    have hw' : UserWrite r u₀ w := by
      refine (userWrite_after.mp hw).resolve_left fun h => ?_
      have := hwrite r h
      unfold Uncommitted at this
      rw [hs'] at this
      cases this
    rw [hrow'] at h₁
    obtain h | ⟨t', hopen, e, he, hread⟩ := hi.swept r newer' hr hw' hs' id s₁ h₁ hu hrev
    · exact .inl h
    · exact .inr ⟨t', hopen.after, e, List.mem_cons_of_mem _ he, hread⟩

/-- `r` sees the session as revoked. -/
def Dead (r : T) (id : SessionId) (w : BackendWorld T) : Prop :=
  ∃ s, (w.state.db .sessions).view r id = some s ∧ s.revokedAt ≠ none

/-- Every living session of `u` is in the list, or was committed after the sessions were listed. -/
def Covered (r : T) (u : UserId) (L : List SessionId) (w : BackendWorld T) : Prop :=
  ∃ newer, since (isSessionRead r) w.trace = some newer ∧
    ∀ id s, row w id = some s → s.userId = u → s.revokedAt = none →
      id ∈ L ∨ ∃ t, Opened t id u w ∧ ∃ e ∈ newer, isCommit t e = true

/-- `r` writes no user's row but that of `u`. -/
def OnlyUser (r : T) (u : UserId) (w : BackendWorld T) : Prop := ∀ u', UserWrite r u' w → u' = u

/-- The sweep is ready to commit: it has revoked every session in its list but the one it keeps. -/
structure Ready (keeps : Option SessionId) (r : T) (u : UserId) (w : BackendWorld T) : Prop where
  only : OnlyUser r u w
  revoked : ∃ L, Covered r u L w ∧ ∀ id ∈ L, keeps ≠ some id → Dead r id w

theorem commit_step {x : Except Exc Unit} {s : State T} {c : Choice} (hi : Inv task u₀ w)
    (hcond : (onTime task u₀).op t (.sql .commit) c w)
    (hready : (task t).isSweep = true → UserWrite t u₀ w → Uncommitted t w →
      ∃ u, Ready (task t).keeps t u w)
    (h : (machine T env.hashRefreshToken).exec t (.sql .commit) c w.state = some (x, s)) :
    Inv task u₀ (w.after t (.sql .commit) x s) ∧
      Guar t (.sql .commit) x w (w.after t (.sql .commit) x s) := by
  obtain ⟨d, hd, rfl⟩ := exec_sql h
  obtain ⟨rfl, hx⟩ | ⟨rfl, rfl⟩ := exec_commit hd
  · refine quiet_step hi (fun r => ?_) (fun r => nofun) (fun _ => rfl) fun _ _ _ hv => .inl hv
    cases x with
    | ok a => exact absurd rfl hx
    | error e => rfl
  -- what the commit makes of a row: nothing, a revocation, or the session that `t` has opened
  have hrow : ∀ id s', (w.state.db .sessions).view t id = some s' →
      row w id = some s' ∨ (row w id = none ∧ (task t).isSweep = false ∧ Opened t id s'.userId w) ∨
        ∃ s₀, row w id = some s₀ ∧ s'.revokedAt ≠ none ∧ s'.userId = s₀.userId := by
    intro id s' hs'
    obtain hv | ⟨v, hhold, hv⟩ := (w.state.db .sessions).view_cases t id
    · exact .inl (hv.symm.trans hs')
    · obtain ⟨s₁, rfl, h₁⟩ := hi.pending id t v hhold
      have hs₁ : s' = s₁ := Option.some.inj (hs'.symm.trans hv)
      subst hs₁
      exact .inr h₁
  have hguar : Guar t (.sql .commit) (.ok ()) w
      (w.after t (.sql .commit) (.ok ()) { w.state with db := w.state.db.commit t }) := by
    refine ⟨fun id s₀ h₀ => ?_, fun id s' hn hs' => ?_⟩
    · obtain hv | ⟨v, hhold, hv⟩ := (w.state.db .sessions).view_cases t id
      · exact ⟨s₀, hv.trans h₀, rfl, fun hr => hr⟩
      · obtain ⟨s₁, rfl, ⟨hn, -⟩ | ⟨s₂, h₂, hrev, hu⟩⟩ := hi.pending id t v hhold
        · rw [h₀] at hn
          cases hn
        · have hs₂ : s₂ = s₀ := Option.some.inj (h₂.symm.trans h₀)
          subst hs₂
          exact ⟨s₁, hv, hu, fun _ => hrev⟩
    · obtain h | ⟨-, -, hopen⟩ | ⟨s₀, h₀, -⟩ := hrow id s' hs'
      · rw [hn] at h
        cases h
      · exact ⟨hopen, by simp [isCommit]⟩
      · rw [hn] at h₀
        cases h₀
  refine ⟨⟨fun id t' v hv => ?_, fun r newer hr hw hs id s' hs' hu hrev => ?_⟩, hguar⟩
  · obtain ⟨hhold, hne⟩ := Table.release_eq_some hv
    obtain ⟨s₁, rfl, ⟨hn, hsweep, hopen⟩ | ⟨s₀, h₀, hrev, hu⟩⟩ := hi.pending id t' v hhold
    · refine ⟨s₁, rfl, .inl ⟨?_, hsweep, hopen.after⟩⟩
      refine (Table.view_of_not_holds ?_).trans hn
      rintro ⟨p, hp⟩
      rw [hhold] at hp
      cases hp
      exact hne rfl
    · obtain ⟨s₂, h₂, hu₂, -⟩ := hguar.old id s₀ h₀
      exact ⟨s₁, rfl, .inr ⟨s₂, h₂, hrev, hu.trans hu₂.symm⟩⟩
  · have hw' : UserWrite r u₀ w := (userWrite_after.mp hw).resolve_left nofun
    cases hs₀ : since (isCommit r) w.trace with
    | none =>
      -- the commit of the sweep itself
      rw [World.after_trace, since_cons_of_none hs₀] at hs
      have hrt : t = r := by
        by_contra hne
        rw [if_neg (by simpa [isCommit] using hne)] at hs
        cases hs
      subst hrt
      obtain ⟨u, honly, L, ⟨newer', hlisted, hcovered⟩, hdead⟩ := hready hr hw' hs₀
      obtain rfl := honly u₀ hw'
      by_cases hkeeps : (task t).keeps = some id
      · exact .inl hkeeps
      exfalso
      obtain hrow₀ | ⟨-, hsweep, -⟩ | ⟨s₀, -, hne, -⟩ := hrow id s' hs'
      · obtain hL | ⟨t', ⟨e, he, rfl, s₁, hins, hu₁⟩, e', he', hc⟩ := hcovered id s' hrow₀ hu hrev
        · obtain ⟨s₁, hv₁, hne⟩ := hdead id hL hkeeps
          have hs₁ : s₁ = s' := Option.some.inj (hv₁.symm.trans hs')
          exact hne (hs₁ ▸ hrev)
        · have hfalse := (hcond rfl).2 hr hw' hs₀ newer' hlisted e he (id, s₁) hins hu₁ s' hrow₀ hrev hkeeps
            e' he'
          rw [hc] at hfalse
          cases hfalse
      · rw [hr] at hsweep
        cases hsweep
      · exact hne hrev
    | some newer' =>
      rw [World.after_trace, since_cons_of_some hs₀] at hs
      cases hs
      obtain hrow₀ | ⟨-, -, hopen⟩ | ⟨s₀, -, hne, -⟩ := hrow id s' hs'
      · obtain h | ⟨t', hopen, e, he, hread⟩ := hi.swept r newer' hr hw' hs₀ id s' hrow₀ hu hrev
        · exact .inl h
        · exact .inr ⟨t', hopen.after, e, List.mem_cons_of_mem _ he, hread⟩
      · -- a login that commits after the sweep
        rw [hu] at hopen
        have hlogin : ∃ e ∈ w.trace, e.proc = t ∧ ∃ x ∈ inserted e, x.2.userId = u₀ := by
          obtain ⟨e, he, het, s₁, hins, hu₁⟩ := hopen
          exact ⟨e, he, het, (id, s₁), hins, hu₁⟩
        obtain ⟨e, he, hread⟩ := (hcond rfl).1 hlogin r hr hw' newer' hs₀
        exact .inr ⟨t, hopen.after, e, List.mem_cons_of_mem _ he, hread⟩
      · exact absurd hrev hne

theorem rollback_step {x : Except Exc Unit} {s : State T} {c : Choice} (hi : Inv task u₀ w)
    (h : (machine T env.hashRefreshToken).exec t (.sql .rollback) c w.state = some (x, s)) :
    Inv task u₀ (w.after t (.sql .rollback) x s) ∧
      Guar t (.sql .rollback) x w (w.after t (.sql .rollback) x s) := by
  obtain ⟨d, hd, rfl⟩ := exec_sql h
  obtain ⟨rfl, -⟩ | ⟨rfl, -⟩ := exec_rollback hd
  · exact quiet_step hi (fun _ => rfl) (fun _ => nofun) (fun _ => rfl) fun _ _ _ hv => .inl hv
  · exact quiet_step hi (fun _ => rfl) (fun _ => nofun) (fun _ => rfl)
      fun _ _ _ hv => .inl (Table.release_eq_some hv).1

/-- A login inserts a session. -/
theorem insert_step {f : ℕ → Session} {x : Except Exc (Option Session)} {s : State T} {c : Choice}
    (hi : Inv task u₀ w) (ht : (task t).isSweep = false)
    (h : (machine T env.hashRefreshToken).exec t (.sql (.insert .sessions id f)) c w.state =
      some (x, s)) :
    Inv task u₀ (w.after t (.sql (.insert .sessions id f)) x s) ∧
      Guar t (.sql (.insert .sessions id f)) x w
        (w.after t (.sql (.insert .sessions id f)) x s) := by
  obtain ⟨d, hd, rfl⟩ := exec_sql h
  obtain ⟨rfl, -⟩ | ⟨now, -, hx, hset, rfl⟩ := exec_insert hd
  · exact quiet_step hi (fun _ => rfl) (fun _ => nofun) (fun _ => rfl) fun _ _ _ hv => .inl hv
  have hwrite : d .sessions = (w.state.db .sessions).write t id (some (f now)) := by
    rw [hset]
    exact Db.set_self ..
  have hnone : row w id = none := by
    obtain hv | ⟨v, hhold, hv⟩ := (w.state.db .sessions).view_cases t id
    · exact hv.symm.trans hx
    · obtain ⟨s₁, rfl, -⟩ := hi.pending id t v hhold
      rw [hv] at hx
      cases hx
  have hrow : ∀ j, (d .sessions).committed j = row w j := fun j => by rw [hwrite]; rfl
  refine quiet_step hi (fun _ => rfl) (fun _ => nofun) hrow fun j t' v hv => ?_
  change (d .sessions).hold j = _ at hv
  rw [hwrite] at hv
  by_cases hj : j = id
  · subst hj
    rw [Table.hold_write_self] at hv
    cases hv
    exact .inr ⟨f now, rfl, .inl ⟨hnone, ht, _, List.mem_cons_self, rfl, f now, rfl, rfl⟩⟩
  · rw [Table.hold_write_of_ne hj] at hv
    exact .inl hv

/-- A sweep revokes a session. -/
theorem revoke_step {p : Session → Bool} {ts : Time} {x : Except Exc Bool} {s : State T}
    {c : Choice} (hi : Inv task u₀ w) (ht : (task t).isSweep = true)
    (h : (machine T env.hashRefreshToken).exec t
      (.sql (.update .sessions id p (Session.revoke ts))) c w.state = some (x, s)) :
    Inv task u₀ (w.after t (.sql (.update .sessions id p (Session.revoke ts))) x s) ∧
      Guar t (.sql (.update .sessions id p (Session.revoke ts))) x w
        (w.after t (.sql (.update .sessions id p (Session.revoke ts))) x s) ∧
      (∀ j, j = id → x = .ok true →
        Dead t j (w.after t (.sql (.update .sessions id p (Session.revoke ts))) x s)) ∧
      ∀ j, Dead t j w →
        Dead t j (w.after t (.sql (.update .sessions id p (Session.revoke ts))) x s) := by
  obtain ⟨d, hd, rfl⟩ := exec_sql h
  obtain ⟨rfl, hr⟩ | ⟨y, -, hy, -, hset, rfl⟩ := exec_update hd
  · obtain ⟨hi', hg⟩ := quiet_step (t := t) (x := x)
      (o := .sql (.update .sessions id p (Session.revoke ts))) (s := w.state) hi (fun _ => rfl)
      (fun _ => nofun) (fun _ => rfl) fun _ _ _ hv => .inl hv
    exact ⟨hi', hg, fun _ _ h => absurd h hr, fun _ h => h⟩
  have hwrite : d .sessions = (w.state.db .sessions).write t id (some (Session.revoke ts y)) := by
    rw [hset]
    exact Db.set_self ..
  obtain ⟨s₀, h₀, hu⟩ : ∃ s₀, row w id = some s₀ ∧ y.userId = s₀.userId := by
    obtain hv | ⟨v, hhold, hv⟩ := (w.state.db .sessions).view_cases t id
    · exact ⟨y, hv.symm.trans hy, rfl⟩
    · obtain ⟨s₁, rfl, ⟨-, hsweep, -⟩ | ⟨s₀, h₀, -, hu⟩⟩ := hi.pending id t v hhold
      · rw [ht] at hsweep
        cases hsweep
      · have hs₁ : y = s₁ := Option.some.inj (hy.symm.trans hv)
        exact ⟨s₀, h₀, hs₁ ▸ hu⟩
  have hrow : ∀ j, (d .sessions).committed j = row w j := fun j => by rw [hwrite]; rfl
  have hkeep : Inv task u₀ (w.after t (.sql (.update .sessions id p (Session.revoke ts)))
        (.ok true) { w.state with db := d }) ∧
      Guar t (.sql (.update .sessions id p (Session.revoke ts))) (.ok true) w
        (w.after t (.sql (.update .sessions id p (Session.revoke ts))) (.ok true)
          { w.state with db := d }) := by
    refine quiet_step hi (fun _ => rfl) (fun _ => nofun) hrow fun j t' v hv => ?_
    change (d .sessions).hold j = _ at hv
    rw [hwrite] at hv
    by_cases hj : j = id
    · subst hj
      rw [Table.hold_write_self] at hv
      cases hv
      exact .inr ⟨_, rfl, .inr ⟨s₀, h₀, Option.some_ne_none ts, hu⟩⟩
    · rw [Table.hold_write_of_ne hj] at hv
      exact .inl hv
  obtain ⟨hi', hg⟩ := hkeep
  refine ⟨hi', hg, fun j hj _ => ⟨Session.revoke ts y, ?_, Option.some_ne_none ts⟩, ?_⟩
  · show (d .sessions).view t j = _
    rw [hwrite, hj]
    exact Table.view_write_self
  · rintro j ⟨s₁, hs₁, hrev⟩
    by_cases hj : j = id
    · refine ⟨Session.revoke ts y, ?_, Option.some_ne_none ts⟩
      show (d .sessions).view t j = _
      rw [hwrite, hj]
      exact Table.view_write_self
    · refine ⟨s₁, ?_, hrev⟩
      show (d .sessions).view t j = _
      rw [hwrite, Table.view_write_of_ne hj]
      exact hs₁

/-! ### Operations that leave the sessions alone -/

/-- The operations that neither commit nor write a session or a user. -/
def Quiet : Op → Prop
  | .sql (.get ..) | .sql (.select ..) | .sql (.lock .users ..) | .sql (.lock .channelMembers ..)
  | .sql (.update .channelMembers ..) | .sql (.update .passwordResetTokens ..) | .redisDelete _
  | .utcNow | .tokenUrlsafe | .generateId => True
  | _ => False

theorem quiet_sessions {o : Op} (ho : Quiet o) {x : Except Exc o.Res} {s : State T} {c : Choice}
    (h : (machine T env.hashRefreshToken).exec t o c w.state = some (x, s)) :
    s.db .sessions = w.state.db .sessions ∧
      (∀ r, isCommit r (⟨t, o, x⟩ : BackendEntry T) = false) ∧
      ∀ r u, isUserWrite r u (⟨t, o, x⟩ : BackendEntry T) = false := by
  unfold Quiet at ho
  split at ho
  · obtain ⟨d, hd, rfl⟩ := exec_sql h
    exact ⟨congrFun (exec_get hd).1 _, fun _ => rfl, fun _ _ => rfl⟩
  · obtain ⟨d, hd, rfl⟩ := exec_sql h
    exact ⟨congrFun (exec_select hd).1 _, fun _ => rfl, fun _ _ => rfl⟩
  · obtain ⟨d, hd, rfl⟩ := exec_sql h
    obtain ⟨rfl, -⟩ | ⟨y, -, -, rfl, -⟩ := exec_lock hd
    · exact ⟨rfl, fun _ => rfl, fun _ _ => rfl⟩
    · exact ⟨rfl, fun _ => rfl, fun _ _ => rfl⟩
  · obtain ⟨d, hd, rfl⟩ := exec_sql h
    obtain ⟨rfl, -⟩ | ⟨y, -, -, rfl, -⟩ := exec_lock hd
    · exact ⟨rfl, fun _ => rfl, fun _ _ => rfl⟩
    · exact ⟨rfl, fun _ => rfl, fun _ _ => rfl⟩
  · obtain ⟨d, hd, rfl⟩ := exec_sql h
    obtain ⟨rfl, -⟩ | ⟨y, -, -, -, rfl, -⟩ := exec_update hd
    · exact ⟨rfl, fun _ => rfl, fun _ _ => rfl⟩
    · exact ⟨rfl, fun _ => rfl, fun _ _ => rfl⟩
  · obtain ⟨d, hd, rfl⟩ := exec_sql h
    obtain ⟨rfl, -⟩ | ⟨y, -, -, -, rfl, -⟩ := exec_update hd
    · exact ⟨rfl, fun _ => rfl, fun _ _ => rfl⟩
    · exact ⟨rfl, fun _ => rfl, fun _ _ => rfl⟩
  · obtain ⟨rfl, -⟩ | rfl := exec_redisDelete h <;> exact ⟨rfl, fun _ => rfl, fun _ _ => rfl⟩
  · obtain ⟨-, rfl⟩ := exec_utcNow h
    exact ⟨rfl, fun _ => rfl, fun _ _ => rfl⟩
  · obtain ⟨n, -, -, rfl⟩ := exec_tokenUrlsafe h
    exact ⟨rfl, fun _ => rfl, fun _ _ => rfl⟩
  · obtain ⟨n, -, -, rfl⟩ := exec_generateId h
    exact ⟨rfl, fun _ => rfl, fun _ _ => rfl⟩
  · exact ho.elim

/-- A step after which the sessions are the same table. -/
theorem same_step {o : Op} {x : Except Exc o.Res} {s : State T} (hi : Inv task u₀ w)
    (hdb : s.db .sessions = w.state.db .sessions)
    (hcommit : ∀ r, isCommit r (⟨t, o, x⟩ : BackendEntry T) = false)
    (hwrite : ∀ r, isUserWrite r u₀ (⟨t, o, x⟩ : BackendEntry T) = true → Uncommitted r w) :
    Inv task u₀ (w.after t o x s) ∧ Guar t o x w (w.after t o x s) := by
  refine quiet_step hi hcommit hwrite (fun id => ?_) fun id t' v hv => .inl ?_
  · rw [hdb]
    rfl
  · rwa [hdb] at hv

/-! ### What a sweep knows -/

/-- The sweep has not committed, has written no user's row but that of `u`, and holds no session. -/
structure Begun (t : T) (u : UserId) (w : BackendWorld T) : Prop where
  uncommitted : Uncommitted t w
  only : OnlyUser t u w
  idle : ∀ id, ¬ (w.state.db .sessions).Holds t id

theorem proc_of_isCommit {e : BackendEntry T} (h : isCommit t e = true) : e.proc = t := by
  unfold isCommit at h
  split at h
  · exact of_decide_eq_true h
  · cases h

theorem proc_of_isUserWrite {e : BackendEntry T} (h : isUserWrite t u e = true) : e.proc = t := by
  unfold isUserWrite at h
  split at h
  · exact (of_decide_eq_true h).1
  · cases h

theorem uncommitted_after {o : Op} {x : Except Exc o.Res} {s : State T} (h : Uncommitted r w)
    (hx : isCommit r (⟨t, o, x⟩ : BackendEntry T) = false) : Uncommitted r (w.after t o x s) := by
  unfold Uncommitted
  rw [World.after_trace, since_cons_of_none h, if_neg (by simp [hx])]

theorem onlyUser_after {o : Op} {x : Except Exc o.Res} {s : State T} (h : OnlyUser r u w)
    (hx : ∀ u', isUserWrite r u' (⟨t, o, x⟩ : BackendEntry T) = true → u' = u) :
    OnlyUser r u (w.after t o x s) := by
  intro u' hw
  obtain hw | hw := userWrite_after.mp hw
  · exact hx u' hw
  · exact h u' hw

theorem covered_after {o : Op} {x : Except Exc o.Res} {s : State T} (h : Covered r u L w)
    (hg : Guar t o x w (w.after t o x s)) : Covered r u L (w.after t o x s) := by
  obtain ⟨newer, hs, hcovered⟩ := h
  refine ⟨_, since_cons_of_some hs, fun id s' hs' hu hrev => ?_⟩
  cases h₀ : row w id with
  | none =>
    obtain ⟨hopen, hc⟩ := hg.new id s' h₀ hs'
    rw [hu] at hopen
    exact .inr ⟨t, hopen.after, _, List.mem_cons_self, hc⟩
  | some s₀ =>
    obtain ⟨s₁, h₁, hu₁, hrev₁⟩ := hg.old id s₀ h₀
    have hs₁ : s₁ = s' := Option.some.inj (h₁.symm.trans hs')
    subst hs₁
    have hrev₀ : s₀.revokedAt = none := by
      by_contra hne
      exact hrev₁ hne hrev
    obtain hL | ⟨t', hopen, e, he, hc⟩ := hcovered id s₀ h₀ (hu₁ ▸ hu) hrev₀
    · exact .inl hL
    · exact .inr ⟨t', hopen.after, e, List.mem_cons_of_mem _ he, hc⟩

theorem stable_uncommitted : (contract env task u₀).Stable t (Uncommitted t) := by
  intro w w' _ _ ho h
  cases ho with
  | proc hne hpre hexec hguar =>
    refine uncommitted_after h ?_
    by_contra hc
    exact hne (proc_of_isCommit (by simpa using hc))
  | event hpre hexec => exact h

theorem stable_only : (contract env task u₀).Stable t (OnlyUser t u) := by
  intro w w' _ _ ho h
  cases ho with
  | proc hne hpre hexec hguar =>
    exact onlyUser_after h fun u' hw => absurd (proc_of_isUserWrite hw) hne
  | event hpre hexec => exact h

theorem stable_idle : (contract env task u₀).Stable t
    fun w => ∀ id, ¬ (w.state.db .sessions).Holds t id :=
  fun _ _ _ _ ho h id hid => h id ((other_keeps ho .sessions).holds.mpr hid)

theorem stable_begun : (contract env task u₀).Stable t (Begun t u) :=
  fun w w' hi hi' ho h => ⟨stable_uncommitted w w' hi hi' ho h.uncommitted,
    stable_only w w' hi hi' ho h.only, stable_idle w w' hi hi' ho h.idle⟩

theorem stable_covered : (contract env task u₀).Stable t (Covered t u L) := by
  intro w w' _ _ ho h
  cases ho with
  | proc hne hpre hexec hguar => exact covered_after h hguar
  | event hpre hexec =>
    cases hexec
    exact h

theorem stable_dead : (contract env task u₀).Stable t (Dead t id) := by
  rintro w w' hi - ho ⟨s, hs, hrev⟩
  have hkeeps := other_keeps ho .sessions
  by_cases hk : (w.state.db .sessions).Holds t id
  · exact ⟨s, (hkeeps.view hk).trans hs, hrev⟩
  rw [Table.view_of_not_holds hk] at hs
  have hk' : ¬ (w'.state.db .sessions).Holds t id := fun h => hk (hkeeps.holds.mpr h)
  cases ho with
  | proc hne hpre hexec hguar =>
    obtain ⟨s', hs', -, hrev'⟩ := hguar.old id s hs
    exact ⟨s', (Table.view_of_not_holds hk').trans hs', hrev' hrev⟩
  | event hpre hexec =>
    cases hexec
    exact ⟨s, (Table.view_of_not_holds hk').trans hs, hrev⟩

/-! ### Pieces of the requests -/

/-- A sweep that has listed the sessions. -/
def Listed (t : T) (u : UserId) (L : List SessionId) (w : BackendWorld T) : Prop :=
  Begun t u w ∧ Covered t u L w

theorem stable_listed : (contract env task u₀).Stable t (Listed t u L) :=
  stable_begun.and stable_covered

/-- The request has committed, if it is a sweep. -/
def Settled (task : T → Task) (t : T) (w : BackendWorld T) : Prop :=
  (task t).isSweep = true → ¬ Uncommitted t w

theorem not_uncommitted_after {o : Op} {x : Except Exc o.Res} {s : State T}
    (h : ¬ Uncommitted r w) : ¬ Uncommitted r (w.after t o x s) := by
  intro h'
  refine h (since_eq_none.mpr fun e he => since_eq_none.mp h' e (List.mem_cons_of_mem _ he))

theorem stable_settled : (contract env task u₀).Stable t (Settled task t) := by
  intro w w' _ _ ho h ht
  cases ho with
  | proc hne hpre hexec hguar => exact not_uncommitted_after (h ht)
  | event hpre hexec => exact h ht

/-- What survives the quiet operations of the process itself. -/
structure Kept (env : Primitives) (task : T → Task) (u₀ : UserId) (t : T)
    (A : BackendWorld T → Prop) : Prop where
  stable : (contract env task u₀).Stable t A
  quiet : ∀ w o x s, s.db .sessions = w.state.db .sessions →
    (∀ r, isCommit r (⟨t, o, x⟩ : BackendEntry T) = false) →
    (∀ u', isUserWrite t u' (⟨t, o, x⟩ : BackendEntry T) = false) →
    Guar t o x w (w.after t o x s) → A w → A (w.after t o x s)

theorem Begun.after (h : Begun t u w) {o : Op} {x : Except Exc o.Res} {s : State T}
    (hdb : s.db .sessions = w.state.db .sessions)
    (hc : isCommit t (⟨t, o, x⟩ : BackendEntry T) = false)
    (hw : ∀ u', isUserWrite t u' (⟨t, o, x⟩ : BackendEntry T) = true → u' = u) :
    Begun t u (w.after t o x s) := by
  refine ⟨uncommitted_after h.uncommitted hc, onlyUser_after h.only hw, fun id hid => ?_⟩
  rw [World.after_state, hdb] at hid
  exact h.idle id hid

theorem kept_begun : Kept env task u₀ t (Begun t u) where
  stable := stable_begun
  quiet w o x s hdb hc hw _ h := h.after hdb (hc t) fun u' hu => by
    rw [hw u'] at hu
    cases hu

theorem kept_listed : Kept env task u₀ t (Listed t u L) where
  stable := stable_listed
  quiet w o x s hdb hc hw hg h := by
    refine ⟨h.1.after hdb (hc t) fun u' hu => ?_, covered_after h.2 hg⟩
    rw [hw u'] at hu
    cases hu

theorem kept_settled : Kept env task u₀ t (Settled task t) where
  stable := stable_settled
  quiet _ _ _ _ _ _ _ _ h ht := not_uncommitted_after (h ht)

theorem kept_true : Kept env task u₀ t fun _ => True := ⟨.const True, fun _ _ _ _ _ _ _ _ _ => trivial⟩

theorem Kept.forall {γ : Type} {A : γ → BackendWorld T → Prop} (h : ∀ a, Kept env task u₀ t (A a)) :
    Kept env task u₀ t fun w => ∀ a, A a w :=
  ⟨.forall fun a => (h a).stable, fun w o x s hdb hc hw hg hA a =>
    (h a).quiet w o x s hdb hc hw hg (hA a)⟩

variable {A : BackendWorld T → Prop}

theorem Kept.step (hA : Kept env task u₀ t A) {o : Op} (ho : Quiet o) :
    (contract env task u₀).StepOk t A o fun _ => A := by
  intro w c x s hi hw _ h
  obtain ⟨hdb, hc, hu⟩ := quiet_sessions ho h
  obtain ⟨hi', hg⟩ := same_step hi hdb hc fun r hr => by
    rw [hu r u₀] at hr
    cases hr
  exact ⟨hi', hg, hA.quiet w o x s hdb hc (hu t) hg hw⟩

/-- A quiet piece of a request. -/
theorem Kept.only {α : Type} {p : Py α} (hA : Kept env task u₀ t A) (hp : p.Only Quiet) :
    (contract env task u₀).Safe t p A (fun _ => A) fun _ _ => True :=
  (Contract.Safe.only hp hA.stable fun _ ho => hA.step ho).mono (fun _ _ hw => hw)
    (fun _ _ _ hw => hw) fun _ _ _ _ => trivial

theorem Kept.perform (hA : Kept env task u₀ t A) {o : Op} (ho : Quiet o) :
    (contract env task u₀).Safe t (Prog.perform o) A (fun _ => A) fun _ _ => True :=
  hA.only (Prog.only_perform ho)

theorem safe_rollback (hA : A = (fun _ => True) ∨ A = Settled task t) :
    (contract env task u₀).Safe t Py.rollback A (fun _ => A) fun _ _ => True := by
  have hstable : (contract env task u₀).Stable t A := by
    obtain rfl | rfl := hA
    · exact .const True
    · exact stable_settled
  refine Contract.Safe.perform (fun _ => hstable) (fun _ => .const True) fun w c x s hi hw _ h => ?_
  obtain ⟨hi', hg⟩ := rollback_step hi h
  refine ⟨hi', hg, ?_⟩
  cases x with
  | error e => trivial
  | ok a =>
    obtain rfl | rfl := hA
    · trivial
    · exact fun ht => not_uncommitted_after (hw ht)

/-- A commit of a request that is no sweep, or ready, or has written no user, or has committed
before. -/
theorem safe_commit (hA : ∀ w, A w → (task t).isSweep = true → UserWrite t u₀ w →
    Uncommitted t w → ∃ u, Ready (task t).keeps t u w) :
    (contract env task u₀).Safe t Py.commit A (fun _ => Settled task t) fun _ _ => True := by
  refine Contract.Safe.perform (fun _ => stable_settled) (fun _ => .const True)
    fun w c x s hi hw hp h => ?_
  obtain ⟨hi', hg⟩ := commit_step hi hp (hA w hw) h
  refine ⟨hi', hg, ?_⟩
  cases x with
  | error e => trivial
  | ok a =>
    intro _ hun
    have := since_eq_none.mp hun _ List.mem_cons_self
    simp [isCommit] at this

/-- A request whose body commits, or is no sweep. -/
theorem safe_request {α : Type} {body : Py α}
    (h : (contract env task u₀).Safe t body A (fun _ => Settled task t) fun _ _ => True) :
    (contract env task u₀).Safe t (Py.getDbSession body) A (fun _ _ => True) fun _ _ => True :=
  Chatspace.safe_request (safe_commit fun _ hw ht _ hun => absurd hun (hw ht))
    (safe_rollback (.inr rfl)) (safe_rollback (.inl rfl)) h

/-- The sweep while it revokes: what is to be revoked is still to come, or is revoked. -/
def Revoking (keeps : Option SessionId) (t : T) (u : UserId) (L xs : List SessionId)
    (w : BackendWorld T) : Prop :=
  (Uncommitted t w ∧ OnlyUser t u w ∧ Covered t u L w) ∧
    ∀ id, id ∈ L → keeps ≠ some id → id ∈ xs ∨ Dead t id w

theorem stable_revoking {keeps : Option SessionId} {xs : List SessionId} :
    (contract env task u₀).Stable t (Revoking keeps t u L xs) :=
  (stable_uncommitted.and (stable_only.and stable_covered)).and
    (.forall fun _ => .imp fun _ => .imp fun _ => (Contract.Stable.const _).or stable_dead)

/-- What survives the flush of the user that is swept. -/
structure Flushed (env : Primitives) (task : T → Task) (u₀ : UserId) (t : T) (u : UserId)
    (A : BackendWorld T → Prop) : Prop where
  stable : (contract env task u₀).Stable t A
  uncommitted : ∀ w, A w → Uncommitted t w
  flushed : ∀ w o x s, s.db .sessions = w.state.db .sessions →
    isCommit t (⟨t, o, x⟩ : BackendEntry T) = false →
    (∀ u', isUserWrite t u' (⟨t, o, x⟩ : BackendEntry T) = true → u' = u) →
    Guar t o x w (w.after t o x s) → A w → A (w.after t o x s)

theorem flushed_begun : Flushed env task u₀ t u (Begun t u) where
  stable := stable_begun
  uncommitted _ h := h.uncommitted
  flushed _ _ _ _ hdb hc hw _ h := h.after hdb hc hw

theorem flushed_revoking {keeps : Option SessionId} {xs : List SessionId} :
    Flushed env task u₀ t u (Revoking keeps t u L xs) where
  stable := stable_revoking
  uncommitted _ h := h.1.1
  flushed w o x s hdb hc hw hg h := by
    refine ⟨⟨uncommitted_after h.1.1 hc, onlyUser_after h.1.2.1 hw, covered_after h.1.2.2 hg⟩,
      fun id hid hne => (h.2 id hid hne).imp_right fun ⟨s₀, hs₀, hrev⟩ => ⟨s₀, ?_, hrev⟩⟩
    rw [World.after_state, hdb]
    exact hs₀

/-- The flush of the user that is swept. -/
theorem safe_flushUser (f : User → User) (hA : Flushed env task u₀ t u A) :
    (contract env task u₀).Safe t (Py.flushUpdate .users u f) A (fun _ => A) fun _ _ => True := by
  refine Contract.Safe.await (fun _ => A) (fun _ => hA.stable) (fun _ => .const True)
    (fun w c x s hi hw _ h => ?_) fun matched => ?_
  · have hdb : s.db .sessions = w.state.db .sessions := by
      obtain ⟨d, hd, rfl⟩ := exec_sql h
      obtain ⟨rfl, -⟩ | ⟨y, -, -, -, rfl, -⟩ := exec_update hd <;> rfl
    have huser : ∀ r u', isUserWrite r u'
        (⟨t, .sql (.update .users u (fun _ => true) f), x⟩ : BackendEntry T) = true →
        r = t ∧ u' = u := by
      intro r u' hw'
      unfold isUserWrite at hw'
      split at hw'
      · rename_i heq
        cases heq
        obtain ⟨h₁, h₂⟩ := of_decide_eq_true hw'
        exact ⟨h₁.symm, h₂.symm⟩
      · cases hw'
    obtain ⟨hi', hg⟩ := same_step (t := t) (o := .sql (.update .users u (fun _ => true) f)) (x := x)
      hi hdb (fun _ => rfl) fun r hr => (huser r u₀ hr).1 ▸ hA.uncommitted w hw
    refine ⟨hi', hg, ?_⟩
    cases x with
    | error e => trivial
    | ok a => exact hA.flushed w _ _ s hdb rfl (fun u' hu => (huser t u' hu).2) hg hw
  · split
    · exact fun _ _ hw => hw
    · exact fun _ _ _ => trivial

/-! ### The sweep of the sessions -/

theorem Covered.mono {L' : List SessionId} (h : Covered r u L w) (hL : ∀ id ∈ L, id ∈ L') :
    Covered r u L' w := by
  obtain ⟨newer, hs, hcovered⟩ := h
  exact ⟨newer, hs, fun id s h₁ h₂ h₃ => (hcovered id s h₁ h₂ h₃).imp_left (hL id)⟩

/-- The `SELECT` returns every living session of the user. -/
theorem safe_listActiveSessionsForUser :
    (contract env task u₀).Safe t (listActiveSessionsForUser u) (Begun t u)
      (fun sessions => Listed t u (sessions.map Prod.fst)) fun _ _ => True := by
  refine Contract.Safe.await (fun rows => Listed t u (rows.map Prod.fst)) (fun _ => stable_listed)
    (fun _ => .const True) (fun w c x s hi hw hp h => ?_) fun rows w _ hw => ?_
  · have hstep := kept_begun.step (by trivial) w c x s hi hw hp h
    refine ⟨hstep.1, hstep.2.1, ?_⟩
    cases x with
    | error e => trivial
    | ok rows =>
      refine ⟨hstep.2.2, ?_⟩
      obtain ⟨d, hd, rfl⟩ := exec_sql h
      obtain ⟨rfl, hperm⟩ := exec_select hd
      have hlist : ∀ id s, row w id = some s → s.userId = u → s.revokedAt = none →
          id ∈ rows.map Prod.fst := by
        intro id s hs hu hrev
        refine List.mem_map.mpr ⟨(id, s), (hperm rows rfl).mem_iff.mpr ?_, rfl⟩
        exact Table.mem_scan.mpr
          ⟨(Table.view_of_not_holds (hw.idle id)).trans hs, by simp [hu, hrev]⟩
      have hsince : ∃ newer, since (isSessionRead t)
          (⟨t, .sql (.select .sessions fun _ s => decide (s.userId = u) && s.revokedAt.isNone),
            .ok rows⟩ :: w.trace : List (BackendEntry T)) = some newer := by
        cases hs : since (isSessionRead t) w.trace with
        | some newer => exact ⟨_, since_cons_of_some hs⟩
        | none => exact ⟨[], (since_cons_of_none hs).trans (if_pos (by simp [isSessionRead]))⟩
      obtain ⟨newer, hsince⟩ := hsince
      exact ⟨newer, hsince, fun id s hs hu hrev => .inl (hlist id s hs hu hrev)⟩
  · refine ⟨hw.1, hw.2.mono fun id hid => ?_⟩
    obtain ⟨x, hx, rfl⟩ := List.mem_map.mp hid
    exact List.mem_map.mpr ⟨x, (List.mem_insertionSort _).mpr hx, rfl⟩

theorem safe_flushRevocation (ht : (task t).isSweep = true) {keeps : Option SessionId} {ts : Time}
    {id : SessionId} {xs : List SessionId} :
    (contract env task u₀).Safe t (Py.flushUpdate .sessions id (Session.revoke ts))
      (Revoking keeps t u L (id :: xs)) (fun _ => Revoking keeps t u L xs) fun _ _ => True := by
  refine Contract.Safe.await
    (fun matched w => matched = true → Revoking keeps t u L xs w)
    (fun _ => .imp fun _ => stable_revoking) (fun _ => .const True)
    (fun w c x s hi hw _ h => ?_) fun matched => ?_
  · obtain ⟨hi', hg, hdead, hkeep⟩ := revoke_step hi ht h
    refine ⟨hi', hg, ?_⟩
    cases x with
    | error e => trivial
    | ok matched =>
      rintro rfl
      obtain ⟨⟨hun, honly, hcov⟩, hrevoking⟩ := hw
      refine ⟨⟨uncommitted_after hun rfl, onlyUser_after honly nofun, covered_after hcov hg⟩,
        fun j hj hne => ?_⟩
      obtain hmem | hd := hrevoking j hj hne
      · obtain rfl | hmem := List.mem_cons.mp hmem
        · exact .inr (hdead j rfl rfl)
        · exact .inl hmem
      · exact .inr (hkeep j hd)
  · cases matched with
    | true => exact fun _ _ hw => hw rfl
    | false => exact fun _ _ _ => trivial

/-- **The sweep is complete as far as its list goes.** -/
theorem safe_revokeSessionsForUser (ht : (task t).isSweep = true) (keeps : Option SessionId)
    {before after : Py Unit} (hbefore : before.Only Quiet)
    (hafter : ∀ L, (contract env task u₀).Safe t after (Revoking keeps t u L [])
      (fun _ => Revoking keeps t u L []) fun _ _ => True) :
    (contract env task u₀).Safe t (revokeSessionsForUser u keeps before after) (Begun t u)
      (fun _ => Ready keeps t u) fun _ _ => True := by
  refine Contract.Safe.bind (kept_begun.perform (by trivial)) fun ts => ?_
  refine Contract.Safe.bind safe_listActiveSessionsForUser fun sessions => ?_
  refine Contract.Safe.bind (kept_listed.only hbefore) fun _ => ?_
  refine Contract.Safe.bind (Q := fun _ => Revoking keeps t u (sessions.map Prod.fst) []) ?_
    fun _ => Contract.Safe.bind (hafter _) fun _ w _ hw =>
      ⟨hw.1.2.1, _, hw.1.2.2, fun id hid hne => ?_⟩
  · refine (Contract.Safe.forEach (I := fun xs (_ : List Unit) =>
      Revoking keeps t u (sessions.map Prod.fst) xs)
      (fun id xs bs => safe_flushRevocation ht) _ []).weaken fun w _ hw => ?_
    refine ⟨⟨hw.1.uncommitted, hw.1.only, hw.2⟩, fun id hid hne => .inl ?_⟩
    rw [List.mem_insertionSort]
    exact List.mem_filter.mpr ⟨hid, by simpa using hne⟩
  · exact (hw.2 id hid hne).resolve_left (List.not_mem_nil)

/-! ### The requests -/

theorem only_invalidate (ids : List SessionId) :
    (Prog.forEach ids invalidateSessionCache).Only Quiet :=
  Prog.only_forEach _ fun id => (Prog.only_perform trivial).handle fun e => by
    split <;> trivial

/-- The end of a sweep: commit, and drop the cached verdicts. -/
theorem safe_commitSweep {α : Type} (ids : List SessionId) (a : α) :
    (contract env task u₀).Safe t
      (Py.commit.bind fun _ => (Prog.forEach ids invalidateSessionCache).bind fun _ => .ret a)
      (fun w => ∃ u, Ready (task t).keeps t u w) (fun _ => Settled task t) fun _ _ => True :=
  Contract.Safe.bind (safe_commit fun _ hw _ _ _ => hw) fun _ =>
    Contract.Safe.bind (kept_settled.only (only_invalidate ids)) fun _ _ _ hw => hw

theorem safe_changePassword {current new : Text} {id : SessionId}
    (ht : task t = .changePassword current new u id) :
    (contract env task u₀).Safe t (changePassword env current new u id) (Begun t u)
      (fun _ _ => True) fun _ _ => True := by
  have hsweep : (task t).isSweep = true := by rw [ht]; rfl
  refine safe_request (Contract.Safe.bind (kept_begun.perform (by trivial)) fun user => ?_)
  match user with
  | none => exact fun _ _ _ => trivial
  | some user =>
    show (contract env task u₀).Safe t (if _ then _ else _) _ _ _
    split
    · exact fun _ _ _ => trivial
    refine Contract.Safe.bind (Q := fun _ => Begun t u) ?_ fun _ => ?_
    · show (contract env task u₀).Safe t (if _ then _ else _) _ _ _
      split
      · exact fun _ _ hw => hw
      · exact fun _ _ _ => trivial
    refine Contract.Safe.bind (safe_revokeSessionsForUser hsweep (some id) trivial fun L =>
      safe_flushUser _ flushed_revoking) fun ids => ?_
    refine (safe_commitSweep ids ()).weaken fun w _ hw => ⟨u, ?_⟩
    rw [ht]
    exact hw

theorem safe_confirmPasswordReset {token : RawToken} {new : Text}
    (ht : task t = .confirmPasswordReset token new) :
    (contract env task u₀).Safe t (confirmPasswordReset env token new)
      (fun w => ∀ u, Begun t u w) (fun _ _ => True) fun _ _ => True := by
  have hsweep : (task t).isSweep = true := by rw [ht]; rfl
  have hall : Kept env task u₀ t fun w => ∀ u, Begun t u w := .forall fun _ => kept_begun
  refine safe_request (Contract.Safe.bind (Q := fun _ w => ∀ u, Begun t u w) ?_ fun found => ?_)
  · exact hall.only ((Prog.only_perform trivial).bind fun ts =>
      (Prog.only_perform trivial).bind fun rows => trivial)
  match found with
  | none => exact fun _ _ _ => trivial
  | some (tokenId, token) =>
    refine Contract.Safe.bind (Q := fun _ w => ∀ u, Begun t u w) ?_ fun _ => ?_
    · show (contract env task u₀).Safe t (if _ then _ else _) _ _ _
      split
      · exact fun _ _ hw => hw
      · exact fun _ _ _ => trivial
    refine Contract.Safe.bind (hall.perform (by trivial)) fun user => ?_
    match user with
    | none => exact fun _ _ _ => trivial
    | some user =>
      refine Contract.Safe.bind (hall.perform (by trivial)) fun now => ?_
      refine Contract.Safe.bind ((safe_revokeSessionsForUser hsweep none ?_ fun L =>
        safe_flushUser _ flushed_revoking).weaken fun w _ hw => hw token.userId) fun ids => ?_
      · exact Py.only_flushUpdate trivial
      · refine (safe_commitSweep ids ()).weaken fun w _ hw => ⟨token.userId, ?_⟩
        rw [ht]
        exact hw

theorem safe_getUserOr404 (hA : Kept env task u₀ t A) :
    (contract env task u₀).Safe t (getUserOr404 u) A (fun _ => A) fun _ _ => True := by
  refine Contract.Safe.bind (hA.perform (by trivial)) fun user => ?_
  match user with
  | none => exact fun _ _ _ => trivial
  | some user => exact fun _ _ hw => hw

/-- What the body of a deactivation leaves behind, by its result. -/
def Deactivated (t : T) (u : UserId) : DeactivationResult → BackendWorld T → Prop
  | .deactivated .. => Ready none t u
  | .alreadyInactive => fun w => ∀ u', Begun t u' w
  | .lastActiveSystemAdmin => fun _ => True

theorem safe_deactivate (ht : (task t).isSweep = true) :
    (contract env task u₀).Safe t (AdminUsers.deactivate u) (Begun t u) (Deactivated t u)
      fun _ _ => True := by
  refine Contract.Safe.bind (kept_begun.only (Channels.only_runSoleAdminSuccession
    (fun _ => trivial) (fun _ _ => trivial) (fun _ => trivial) u none)) fun promoted => ?_
  refine Contract.Safe.bind (safe_flushUser _ flushed_begun) fun _ => ?_
  exact Contract.Safe.bind (safe_revokeSessionsForUser ht none trivial fun L _ _ hw => hw)
    fun ids _ _ hw => hw

theorem safe_deactivateUser (ht : (task t).isSweep = true) (target : User) :
    (contract env task u₀).Safe t (deactivateUser u target) (fun w => ∀ u', Begun t u' w)
      (Deactivated t u) fun _ _ => True := by
  show (contract env task u₀).Safe t (if _ then _ else (if _ then _ else _)) _ _ _
  split
  · exact fun _ _ hw => hw
  split
  · refine Contract.Safe.bind (Q := fun _ => Begun t u) ?_ fun count => ?_
    · have hlock : lockAndCountActiveSystemAdmins.Only Quiet :=
        (Channels.only_selectForUpdate (by trivial) fun _ => trivial).bind fun rows => trivial
      exact (kept_begun.only hlock).weaken fun w _ hw => hw u
    · show (contract env task u₀).Safe t (if _ then _ else _) _ _ _
      split
      · exact fun _ _ _ => trivial
      · exact safe_deactivate ht
  · exact (safe_deactivate ht).weaken fun w _ hw => hw u

theorem safe_deactivateUserRoute (ht : task t = .deactivate u) :
    (contract env task u₀).Safe t (deactivateUserRoute u) (fun w => ∀ u', Begun t u' w)
      (fun _ _ => True) fun _ _ => True := by
  have hsweep : (task t).isSweep = true := by rw [ht]; rfl
  have hall : Kept env task u₀ t fun w => ∀ u, Begun t u w := .forall fun _ => kept_begun
  refine safe_request (Contract.Safe.bind (safe_getUserOr404 hall) fun target => ?_)
  refine Contract.Safe.bind (safe_deactivateUser hsweep target) fun result => ?_
  cases result with
  | lastActiveSystemAdmin =>
    exact Contract.Safe.bind (safe_rollback (.inl rfl)) fun _ _ _ _ => trivial
  | alreadyInactive =>
    -- the request has written no user at all
    refine Contract.Safe.bind (safe_commit fun w hw _ hwrite _ => ?_) fun _ _ _ hw => hw
    exact absurd ((hw (u₀ + 1)).only u₀ hwrite) (Nat.ne_of_lt (Nat.lt_succ_self u₀))
  | deactivated ids promoted =>
    refine (safe_commitSweep ids _).weaken fun w _ hw => ⟨u, ?_⟩
    rw [ht]
    exact hw

/-- A request that is no sweep commits what it likes. -/
theorem safe_login {email password : Text} {ttl : ℕ} (ht : (task t).isSweep = false) :
    (contract env task u₀).Safe t (login env email password ttl) (fun _ => True)
      (fun _ _ => True) fun _ _ => True := by
  refine safe_request ?_
  have hsettled : (contract env task u₀).Safe t (authenticateAndLogin env email password ttl)
      (fun _ => True) (fun _ _ => True) fun _ _ => True := by
    refine Contract.Safe.bind (Q := fun _ _ => True) ?_ fun found => ?_
    · exact kept_true.only ((Prog.only_perform trivial).bind fun rows => trivial)
    match found with
    | none => exact fun _ _ _ => trivial
    | some (userId, user) =>
      show (contract env task u₀).Safe t (if _ then _ else (if _ then _ else (if _ then _ else _)))
        _ _ _
      split
      · exact fun _ _ _ => trivial
      split
      · exact fun _ _ _ => trivial
      split
      · exact fun _ _ _ => trivial
      refine Contract.Safe.bind (Q := fun _ _ => True) ?_ fun created => fun _ _ _ => trivial
      refine Contract.Safe.bind (kept_true.perform (by trivial)) fun issuedAt => ?_
      refine Contract.Safe.bind (kept_true.perform (by trivial)) fun token => ?_
      refine Contract.Safe.bind (kept_true.perform (by trivial)) fun id => ?_
      refine Contract.Safe.bind (Q := fun _ _ => True) ?_ fun session => fun _ _ _ => trivial
      refine Contract.Safe.await (fun _ _ => True) (fun _ => .const True) (fun _ => .const True)
        (fun w c x s hi hw _ h => ?_) fun inserted => ?_
      · obtain ⟨hi', hg⟩ := insert_step hi ht h
        refine ⟨hi', hg, ?_⟩
        cases x <;> trivial
      · cases inserted <;> exact fun _ _ _ => trivial
  refine Contract.Safe.handle (hsettled.mono (fun _ _ hw => hw) (fun _ _ _ _ hsweep => ?_)
    fun _ _ _ hw => hw) fun _ _ _ _ => trivial
  rw [ht] at hsweep
  cases hsweep

theorem safe_reactivateUserRoute (ht : (task t).isSweep = false) :
    (contract env task u₀).Safe t (reactivateUserRoute u) (Begun t u) (fun _ _ => True)
      fun _ _ => True := by
  have hsettled : ∀ w : BackendWorld T, Settled task t w := by
    intro w hsweep
    rw [ht] at hsweep
    cases hsweep
  refine safe_request (Contract.Safe.bind (safe_getUserOr404 kept_begun) fun target => ?_)
  show (contract env task u₀).Safe t (if _ then _ else _) _ _ _
  split
  · refine Contract.Safe.bind (safe_flushUser _ flushed_begun) fun _ => safe_commit ?_
    intro w _ hsweep
    rw [ht] at hsweep
    cases hsweep
  · exact (safe_rollback (.inl rfl)).mono (fun _ _ _ => trivial) (fun _ w _ _ => hsettled w)
      fun _ _ _ hw => hw

/-- Every request keeps to the contract. -/
theorem safe_task (ttl : ℕ) :
    (contract env task u₀).Safe t ((task t).program env ttl) (fun w => ∀ u, Begun t u w)
      (fun _ _ => True) fun _ _ => True := by
  cases ht : task t with
  | login email password =>
    exact Contract.Safe.bind ((safe_login (by rw [ht]; rfl)).weaken fun _ _ _ => trivial)
      fun _ _ _ _ => trivial
  | confirmPasswordReset token new => exact safe_confirmPasswordReset ht
  | changePassword current new u id => exact (safe_changePassword ht).weaken fun w _ hw => hw u
  | deactivate u =>
    exact Contract.Safe.bind (safe_deactivateUserRoute ht) fun _ _ _ _ => trivial
  | reactivate u =>
    exact (safe_reactivateUserRoute (by rw [ht]; rfl)).weaken fun w _ hw => hw u

/-! ### The result -/

abbrev CredentialPool (T : Type) : Type := Pool T Op Op.Res Exc Unit (State T)

/-- Before the first request: no transaction on the sessions. -/
structure Start (env : Primitives) (task : T → Task) (ttl : ℕ) (p : CredentialPool T) : Prop where
  prog : ∀ t, p.prog t = (task t).program env ttl
  trace : p.world.trace = []
  hold : ∀ id, (p.world.state.db .sessions).hold id = none

theorem Start.sound {ttl : ℕ} {p : CredentialPool T} (h : Start env task ttl p) :
    (contract env task u₀).Sound (fun _ _ _ => True) (fun _ _ _ => True) p where
  inv := by
    refine ⟨fun id t v hv => ?_, fun r newer _ hw => ?_⟩
    · rw [h.hold] at hv
      cases hv
    · obtain ⟨e, he, -⟩ := hw
      rw [h.trace] at he
      cases he
  safe t := by
    refine ⟨fun w => ∀ u, Begun t u w, .forall fun _ => stable_begun, fun u => ⟨?_, ?_, ?_⟩, ?_⟩
    · show since _ p.world.trace = none
      rw [h.trace]
      rfl
    · rintro u' ⟨e, he, -⟩
      rw [h.trace] at he
      cases he
    · rintro id ⟨v, hv⟩
      rw [h.hold] at hv
      cases hv
    · rw [h.prog]
      exact safe_task ttl

theorem eventsOk : (contract (T := T) env task u₀).EventsOk := by
  rintro ⟨n⟩ w s hi - he
  cases he
  exact ⟨hi.pending, hi.swept⟩

/-- **Sweeps are complete.** In every interleaving of logins, sweeps and reactivations in which no
session of `u₀` is committed while a sweep that has listed the sessions is about to commit, nor
after a sweep by a login that read the user's row before: whatever sessions are alive after a
sweep's commit belong to logins that read the row after it, or are the one it keeps. -/
theorem sweep_complete {ttl : ℕ} {p₀ p : CredentialPool T} {ls : List (Label T Choice Tick)}
    (h₀ : Start env task ttl p₀)
    (hC : (machine T env.hashRefreshToken).Meets (onTime task u₀) p₀ ls)
    (hp : (machine T env.hashRefreshToken).run p₀ ls = some p) : Swept task u₀ p.world :=
  (h₀.sound.run eventsOk hC hp).inv.swept

/-! ### A login and a deactivation -/

def loginAndDeactivation : Bool → Task
  | false => .login ['a'] ['p']
  | true => .deactivate 10

/-- A login of user 10 and the user's deactivation. -/
def loginWhileDeactivated : CredentialPool Bool where
  world := ⟨State.ofRows fun
    | .users => [(10, ⟨['u'], ['a'], ['p'], ['f'], ['l'], true, false, false, 0⟩)]
    | _ => [], []⟩
  prog t := (loginAndDeactivation t).program plainEnv 30

theorem loginWhileDeactivated_start :
    Start plainEnv loginAndDeactivation 30 loginWhileDeactivated where
  prog _ := rfl
  trace := rfl
  hold _ := rfl

/-- `k` awaits of request `t`. -/
def awaits (t : Bool) (k : ℕ) : List (Label Bool Choice Tick) :=
  List.replicate k (.proc t (.ok [] 1))

/-- **A session that outlives the sweep.** The login has read the row of the user and inserted its
session; the deactivation comes and goes; the login commits. -/
theorem session_outlives_sweep :
    Start plainEnv loginAndDeactivation 30 loginWhileDeactivated ∧
      ∃ p, (machine Bool plainEnv.hashRefreshToken).run loginWhileDeactivated
          (awaits false 5 ++ awaits true 8 ++ awaits false 1) = some p ∧
        ¬ Swept loginAndDeactivation 10 p.world := by
  refine ⟨loginWhileDeactivated_start, _, rfl, fun h => ?_⟩
  obtain hkeeps | ⟨t, -, e, he, hread⟩ := h true _ rfl ⟨_, List.mem_of_getElem? (i := 6) rfl, rfl⟩
    rfl 1 _ rfl rfl rfl
  · cases hkeeps
  · fin_cases he <;> cases hread

/-- A deactivation that starts when the login has committed revokes its session. -/
theorem sweep_complete_after_login :
    ∃ p, (machine Bool plainEnv.hashRefreshToken).run loginWhileDeactivated
        (awaits false 7 ++ awaits true 10) = some p ∧ Swept loginAndDeactivation 10 p.world := by
  obtain ⟨p, hp⟩ := Option.isSome_iff_exists.mp
    (show ((machine Bool plainEnv.hashRefreshToken).run loginWhileDeactivated
      (awaits false 7 ++ awaits true 10)).isSome = true by decide)
  exact ⟨p, hp, sweep_complete loginWhileDeactivated_start (by decide) hp⟩

end Chatspace.CredentialSweep
