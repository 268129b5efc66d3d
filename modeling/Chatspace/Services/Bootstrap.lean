import Chatspace.Services.Invites
import Chatspace.Services.LastSystemAdmin

/-!
# `app/services/bootstrap.py`

The System Admin bootstrap, as the lifespan of every instance runs it.  The first `SELECT` sees the
committed users only; what keeps two instances from seeding is the unique index on the username, where
the second `INSERT` waits for the first.

* `ensureSystemAdminBootstrapped`, `lifespan` — the coroutines;
* `bootstrap_once` — **at most one user is seeded, into an empty table only; an instance that has
  committed leaves an active System Admin, and every other one that ends has raised.**
-/

namespace Chatspace.Bootstrap

open Interleave Store Auth LastSystemAdmin

/-- `Settings.bootstrap_admin_*`. -/
structure Settings where
  bootstrapAdminPassword : Text
  bootstrapAdminUsername : Text
  bootstrapAdminEmail : Text
  bootstrapAdminFirstName : Text
  bootstrapAdminLastName : Text

variable (env : Primitives) (settings : Settings)

/-- `_active_system_admin_exists`. -/
def activeSystemAdminExists : Py Bool := do
  let rows ← Py.select .users fun _ u => isActiveSystemAdmin u
  return !rows.isEmpty

/-- The candidate; `created_at` is the database's. -/
def candidate (createdAt : Time) : User :=
  ⟨settings.bootstrapAdminUsername, settings.bootstrapAdminEmail,
    env.hashPassword settings.bootstrapAdminPassword, settings.bootstrapAdminFirstName,
    settings.bootstrapAdminLastName, true, true, true, createdAt⟩

/-- `btrim(s) <> ''`. -/
def notBlank (s : Text) : Bool := s.any (· ≠ ' ')

/-- The CHECK constraints of `users`. -/
def meetsChecks (u : User) : Bool :=
  1 ≤ u.username.length && u.username.length ≤ 32 && notBlank u.firstName && notBlank u.lastName

/-- The flush of the candidate: its row, and its entries in the unique indexes. -/
def flushCandidate (userId : UserId) : Py Unit := do
  if !meetsChecks (candidate env settings 0) then .raise .checkViolation
  else do
    let _ ← Py.flushInsert .users userId (candidate env settings)
    let _ ← Py.flushInsert .usersUsernameLower (env.lower settings.bootstrapAdminUsername)
      fun _ => userId
    let _ ← Py.flushInsert .usersEmailLower (env.lower settings.bootstrapAdminEmail)
      fun _ => userId
    return ()

/-- `except IntegrityError`: a unique violation is another instance's success. -/
def integrityErrorHandler (e : Exc) : Py Unit :=
  if e = .integrityError ∨ e = .checkViolation then do
    Py.rollback
    if e ≠ .integrityError then
      .raise (.bootstrapError ("System Admin bootstrap failed: the env-seeded bootstrap " ++
        "admin row violates a database constraint. Check BOOTSTRAP_ADMIN_* env vars " ++
        "(username length/charset, non-blank first/last name)."))
    else return ()
  else .raise e

def seed : Py Unit := do
  (Password.enforcePasswordPolicy env settings.bootstrapAdminPassword "password").handle fun
    | .passwordPolicyError _ => .raise (.bootstrapError
        ("System Admin bootstrap failed: BOOTSTRAP_ADMIN_PASSWORD does not meet " ++
          "the password policy. Check BOOTSTRAP_ADMIN_PASSWORD (minimum length, " ++
          "must contain at least one letter and one digit)."))
    | e => .raise e
  let userId ← Prog.perform Op.generateId
  (flushCandidate env settings userId).handle integrityErrorHandler

/-- `if not await _active_system_admin_exists(session)`. -/
def verify : Py Unit := do
  if !(← activeSystemAdminExists) then
    .raise (.bootstrapError ("No active System Admin exists and bootstrap could not create one — " ++
      "refusing to serve (ADR-0009: workspace can never reach a zero-admin state at startup)."))
  else return ()

def ensureSystemAdminBootstrapped : Py Unit := do
  let users ← Py.select .users fun _ _ => true
  if users.length = 0 then (seed env settings).bind fun _ => verify
  else verify

/-- The bootstrap in the session of `_lifespan`, which commits, or rolls back on an `Exception`, and
is closed. -/
def lifespan : Py Unit := Py.getDbSession (ensureSystemAdminBootstrapped env settings)

/-! ### What is committed -/

variable {env settings} {T : Type} [DecidableEq T] {hash : RawToken → TokenHash} {t : T}
  {w : BackendWorld T} {s : State T} {o : Op} {r : Except Exc o.Res} {k : UserId}
  {init : UserId → Option User} {name : Text}

/-- The user found in the index of usernames. -/
def indexed (w : BackendWorld T) (name : Text) : Option UserId :=
  (w.state.db .usersUsernameLower).committed name

/-- Besides the users there were, there is only one seeded into an empty table: the one the index
leads to. -/
structure Seeded (init : UserId → Option User) (name : Text) (w : BackendWorld T) : Prop where
  kept : ∀ k x, init k = some x → committedUser w k = some x
  seeded : ∀ k x, committedUser w k = some x →
    init k = some x ∨ ((∀ j, init j = none) ∧ isActiveSystemAdmin x = true ∧ indexed w name = some k)

/-- An instance has committed. -/
def Committed (t : T) (w : BackendWorld T) : Prop :=
  ∃ e ∈ w.trace, e = (⟨t, .sql .commit, .ok ()⟩ : Entry T Op Op.Res Exc)

/-- Committed users stay, and whoever has committed leaves a System Admin. -/
def contract (hash : RawToken → TokenHash) (init : UserId → Option User) (name : Text) :
    Contract (machine T hash) where
  inv w := Seeded init name w ∧ ∀ t, Committed t w → HasSystemAdmin w
  pre := .always
  guar _ _ _ w w' := ∀ k x, committedUser w k = some x → committedUser w' k = some x

def watched : List Tbl := [.users, .usersUsernameLower]

theorem users_mem : Tbl.users ∈ watched := by simp [watched]

theorem index_mem : Tbl.usersUsernameLower ∈ watched := by simp [watched]

omit [DecidableEq T] in
/-- A step that is no commit commits nothing for anybody. -/
theorem committed_after {t' : T} (h : Committed t (w.after t' o r s))
    (he : ∀ p, (⟨t', o, r⟩ : Entry T Op Op.Res Exc) ≠ ⟨p, .sql .commit, .ok ()⟩) :
    Committed t w := by
  rcases h with ⟨e, hmem, rfl⟩
  rcases List.mem_cons.mp hmem with heq | hmem
  · exact absurd heq.symm (he t)
  · exact ⟨_, hmem, rfl⟩

theorem aboutCommitted :
    AboutCommitted (contract (T := T) hash init name) watched fun _ => False := by
  intro t o r w s _ _ he hc hi
  have husers : ∀ k, committedUser (w.after t o r s) k = committedUser w k := by
    intro k
    rw [committedUser, World.after_state, hc .users users_mem]
    rfl
  have hindex : indexed (w.after t o r s) name = indexed w name := by
    rw [indexed, World.after_state, hc .usersUsernameLower index_mem]
    rfl
  refine ⟨⟨⟨?_, ?_⟩, ?_⟩, ?_⟩
  · intro k x hx
    rw [husers]
    exact hi.1.kept k x hx
  · intro k x hx
    rw [husers] at hx
    rw [hindex]
    exact hi.1.seeded k x hx
  · intro t' ht'
    rcases hi.2 t' (committed_after ht' he) with ⟨k, x, hx, hadmin⟩
    exact ⟨k, x, (husers k).trans hx, hadmin⟩
  · intro k x hx
    exact (husers k).trans hx

theorem allows : Allows (contract (T := T) hash init name) watched fun _ => False :=
  aboutCommitted.allows users_mem fun _ => id

/-! ### What an instance knows -/

/-- What a transaction holds of the users, and of the index. -/
abbrev Mine : Type := UserId → Option (Option (Option User) × Option User)

abbrev MineIndex : Type := Text → Option (Option (Option UserId) × Option UserId)

/-- The transaction has inserted a System Admin, into a table that was empty. -/
def Inserted (init : UserId → Option User) (k : UserId) (m : Mine) : Prop :=
  (∀ j, init j = none) ∧
    (∃ x, m k = some (some (some x), none) ∧ isActiveSystemAdmin x = true) ∧
    ∀ j v y, m j = some (some v, y) → j = k

/-- It has inserted the index entry, too. -/
def Indexed (name : Text) (k : UserId) (m : MineIndex) : Prop :=
  m name = some (some (some k), none) ∧ ∀ n v y, m n = some (some v, y) → n = name

/-- Nothing is written. -/
def Clean (t : T) (w : BackendWorld T) : Prop :=
  Unwritten .users t w ∧ Unwritten .usersUsernameLower t w

/-- What a transaction may commit. -/
def Fit (init : UserId → Option User) (name : Text) (t : T) (w : BackendWorld T) : Prop :=
  Clean t w ∨
    ∃ k, Inserted init k ((w.state.db .users).mine t) ∧
      Indexed name k ((w.state.db .usersUsernameLower).mine t)

/-- A System Admin is written. -/
def WritesAdmin (m : Mine) : Prop :=
  ∃ k x y, m k = some (some (some x), y) ∧ isActiveSystemAdmin x = true

/-- The transaction sees a System Admin, who is committed or whom it has inserted. -/
def Sees (t : T) (w : BackendWorld T) : Prop :=
  HasSystemAdmin w ∨ WritesAdmin ((w.state.db .users).mine t)

variable {K : Contract (machine T hash)}

theorem kept_clean : Kept K watched (fun _ => False) t (Clean t) :=
  (Chatspace.kept_unwritten users_mem).and (Chatspace.kept_unwritten index_mem)

theorem kept_fit : Kept K watched (fun _ => False) t (Fit init name t) :=
  kept_clean.or
    (.exists fun k => (Kept.mine users_mem (P := Inserted init k)).and
      (Kept.mine index_mem (P := Indexed name k)))

theorem stable_hasSystemAdmin : (contract hash init name).Stable t HasSystemAdmin := by
  intro w w' _ _ ho h
  rcases h with ⟨k, x, hx, hadmin⟩
  cases ho with
  | proc hne hpre hexec hguar => exact ⟨k, x, hguar k x hx, hadmin⟩
  | event hpre hexec =>
    cases hexec
    exact ⟨k, x, hx, hadmin⟩

theorem stable_sees : (contract hash init name).Stable t (Sees t) :=
  stable_hasSystemAdmin.or (stable_mine (τ := .users) (P := WritesAdmin))

theorem fit_of_released (h : ∀ τ k, (s.db τ).mine t k = none) :
    Fit init name t (w.after t o r s) := by
  refine .inl ⟨fun k v x hx => ?_, fun k v x hx => ?_⟩
  · rw [World.after_state, h] at hx
    cases hx
  · rw [World.after_state, h] at hx
    cases hx

/-- **A commit keeps the table seeded at most once**: the index entry of a user seeded before would
have been committed when this one was inserted. -/
theorem seeded_commit (hi : Seeded init name w) (h : Fit init name t w)
    (hs : s = { w.state with db := w.state.db.commit t }) :
    Seeded init name (w.after t o r s) ∧
      ∀ k x, committedUser w k = some x → committedUser (w.after t o r s) k = some x := by
  subst hs
  have hview : ∀ k, committedUser (w.after t o r { w.state with db := w.state.db.commit t }) k =
      (w.state.db .users).view t k := fun _ => rfl
  have hviewIndex : indexed (w.after t o r { w.state with db := w.state.db.commit t }) name =
      (w.state.db .usersUsernameLower).view t name := rfl
  rcases h with ⟨husers, hindex⟩ | ⟨k, ⟨hempty, ⟨x, hx, hadmin⟩, honly⟩, hname, -⟩
  · have hsame : ∀ k, committedUser (w.after t o r { w.state with db := w.state.db.commit t }) k =
        committedUser w k := fun k => (hview k).trans (view_of_unwritten husers k)
    refine ⟨⟨?_, ?_⟩, ?_⟩
    · intro k x hx
      exact (hsame k).trans (hi.kept k x hx)
    · intro k x hx
      rw [hviewIndex, view_of_unwritten hindex]
      exact hi.seeded k x ((hsame k).symm.trans hx)
    · intro k x hx
      exact (hsame k).trans hx
  · have hnone : indexed w name = none := (Table.mine_eq_some.mp hname).2
    have hnew : committedUser w k = none := (Table.mine_eq_some.mp hx).2
    have hother : ∀ j, j ≠ k → (w.state.db .users).view t j = committedUser w j :=
      fun j hj => Table.view_of_unwritten fun v y hv => hj (honly j v y hv)
    refine ⟨⟨?_, ?_⟩, ?_⟩
    · intro j y hy
      rw [hempty] at hy
      cases hy
    · intro j y hy
      rw [hviewIndex, Table.view_of_mine hname]
      by_cases hj : j = k
      · subst hj
        have hxy : some x = some y := (Table.view_of_mine hx).symm.trans hy
        cases hxy
        exact .inr ⟨hempty, hadmin, rfl⟩
      · -- a user seeded before is the one in the index, which was empty
        have hbefore : committedUser w j = some y := (hother j hj).symm.trans hy
        rcases hi.seeded j y hbefore with hinit | ⟨-, -, hj'⟩
        · rw [hempty] at hinit
          cases hinit
        · rw [hnone] at hj'
          cases hj'
    · intro j y hy
      have hj : j ≠ k := by
        rintro rfl
        rw [hnew] at hy
        cases hy
      exact (hview j).trans ((hother j hj).trans hy)

/-- A System Admin that is seen is committed by a commit. -/
theorem hasSystemAdmin_commit (h : Sees t w) (hi : Seeded init name w) (hfit : Fit init name t w)
    (hs : s = { w.state with db := w.state.db.commit t }) :
    HasSystemAdmin (w.after t o r s) := by
  rcases h with ⟨k, x, hx, hadmin⟩ | ⟨k, x, y, hmine, hadmin⟩
  · exact ⟨k, x, (seeded_commit hi hfit hs).2 k x hx, hadmin⟩
  · subst hs
    exact ⟨k, x, Table.view_of_mine hmine, hadmin⟩

/-! ### An instance -/

/-- What an instance may commit, and has seen. -/
def Ready (init : UserId → Option User) (name : Text) (t : T) (w : BackendWorld T) : Prop :=
  Fit init name t w ∧ Sees t w

theorem safe_commit : (contract hash init name).Safe t Py.commit (Ready init name t)
    (fun _ w => Fit init name t w ∧ Committed t w) fun _ _ => True := by
  refine Contract.Safe.perform (fun _ => kept_fit.stable.and .seen) (fun _ => .const True)
    fun w ch r s hi hw _ h => ?_
  rcases exec_commitAll h with ⟨rfl, e, rfl⟩ | ⟨rfl, rfl⟩
  · rcases aboutCommitted.failed id hi with ⟨hi', hg⟩
    exact ⟨hi', hg, trivial⟩
  · rcases seeded_commit hi.1 hw.1 rfl with ⟨hseeded, hg⟩
    refine ⟨⟨hseeded, fun _ _ => hasSystemAdmin_commit hw.2 hi.1 hw.1 rfl⟩, hg, ?_, ?_⟩
    · exact fit_of_released fun _ _ => Table.mine_commit
    · exact ⟨_, List.mem_cons_self, rfl⟩

/-- The table is empty only if it was. -/
theorem safe_count :
    (contract hash init name).Safe t (Py.select .users fun _ _ => true)
      (Clean t) (fun users w => Clean t w ∧ (users.length = 0 → ∀ j, init j = none))
      fun _ _ => True := by
  refine Contract.Safe.perform (fun users => kept_clean.stable.and (.const _))
    (fun _ => .const True) fun w ch r s hi hw _ h => ?_
  rcases aboutCommitted.uncommitted (q := .select .users fun _ _ => true) nofun id h hi
    with ⟨hi', hg⟩
  rcases exec_selectTable h with ⟨rfl, hr⟩
  refine ⟨hi', hg, ?_⟩
  cases r with
  | error e => trivial
  | ok users =>
    refine ⟨hw, fun hlen j => ?_⟩
    by_contra hj
    rcases Option.ne_none_iff_exists'.mp hj with ⟨x, hx⟩
    have hmem : (j, x) ∈ (w.state.db .users).scan t fun _ _ => true :=
      Table.mem_scan.mpr ⟨(view_of_unwritten hw.1 j).trans (hi.1.kept j x hx), rfl⟩
    have husers := (hr users rfl).mem_iff.mpr hmem
    rw [List.length_eq_zero_iff.mp hlen] at husers
    cases husers

/-- The candidate's row. -/
theorem safe_insertCandidate (hempty : ∀ j, init j = none) {x : Time → User}
    (hx : ∀ ts, isActiveSystemAdmin (x ts) = true) :
    (contract hash init name).Safe t (Py.flushInsert .users k x) (Clean t)
      (fun _ w => Inserted init k ((w.state.db .users).mine t) ∧
        Unwritten .usersUsernameLower t w) fun _ _ => True := by
  refine aboutCommitted.flushInsert id ((Kept.mine (N := fun _ => False) users_mem
    (P := Inserted init k)).and (Chatspace.kept_unwritten index_mem)).stable
    fun w now hw hfree hview => ?_
  rw [view_of_unwritten hw.1] at hview
  refine ⟨⟨hempty, ⟨x now, ?_, hx now⟩, fun j v y hj => ?_⟩, hw.2.set nofun⟩
  · rw [World.after_state, State.set_db, Table.mine_write_self, hview]
  · rw [World.after_state, State.set_db] at hj
    exact (hw.1.mine_write hj).1

/-- Its entry in the index of usernames. -/
theorem safe_insertIndex :
    (contract hash init name).Safe t (Py.flushInsert .usersUsernameLower name fun _ => k)
      (fun w => Inserted init k ((w.state.db .users).mine t) ∧ Unwritten .usersUsernameLower t w)
      (fun _ w => Inserted init k ((w.state.db .users).mine t) ∧
        Indexed name k ((w.state.db .usersUsernameLower).mine t)) fun _ _ => True := by
  refine aboutCommitted.flushInsert id ((Kept.mine (N := fun _ => False) users_mem
    (P := Inserted init k)).and (Kept.mine index_mem (P := Indexed name k))).stable
    fun w now hw hfree hview => ?_
  rw [view_of_unwritten hw.2] at hview
  refine ⟨?_, ?_, fun n v y hn => ?_⟩
  · rw [World.after_state,
      State.set_db_of_ne (show Tbl.users ≠ Tbl.usersUsernameLower from nofun)]
    exact hw.1
  · rw [World.after_state, State.set_db, Table.mine_write_self, hview]
  · rw [World.after_state, State.set_db] at hn
    exact (hw.2.mine_write hn).1

theorem safe_flushCandidate (hempty : ∀ j, init j = none) :
    (contract hash init (env.lower settings.bootstrapAdminUsername)).Safe t
      (flushCandidate env settings k) (Clean t)
      (fun _ => Fit init (env.lower settings.bootstrapAdminUsername) t) fun _ _ => True := by
  unfold flushCandidate
  split
  · exact fun _ _ _ => trivial
  · apply Contract.Safe.bind (safe_insertCandidate hempty fun _ => rfl)
    intro _
    apply Contract.Safe.bind safe_insertIndex
    intro _
    have hkept : Kept (contract (T := T) hash init (env.lower settings.bootstrapAdminUsername))
        watched (fun _ => False) t fun w => Inserted init k ((w.state.db .users).mine t) ∧
          Indexed (env.lower settings.bootstrapAdminUsername) k
            ((w.state.db .usersUsernameLower).mine t) :=
      (Kept.mine users_mem (P := Inserted init k)).and
        (Kept.mine index_mem (P := Indexed (env.lower settings.bootstrapAdminUsername) k))
    apply Contract.Safe.bind (Q := fun _ w => Inserted init k ((w.state.db .users).mine t) ∧
      Indexed (env.lower settings.bootstrapAdminUsername) k
        ((w.state.db .usersUsernameLower).mine t))
    · refine (hkept.only allows ?_).mono (fun w _ hw => hw) (fun _ _ _ hw => hw) fun _ _ _ hw => hw
      exact Prog.Only.bind (Prog.only_perform (quiet_insert (by simp [watched]) id)) fun row => by
        cases row <;> trivial
    · exact fun _ w _ hw => .inr ⟨k, hw⟩

theorem safe_integrityErrorHandler (e : Exc) :
    (contract hash init name).Safe t (integrityErrorHandler e) (fun _ => True)
      (fun _ => Fit init name t) fun _ _ => True := by
  unfold integrityErrorHandler
  split
  · apply Contract.Safe.bind (safe_rollback aboutCommitted id kept_fit.stable
      fun w s _ _ hmine => fit_of_released hmine)
    intro _
    split
    · exact fun _ _ _ => trivial
    · exact fun _ _ hw => hw
  · exact fun _ _ _ => trivial

theorem safe_seed (hempty : ∀ j, init j = none) :
    (contract hash init (env.lower settings.bootstrapAdminUsername)).Safe t (seed env settings)
      (Clean t) (fun _ => Fit init (env.lower settings.bootstrapAdminUsername) t)
      fun _ _ => True := by
  apply Contract.Safe.bind (Q := fun _ => Clean t)
  · refine kept_clean.only allows (Prog.Only.handle ?_ fun e => ?_)
    · unfold Password.enforcePasswordPolicy
      dsimp only
      split <;> trivial
    · cases e <;> trivial
  intro _
  apply Contract.Safe.bind (kept_clean.perform allows (o := .generateId)
    (quiet_other nofun nofun id))
  intro userId
  exact (safe_flushCandidate hempty).handle safe_integrityErrorHandler

theorem safe_activeSystemAdminExists :
    (contract hash init name).Safe t activeSystemAdminExists (Fit init name t)
      (fun found w => Fit init name t w ∧ (found = true → Sees t w)) fun _ _ => True := by
  refine Contract.Safe.await (o := .sql (.select .users fun _ u => isActiveSystemAdmin u))
    (fun (rows : List (UserId × User)) w => Fit init name t w ∧ ((!rows.isEmpty) = true → Sees t w))
    (fun rows => kept_fit.stable.and (.imp fun _ => stable_sees)) (fun _ => .const True)
    (fun w ch r s hi hw _ h => ?_) fun rows => ?_
  case refine_2 => exact fun w _ hw => hw
  rcases aboutCommitted.uncommitted (q := .select .users fun _ u => isActiveSystemAdmin u) nofun
    id h hi with ⟨hi', hg⟩
  rcases exec_selectTable h with ⟨rfl, hr⟩
  refine ⟨hi', hg, ?_⟩
  cases r with
  | error e => trivial
  | ok rows =>
    refine ⟨(kept_fit (K := contract hash init name)).quiet w _ _ _ (quiet_select id)
      ⟨fun _ _ => rfl, rfl⟩ hw, fun hrows => ?_⟩
    have hne : rows ≠ [] := by
      rintro rfl
      exact Bool.false_ne_true hrows
    rcases List.exists_mem_of_ne_nil _ hne with ⟨⟨k, x⟩, hmem⟩
    rcases Table.mem_scan.mp ((hr rows rfl).mem_iff.mp hmem) with ⟨hview, hadmin⟩
    rcases (w.state.db .users).view_cases t k with hv | ⟨v, hhold, hv⟩
    · exact .inl ⟨k, x, hv.symm.trans hview, hadmin⟩
    · have hvx : v = some x := hv.symm.trans hview
      subst hvx
      exact .inr ⟨k, x, _, Table.mine_eq_some.mpr ⟨hhold, rfl⟩, hadmin⟩

/-- **The verification**: the instance goes on only if it sees an active System Admin. -/
theorem safe_verify :
    (contract hash init name).Safe t verify (Fit init name t) (fun _ => Ready init name t)
      fun _ _ => True := by
  apply Contract.Safe.bind safe_activeSystemAdminExists
  intro found
  cases found with
  | false => exact fun _ _ _ => trivial
  | true => exact fun w _ hw => ⟨hw.1, hw.2 rfl⟩

theorem safe_ensure :
    (contract hash init (env.lower settings.bootstrapAdminUsername)).Safe t
      (ensureSystemAdminBootstrapped env settings) (Clean t)
      (fun _ => Ready init (env.lower settings.bootstrapAdminUsername) t) fun _ _ => True := by
  apply Contract.Safe.bind safe_count
  intro users
  split
  · rename_i hlen
    apply Contract.Safe.bind (Q := fun _ => Fit init (env.lower settings.bootstrapAdminUsername) t)
    · exact (Contract.Safe.const safe_seed).weaken fun w _ hw => ⟨hw.1, hw.2 hlen⟩
    · exact fun _ => safe_verify
  · exact safe_verify.weaken fun w _ hw => .inl hw.1

/-- An instance that returns has committed. -/
theorem safe_lifespan :
    (contract hash init (env.lower settings.bootstrapAdminUsername)).Safe t (lifespan env settings)
      (Clean t) (fun _ w => Fit init (env.lower settings.bootstrapAdminUsername) t w ∧
        Committed t w) fun _ _ => True := by
  refine Py.safe_session safe_commit ?_ (safe_abort aboutCommitted id) safe_ensure
  have hstable : (contract (T := T) hash init
      (env.lower settings.bootstrapAdminUsername)).Stable t fun w =>
        Fit init (env.lower settings.bootstrapAdminUsername) t w ∧ Committed t w :=
    kept_fit.stable.and .seen
  refine safe_rollback aboutCommitted id hstable fun w s hw _ hmine => ?_
  rcases hw.2 with ⟨e, he, rfl⟩
  exact ⟨fit_of_released hmine, _, List.mem_cons_of_mem _ he, rfl⟩

/-! ### All instances -/

abbrev InstancePool (T : Type) : Type := Pool T Op Op.Res Exc Unit (State T)

/-- Every instance starts, with the same settings and one database in which nothing is held. -/
structure Start (env : Primitives) (settings : Settings) (p : InstancePool T) : Prop where
  prog : ∀ t, p.prog t = lifespan env settings
  trace : p.world.trace = []
  hold : ∀ τ k, (p.world.state.db τ).hold k = none

theorem Start.sound {p : InstancePool T} (h : Start env settings p)
    (hash : RawToken → TokenHash) :
    (contract hash (committedUser p.world) (env.lower settings.bootstrapAdminUsername)).Sound
      (fun t _ => Committed t) (fun _ _ _ => True) p where
  inv := by
    refine ⟨⟨fun k x hx => hx, fun k x hx => .inl hx⟩, fun t ht => ?_⟩
    rcases ht with ⟨e, he, -⟩
    rw [h.trace] at he
    cases he
  safe t := by
    have hmine : ∀ τ k, (p.world.state.db τ).mine t k = none := by
      intro τ k
      rw [Table.mine_eq_none]
      rintro ⟨q, hq⟩
      rw [h.hold] at hq
      cases hq
    refine ⟨Clean t, kept_clean.stable, ⟨fun k v x hx => ?_, fun k v x hx => ?_⟩, ?_⟩
    · rw [hmine] at hx
      cases hx
    · rw [hmine] at hx
      cases hx
    · rw [h.prog t]
      exact safe_lifespan.mono (fun _ _ hw => hw) (fun _ _ _ hw => hw.2) fun _ _ _ _ => trivial

/-- A program that is over has returned or raised. -/
theorem ended {α : Type} {p : Py α} (h : p.next = none) : (∃ a, p = .ret a) ∨ ∃ e, p = .raise e := by
  cases p with
  | ret a => exact .inl ⟨a, rfl⟩
  | raise e => exact .inr ⟨e, rfl⟩
  | call o k => cases h

/-- **Bootstrap.** However the instances interleave and whatever fails: at most one user is seeded; a
table that had users is untouched; while an instance has committed there is an active System Admin;
and an instance that has ended without committing has raised. -/
theorem bootstrap_once {p q : InstancePool T} {ls : List (Label T Choice Tick)}
    (h : Start env settings p) (hrun : (machine T hash).run p ls = some q) :
    (∀ k k' x x', committedUser q.world k = some x → committedUser q.world k' = some x' →
      committedUser p.world k = none → committedUser p.world k' = none → k = k') ∧
    ((∃ k, committedUser p.world k ≠ none) →
      ∀ k, committedUser q.world k = committedUser p.world k) ∧
    (∀ t, Committed t q.world → HasSystemAdmin q.world) ∧
    ∀ t, (q.prog t).next = none → Committed t q.world ∨ ∃ e, q.prog t = .raise e := by
  have hsound := (h.sound hash).run (fun e w s hi _ hx => by
      cases hx
      exact ⟨⟨hi.1.kept, hi.1.seeded⟩, hi.2⟩)
    (Machine.meets_always ls) hrun
  rcases hsound.inv with ⟨hseeded, hadmin⟩
  refine ⟨fun k k' x x' hx hx' hk hk' => ?_, fun hused k => ?_, hadmin, fun t ht => ?_⟩
  · rcases hseeded.seeded k x hx with hinit | ⟨-, -, hindex⟩
    · rw [hk] at hinit
      cases hinit
    rcases hseeded.seeded k' x' hx' with hinit | ⟨-, -, hindex'⟩
    · rw [hk'] at hinit
      cases hinit
    exact Option.some.inj (hindex.symm.trans hindex')
  · rcases hused with ⟨j, hj⟩
    cases hk : committedUser q.world k with
    | none =>
      cases hp : committedUser p.world k with
      | none => rfl
      | some x =>
        rw [hseeded.kept k x hp] at hk
        cases hk
    | some x =>
      rcases hseeded.seeded k x hk with hinit | ⟨hempty, -, -⟩
      · exact hinit.symm
      · exact absurd (hempty j) hj
  · rcases ended ht with ⟨a, ha⟩ | ⟨e, he⟩
    · exact .inl (hsound.ret ha)
    · exact .inr ⟨e, he⟩

/-- An empty database, and an admin's name and password. -/
def twoInstances : InstancePool Bool where
  world := ⟨State.ofRows fun _ => [], []⟩
  prog _ := lifespan plainEnv ⟨"passw0rd-long-enough".toList, ['r'], ['r', '@'], ['f'], ['l']⟩

theorem twoInstances_start : Start plainEnv
    ⟨"passw0rd-long-enough".toList, ['r'], ['r', '@'], ['f'], ['l']⟩ twoInstances :=
  ⟨fun _ => rfl, rfl, fun _ _ => rfl⟩

/-- `k` awaits of instance `t`, with this id. -/
def awaits (t : Bool) (k n : ℕ) : List (Label Bool Choice Tick) :=
  List.replicate k (.proc t (.ok [] n))

/-- The second instance has counted no users and inserted its candidate when the first one commits;
it is told of the conflict, finds the other's System Admin, and commits nothing. -/
theorem bootstrap_once_race :
    ∃ q, (machine Bool id).run twoInstances
        (awaits true 3 8 ++ awaits false 8 7 ++ awaits true 5 8) = some q ∧
      (committedUser q.world 7).isSome ∧ committedUser q.world 8 = none ∧
      (q.prog true).next = none ∧ Committed true q.world ∧ HasSystemAdmin q.world := by
  rcases Option.isSome_iff_exists.mp (show ((machine Bool id).run twoInstances
    (awaits true 3 8 ++ awaits false 8 7 ++ awaits true 5 8)).isSome from by decide +kernel)
    with ⟨q, hq⟩
  have hend : ((machine Bool id).run twoInstances
      (awaits true 3 8 ++ awaits false 8 7 ++ awaits true 5 8)).all (fun q =>
        (committedUser q.world 7).isSome && (committedUser q.world 8).isNone &&
          (q.prog true).next.isNone && (q.prog true).value.isSome) = true := by decide +kernel
  rw [hq, Option.all_some] at hend
  simp only [Bool.and_eq_true, Option.isNone_iff_eq_none] at hend
  rcases hend with ⟨⟨⟨h7, h8⟩, hnext⟩, hret⟩
  rcases bootstrap_once twoInstances_start hq with ⟨-, -, hadmin, hended⟩
  have hcommitted : Committed true q.world := by
    rcases hended true hnext with hc | ⟨e, he⟩
    · exact hc
    · rw [he] at hret
      cases hret
  exact ⟨q, hq, h7, h8, hnext, hcommitted, hadmin true hcommitted⟩

end Chatspace.Bootstrap
