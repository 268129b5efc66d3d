import Chatspace.Interleave.WaitFor
import Chatspace.Services.LockOrderSuccession

/-!
# The order in which rows are locked: the requests

* `safe_task` — every request asks for what comes after all it holds;
* `lock_order` — **no transactions wait for one another in a cycle**, in every run whose queries keep
  to one order;
* `deadlock` — two deactivations lock the admins of two channels in opposite orders, a removal locks
  the admins of its channel twice, a deactivation writes a system admin whom it has not locked.
-/

namespace Chatspace.LockOrder

open Interleave Store Channels AdminUsers Sessions
open AdminLocks (Admin membership Clean view_of_clean)

variable {T : Type} [DecidableEq T] {hash : RawToken → TokenHash} {task : T → Task}
  {pos : ChannelId → ℕ} {t t' : T} {w w' : BackendWorld T} {c : ChannelId} {u x : UserId}
  {s : State T} {o : Op} {r : Except Exc o.Res}

variable {K : Contract (machine T hash)} {A : BackendWorld T → Prop}

/-! ### The end of a membership -/

/-- The transaction holds no user and no membership. -/
def Idle (t : T) (w : BackendWorld T) : Prop :=
  (∀ u, ¬ (w.state.db .users).Holds t u) ∧ NoMembers t w

theorem stable_idle : K.Stable t (Idle t) :=
  fun w w' hi hi' ho h => ⟨fun u hu => h.1 u ((other_keeps ho .users).holds.mpr hu),
    stable_noMembers w w' hi hi' ho h.2⟩

omit [DecidableEq T] in
theorem holdsAdmins_of_idle (h : Idle t w) : HoldsAdmins t w where
  users u hu := absurd hu (h.1 u)
  members k hk := absurd hk (h.2 k)
  usersClean u _ hv := h.1 u ⟨_, hv⟩
  clean k _ hv := h.2 k ⟨_, hv⟩

omit [DecidableEq T] in
theorem fit_of_holdsAdmins (h : HoldsAdmins t w) : Fit t w := fit_of_clean h.usersClean h.clean

/-- The membership may be deleted without waiting out of order: nobody else holds it, it is not an
admin's and the channel is owned, or nothing is held. -/
def Departing (t : T) (c : ChannelId) (u : UserId) (w : BackendWorld T) : Prop :=
  Reserved t c u w ∨ ((Owns t c w ∧ ¬ Admin w c u) ∧ HoldsAdmins t w) ∨ Idle t w

omit [DecidableEq T] in
theorem Departing.inOrder (h : Departing t c u w) (pos : ChannelId → ℕ) (hi : Inv w) :
    InOrder pos t (.sql (.delete .channelMembers (c, u))) w := by
  intro y t' hy hholder hne z hz
  cases hy
  have hother := holder_membership.mp hholder
  obtain hreserved | ⟨⟨-, hnot⟩, hholds⟩ | hidle := h
  · cases hreserved with
    | inl hnone => exact absurd hnone (hi.membership_of_holds hother)
    | inr hheld => exact absurd hheld (not_holds_of_other hother hne)
  · rw [rank_notAdmin hnot]
    cases z with
    | user v =>
      rw [rank_sysAdmin (hholds.users v (holder_user.mp hz))]
      simp [Prod.Lex.toLex_lt_toLex]
    | membership c' v =>
      rw [rank_admin (hholds.members _ (holder_membership.mp hz))]
      simp [Prod.Lex.toLex_lt_toLex]
  · cases z with
    | user v => exact absurd (holder_user.mp hz) (hidle.1 v)
    | membership c' v => exact absurd (holder_membership.mp hz) (hidle.2 _)

theorem safe_flushDelete :
    (contract hash task pos).Safe t (Py.flushDelete .channelMembers (c, u))
      (fun w => Fit t w ∧ Departing t c u w) (fun _ => Fit t) fun _ _ => True := by
  refine Contract.Safe.await (fun _ => Fit t) (fun _ => stable_fit) (fun _ => .const True)
    (fun w ch r s hi hw _ h => ?_) fun _ _ _ hw => hw
  have hforward : Forward t w s :=
    forward_of_exec (o := .sql (.delete .channelMembers (c, u))) ⟨nofun, nofun⟩ h
  have horder := hw.2.inOrder pos hi
  obtain ⟨rfl, hr⟩ | ⟨m, -, hm, rfl, rfl⟩ := exec_deleteTable h
  · refine ⟨hi.after hforward.step hi.present (fun c rows he => by cases he),
      ⟨hforward.step, horder⟩, ?_⟩
    cases r with
    | error e => trivial
    | ok a => exact hw.1.aside rfl rfl
  · exact ⟨hi.write (hi.membership_of_view hm) hforward nofun, ⟨hforward.step, horder⟩,
      hw.1.write hforward nofun⟩

/-- The role that was read decides how the membership ends. -/
theorem safe_departMember {m : ChannelMember} :
    (contract hash task pos).Safe t (departMember c u m)
      (fun w => (HoldsAdmins t w ∧ Reached pos t c w) ∧
        (m.role = .admin → Admin w c u ∨ membership w c u = none) ∧
          (m.role ≠ .admin → (Owns t c w ∧ ¬ Admin w c u) ∨ Idle t w))
      (fun _ => Fit t) fun _ _ => True := by
  show (contract hash task pos).Safe t (if _ then _ else _) _ _ _
  split
  · rename_i hrole
    refine Contract.Safe.bind (safe_succession_one.weaken fun w _ hw => ⟨hw.1, hw.2.1 hrole⟩)
      fun _ => ?_
    exact safe_flushDelete.weaken fun w _ hw => ⟨hw.1.fit, .inl hw.2⟩
  · rename_i hrole
    refine safe_flushDelete.weaken fun w _ hw => ⟨fit_of_holdsAdmins hw.1.1, .inr ?_⟩
    exact (hw.2.2 hrole).imp_left fun hnot => ⟨hnot, hw.1.1⟩

/-! ### Commits -/

/-- **Whoever commits makes admins only in channels that it owns.** -/
theorem step_commit (hi : Inv w) (h : Fit t w) :
    Step t w (w.after t (.sql .commit) (.ok ()) { w.state with db := w.state.db.commit t }) where
  gone c u hnone := by
    have hfree := hi.present c u hnone
    exact (Table.view_of_none hfree).trans hnone
  lasts c u ha := by
    obtain hv | ⟨v, hhold, hv⟩ := (w.state.db .channelMembers).view_cases t (c, u)
    · obtain ⟨m, hm, hrole⟩ := ha
      exact .inl ⟨m, hv.trans hm, hrole⟩
    · cases v with
      | none => exact .inr hv
      | some m => exact .inl ⟨m, hv, (h.members (c, u) m hhold).1⟩
  made c u ha := by
    obtain ⟨m, hm, hrole⟩ := ha
    obtain hv | ⟨v, hhold, hv⟩ := (w.state.db .channelMembers).view_cases t (c, u)
    · exact .inl ⟨m, hv.symm.trans hm, hrole⟩
    · obtain rfl : v = some m := hv.symm.trans hm
      exact .inr (h.members (c, u) m hhold).2
  flags u := by
    show ((w.state.db .users).view t u).any User.isSystemAdmin = _
    obtain hv | ⟨v, hhold, hv⟩ := (w.state.db .users).view_cases t u
    · rw [hv]
      rfl
    · rw [hv]
      exact h.users u v hhold

/-- The end of a transaction releases what it holds. -/
theorem idle_release {s : State T}
    (h : ∀ τ : Tbl, (s.db τ).hold = (w.state.db τ).release t) : Idle t (w.after t o r s) :=
  ⟨fun _ => Table.not_holds_release (h .users), fun _ => Table.not_holds_release (h .channelMembers)⟩

theorem safe_commit :
    (contract hash task pos).Safe t Py.commit (Fit t) (fun _ => Idle t) fun _ _ => True := by
  refine Contract.Safe.perform (fun _ => stable_idle) (fun _ => .const True)
    fun w ch r s hi hw _ h => ?_
  obtain ⟨rfl, e, rfl⟩ | ⟨rfl, rfl⟩ := exec_commitAll h
  · have hstep : Step t w (w.after t (.sql .commit) (.error e) w.state) :=
      (Forward.of_eq rfl rfl).step
    exact ⟨hi.after hstep hi.present (fun c rows he => by cases he), ⟨hstep, inOrder_of_none rfl⟩,
      trivial⟩
  · have hstep := step_commit hi hw
    refine ⟨hi.after hstep (fun c u hnone => ?_) (fun c rows he => by cases he),
      ⟨hstep, inOrder_of_none rfl⟩, idle_release fun _ => rfl⟩
    by_cases hheld : (w.state.db .channelMembers).Holds t (c, u)
    · exact Table.release_of_holds hheld
    · have hview : (w.state.db .channelMembers).view t (c, u) = none := hnone
      rw [Table.view_of_not_holds hheld] at hview
      exact Table.release_of_none (hi.present c u hview)

theorem safe_rollback :
    (contract hash task pos).Safe t Py.rollback A (fun _ => Idle t) fun _ _ => True := by
  refine Contract.Safe.perform (fun _ => stable_idle) (fun _ => .const True)
    fun w ch r s hi hw _ h => ?_
  obtain ⟨rfl, e, rfl⟩ | ⟨rfl, rfl⟩ := exec_rollbackAll h
  · have hstep : Step t w (w.after t (.sql .rollback) (.error e) w.state) :=
      (Forward.of_eq rfl rfl).step
    exact ⟨hi.after hstep hi.present (fun c rows he => by cases he), ⟨hstep, inOrder_of_none rfl⟩,
      trivial⟩
  · have hstep : Step t w (w.after t (.sql .rollback) (.ok ())
        { w.state with db := w.state.db.rollback t }) :=
      ⟨fun _ _ h => h, fun _ _ h => .inl h, fun _ _ h => .inl h, fun _ => rfl⟩
    refine ⟨hi.after hstep (fun c u hnone => ?_) (fun c rows he => by cases he),
      ⟨hstep, inOrder_of_none rfl⟩, idle_release fun _ => rfl⟩
    exact Table.release_of_none (hi.present c u hnone)

theorem safe_request {α : Type} {body : Py α}
    (h : (contract hash task pos).Safe t body A (fun _ => Fit t) fun _ _ => True) :
    (contract hash task pos).Safe t (Py.getDbSession body) A (fun _ _ => True) fun _ _ => True :=
  Chatspace.safe_request safe_commit safe_rollback
    (safe_rollback.mono (fun _ _ hw => hw) (fun _ _ _ _ => trivial) fun _ _ _ hw => hw) h

/-! ### Locking the system admins -/

/-- The system admins are locked in order: `ks` are still to come, or `u` is held. -/
structure LockingUsers (t : T) (u : UserId) (ks : List UserId) (w : BackendWorld T) : Prop where
  members : NoMembers t w
  clean : UsersClean t w
  held : ∀ v, (w.state.db .users).Holds t v → sysAdmin w v = true ∧ ∀ j ∈ ks, v < j
  flags : ∀ j ∈ ks, sysAdmin w j = true
  target : u ∈ ks ∨ (w.state.db .users).Holds t u

theorem stable_lockingUsers {ks : List UserId} :
    (contract hash task pos).Stable t (LockingUsers t u ks) := by
  intro w w' hi hi' ho h
  have hholds : ∀ v, (w'.state.db .users).Holds t v ↔ (w.state.db .users).Holds t v :=
    fun v => (other_keeps ho .users).holds.symm
  have hflags := (others ho).flags
  refine ⟨stable_noMembers w w' hi hi' ho h.members, stable_usersClean w w' hi hi' ho h.clean,
    fun v hv => ?_, fun j hj => (hflags j).trans (h.flags j hj), h.target.imp_right (hholds u).mpr⟩
  rw [hflags v]
  exact h.held v ((hholds v).mp hv)

omit [DecidableEq T] in
theorem LockingUsers.inOrder {k : UserId} {ks : List UserId} (h : LockingUsers t u (k :: ks) w)
    (pos : ChannelId → ℕ) {p : User → Bool} : InOrder pos t (.sql (.lock .users k p)) w := by
  intro y t' hy _ _ z hz
  cases hy
  rw [rank_sysAdmin (h.flags k List.mem_cons_self)]
  cases z with
  | user v =>
    obtain ⟨hadmin, hlt⟩ := h.held v (holder_user.mp hz)
    rw [rank_sysAdmin hadmin]
    simpa [Prod.Lex.toLex_lt_toLex] using hlt k List.mem_cons_self
  | membership c v => exact absurd (holder_membership.mp hz) (h.members _)

omit [DecidableEq T] in
/-- A system admin is locked. -/
theorem LockingUsers.lock {k : UserId} {ks : List UserId} (h : LockingUsers t u (k :: ks) w)
    (hfree : (w.state.db .users).Free t k) (hks : ∀ j ∈ ks, k < j)
    (hforward : Forward t w (w.state.set .users ((w.state.db .users).lock t k))) :
    LockingUsers t u ks (w.after t o r
      (w.state.set .users ((w.state.db .users).lock t k))) := by
  have hholds : ∀ j, ((w.state.set .users ((w.state.db .users).lock t k)).db .users).Holds t j ↔
      j = k ∨ (w.state.db .users).Holds t j := by
    intro j
    rw [State.set_db]
    exact Table.holds_lock
  refine ⟨h.members, fun v x hv => ?_, fun v hv => ?_, fun j hj => ?_, ?_⟩
  · rw [World.after_state, State.set_db] at hv
    by_cases hvk : v = k
    · subst hvk
      rw [Table.lock, Table.hold_put_self] at hv
      simp only [Option.some.injEq, Hold.mk.injEq, true_and] at hv
      obtain ⟨h₀, hh₀, hp⟩ := Option.bind_eq_some_iff.mp hv
      have howner : h₀.owner = t := hfree h₀ hh₀
      exact h.clean v x (by rw [hh₀, ← howner, ← hp])
    · rw [Table.hold_lock_of_ne hvk] at hv
      exact h.clean v x hv
  · rw [hforward.sysAdmin]
    cases (hholds v).mp hv with
    | inl he => exact he ▸ ⟨h.flags k List.mem_cons_self, hks⟩
    | inr hv =>
      exact (h.held v hv).imp_right fun hlt j hj => hlt j (List.mem_cons_of_mem _ hj)
  · exact hforward.sysAdmin.trans (h.flags j (List.mem_cons_of_mem _ hj))
  · cases h.target with
    | inl hmem => exact (List.mem_cons.mp hmem).symm.imp_right fun he => (hholds u).mpr (.inl he)
    | inr hheld => exact .inr ((hholds u).mpr (.inr hheld))

theorem safe_lockUser {k : UserId} {ks : List UserId} (hks : ∀ j ∈ ks, k < j) {p : User → Bool} :
    (contract hash task pos).Safe t ((Py.sql (.lock .users k p)).bind
        fun x => .ret (x.map fun v => (k, v)))
      (LockingUsers t u (k :: ks)) (fun _ => LockingUsers t u ks) fun _ _ => True := by
  refine Contract.Safe.await (fun _ => LockingUsers t u ks) (fun _ => stable_lockingUsers)
    (fun _ => .const True) (fun w ch r s hi hw _ h => ?_) fun _ _ _ hw => hw
  have hforward : Forward t w s :=
    forward_of_exec (o := .sql (.lock .users k p)) ⟨nofun, nofun⟩ h
  have horder := hw.inOrder pos (p := p)
  have hflag := hw.flags k List.mem_cons_self
  obtain ⟨rfl, hr⟩ | ⟨x, hfree, -, rfl, rfl⟩ := exec_lockTable h
  · refine ⟨hi.after hforward.step hi.present (fun c rows he => by cases he),
      ⟨hforward.step, horder⟩, ?_⟩
    cases r with
    | error e => trivial
    | ok a =>
      -- a system admin is there
      have hview := (hr a rfl).2
      obtain hv | ⟨v, hhold, -⟩ := (w.state.db .users).view_cases t k
      · rw [sysAdmin, ← hv, hview] at hflag
        cases hflag
      · exact absurd hhold (hw.clean k v)
  · refine ⟨hi.after hforward.step hi.present (fun c rows he => by cases he),
      ⟨hforward.step, horder⟩, hw.lock hfree hks hforward⟩

/-- The order in which they are locked. -/
theorem pairwise_ids {ids : List UserId} (hnodup : ids.Nodup) :
    (ids.insertionSort fun j k => decide (j ≤ k) = true).Pairwise fun j k => j < k := by
  have htotal : Std.Total fun j k : UserId => decide (j ≤ k) = true :=
    ⟨fun j k => by simpa using Nat.le_total j k⟩
  have htrans : IsTrans UserId fun j k => decide (j ≤ k) = true :=
    ⟨fun i j k => by simpa using Nat.le_trans⟩
  have hle := List.pairwise_insertionSort (fun j k : UserId => decide (j ≤ k) = true) ids
  have hne := (List.perm_insertionSort (fun j k : UserId => decide (j ≤ k) = true) ids).nodup_iff.mpr
    hnodup
  exact (hle.and hne).imp fun ⟨hjk, hne⟩ => lt_of_le_of_ne (of_decide_eq_true hjk) hne

/-- **The active system admins are locked in order**, and the target is among them. -/
theorem safe_lockAndCount (ht : (task t).target = some u) :
    (contract hash task pos).Safe t lockAndCountActiveSystemAdmins
      (fun w => Idle t w ∧ sysAdmin w u = true)
      (fun _ w => (HoldsAdmins t w ∧ NoMembers t w) ∧ (w.state.db .users).Holds t u)
      fun _ _ => True := by
  refine Contract.Safe.bind (Q := fun _ w => (HoldsAdmins t w ∧ NoMembers t w) ∧
    (w.state.db .users).Holds t u) ?_ fun _ _ _ hw => hw
  refine Contract.Safe.await (fun rows w => LockingUsers t u
      ((rows.map Prod.fst).insertionSort fun j k => decide (j ≤ k) = true) w ∧
        (rows.map Prod.fst).Nodup) (fun _ => stable_lockingUsers.and (.const _))
    (fun _ => .const True) (fun w ch r s hi hw hp h => ?_) fun rows => ?_
  · obtain ⟨-, -, hi', hstep, horder⟩ := quiet_step pos
      (o := .sql (.select .users fun _ x => x.isSystemAdmin && x.isActive)) nofun hi h
    obtain ⟨rfl, hperm⟩ := exec_selectTable h
    refine ⟨hi', ⟨hstep, horder⟩, ?_⟩
    cases r with
    | error e => trivial
    | ok rows =>
      obtain ⟨hidle, hflag⟩ := hw
      have hclean : UsersClean t w := fun v x hv => hidle.1 v ⟨_, hv⟩
      have hview : ∀ v, (w.state.db .users).view t v = (w.state.db .users).committed v :=
        fun v => Table.view_of_not_holds (hidle.1 v)
      have hmem : ∀ v x, (v, x) ∈ rows ↔ (w.state.db .users).committed v = some x ∧
          (x.isSystemAdmin && x.isActive) = true := by
        intro v x
        rw [(hperm rows rfl).mem_iff, Table.mem_scan, hview]
      refine ⟨⟨hidle.2, hclean, fun v hv => absurd hv (hidle.1 v), fun j hj => ?_, .inl ?_⟩,
        ((hperm rows rfl).map Prod.fst).nodup_iff.mpr (Table.nodup_scan _)⟩
      · rw [List.mem_insertionSort] at hj
        obtain ⟨⟨v, x⟩, hx, rfl⟩ := List.mem_map.mp hj
        obtain ⟨hv, hq⟩ := (hmem v x).mp hx
        rw [Bool.and_eq_true] at hq
        show ((w.state.db .users).committed v).any User.isSystemAdmin = true
        rw [hv]
        exact hq.1
      · obtain ⟨x, hx, hadmin⟩ := (Option.any_eq_true _ _).mp hflag
        have hactive : x.isActive = true := hp.2 rfl u ht x hx hadmin
        rw [List.mem_insertionSort]
        exact List.mem_map.mpr ⟨(u, x), (hmem u x).mpr ⟨hx, by simp [hadmin, hactive]⟩, rfl⟩
  · refine Contract.Safe.const fun hnodup => ?_
    refine Contract.Safe.bind ((Contract.Safe.forEach (I := fun ks
      (_ : List (Option (UserId × User))) w => LockingUsers t u ks w ∧ ks.Pairwise fun j k => j < k)
      (fun k ks bs => ?_) _ []).weaken fun _ _ hw => ⟨hw, pairwise_ids hnodup⟩) fun bs w _ hw => ?_
    · refine Contract.Safe.const fun hpairwise => ?_
      obtain ⟨hk, hks⟩ := List.pairwise_cons.mp hpairwise
      exact (safe_lockUser hk).mono (fun _ _ hw => hw) (fun _ _ _ hw => ⟨hw, hks⟩)
        fun _ _ _ hw => hw
    · have hlocked := hw.1
      refine ⟨⟨⟨fun v hv => (hlocked.held v hv).1, fun k hk => absurd hk (hlocked.members k),
        hlocked.clean, fun k v hv => hlocked.members k ⟨_, hv⟩⟩, hlocked.members⟩, ?_⟩
      exact hlocked.target.resolve_left List.not_mem_nil

/-! ### The requests -/

/-- The target is no system admin, or is held. -/
def Target (t : T) (u : UserId) (w : BackendWorld T) : Prop :=
  sysAdmin w u = false ∨ (w.state.db .users).Holds t u

theorem carried_target : Carried (contract hash task pos) t (Target t u) where
  stable _ _ _ _ ho h :=
    h.imp ((others ho).flags u).trans (other_keeps ho .users).holds.mp
  forward _ _ _ _ hf h := h.imp hf.sysAdmin.trans (hf.holdsUser u)

omit [DecidableEq T] in
theorem Target.inOrder (h : Target t u w) (pos : ChannelId → ℕ) (hw : Settled t w)
    {p : User → Bool} {f : User → User} : InOrder pos t (.sql (.update .users u p f)) w := by
  intro y t' hy hholder hne z hz
  cases hy
  have hflag : sysAdmin w u = false := by
    refine h.resolve_right fun ⟨p, hp⟩ => ?_
    obtain ⟨p', hp'⟩ := holder_user.mp hholder
    cases hp.symm.trans hp'
    exact hne rfl
  have hlast : rank pos w (.user u) = toLex (3, toLex (u, 0)) := by
    rw [rank, hflag]
    rfl
  rw [hlast]
  cases z with
  | user v =>
    rw [rank_sysAdmin (hw.users v (holder_user.mp hz))]
    simp [Prod.Lex.toLex_lt_toLex]
  | membership c v =>
    by_cases ha : Admin w c v
    · rw [rank_admin ha]
      simp [Prod.Lex.toLex_lt_toLex]
    · rw [rank_notAdmin ha]
      simp [Prod.Lex.toLex_lt_toLex]

/-- The flag of the target: nobody else holds it, or it comes last. -/
theorem safe_setActive :
    (contract hash task pos).Safe t (Py.flushUpdate .users u (setActive false))
      (fun w => Settled t w ∧ Target t u w) (fun _ => Fit t) fun _ _ => True := by
  refine Contract.Safe.await (fun matched w => matched = true → Fit t w)
    (fun _ => .imp fun _ => stable_fit) (fun _ => .const True)
    (fun w ch r s hi hw _ h => ?_) fun matched => ?_
  · have hforward : Forward t w s := forward_of_exec
      (o := .sql (.update .users u (fun _ => true) (setActive false))) ⟨nofun, nofun⟩ h
    have horder := hw.2.inOrder pos hw.1 (p := fun _ => true) (f := setActive false)
    obtain ⟨rfl, hr⟩ | ⟨x, -, hx, -, rfl, rfl⟩ := exec_updateTable h
    · refine ⟨hi.after hforward.step hi.present (fun c rows he => by cases he),
        ⟨hforward.step, horder⟩, ?_⟩
      cases r with
      | error e => trivial
      | ok a => exact fun ha => absurd (ha ▸ rfl) hr
    · refine ⟨hi.after hforward.step hi.present (fun c rows he => by cases he),
        ⟨hforward.step, horder⟩, fun _ => ⟨fun v y hv => ?_, fun k m hm => ?_⟩⟩
      · rw [World.after_state, State.set_db] at hv
        by_cases hvu : v = u
        · subst hvu
          rw [Table.hold_write_self] at hv
          cases hv
          obtain hview | ⟨y, hhold, -⟩ := (w.state.db .users).view_cases t v
          · rw [hforward.sysAdmin, sysAdmin, ← hview, hx]
            rfl
          · exact absurd hhold (hw.1.usersClean v y)
        · rw [Table.hold_write_of_ne hvu] at hv
          exact absurd hv (hw.1.usersClean v y)
      · exact (hw.1.fit.members k m hm).imp_right fun howns => howns.forward hforward
  · cases matched with
    | true => exact fun _ _ hw => hw rfl
    | false => exact fun _ _ _ => trivial

theorem quiet_flushUpdate {τ : Tbl} (hτ : τ ≠ .users ∧ τ ≠ .channelMembers) {k : τ.Key}
    {f : τ.Row → τ.Row} : (Py.flushUpdate τ k f).Only Quiet :=
  Py.only_flushUpdate (P := Quiet) hτ

theorem quiet_revokeSessions : (revokeSessionsForUser u none (.ret ()) (.ret ())).Only Quiet :=
  only_revokeSessionsForUser trivial (fun _ => nofun) (fun _ _ => ⟨nofun, nofun⟩) trivial
    trivial

theorem quiet_invalidate {sessionId : SessionId} : (invalidateSessionCache sessionId).Only Quiet := by
  refine (Prog.only_perform trivial).handle fun e => ?_
  split <;> trivial

theorem quiet_publish {event : Event} {topic : Topic} :
    (publishChannelEvent event topic).Only Quiet :=
  (Prog.only_perform trivial).handle fun e => by split <;> trivial

theorem going_succession {channelId : Option ChannelId} :
    (runSoleAdminSuccession u channelId).Only Going :=
  only_runSoleAdminSuccession (fun _ => ⟨nofun, nofun⟩) (fun _ _ => ⟨nofun, nofun⟩)
    (fun _ => ⟨nofun, nofun⟩) u channelId

theorem safe_deactivate :
    (contract hash task pos).Safe t (deactivate u)
      (fun w => (HoldsAdmins t w ∧ NoMembers t w) ∧ Target t u w) (fun _ => Fit t)
      fun _ _ => True := by
  refine Contract.Safe.bind (carried_target.frame going_succession safe_succession_all)
    fun promoted => ?_
  refine Contract.Safe.bind safe_setActive fun _ => ?_
  exact Contract.Safe.bind (kept_fit.only quiet_revokeSessions) fun _ _ _ hw => hw

/-- Whether the target is a system admin never changes. -/
theorem safe_getUser :
    (contract hash task pos).Safe t (getUserOr404 u) (Idle t)
      (fun x w => Idle t w ∧ sysAdmin w u = x.isSystemAdmin) fun _ _ => True := by
  have hstable : ∀ b : Bool, (contract hash task pos).Stable t fun w => sysAdmin w u = b :=
    fun _ _ _ _ _ ho h => ((others ho).flags u).trans h
  refine Contract.Safe.await (fun found w => ∀ x, found = some x →
    Idle t w ∧ sysAdmin w u = x.isSystemAdmin)
    (fun _ => .forall fun x => .imp fun _ => stable_idle.and (hstable _)) (fun _ => .const True)
    (fun w ch r s hi hw _ h => ?_) fun found => ?_
  · obtain ⟨-, -, hi', hstep, horder⟩ := quiet_step pos (o := .sql (.get .users u))
      trivial hi h
    obtain ⟨rfl, hr⟩ := exec_getTable h
    refine ⟨hi', ⟨hstep, horder⟩, ?_⟩
    cases r with
    | error e => trivial
    | ok found =>
      rintro x rfl
      refine ⟨hw, ?_⟩
      have hview := hr (some x) rfl
      rw [Table.view_of_not_holds (hw.1 u)] at hview
      show ((w.state.db .users).committed u).any User.isSystemAdmin = x.isSystemAdmin
      rw [← hview]
      rfl
  · cases found with
    | none => exact fun _ _ _ => trivial
    | some x => exact fun w _ hw => hw x rfl

theorem safe_deactivateUser (ht : (task t).target = some u) {x : User} :
    (contract hash task pos).Safe t (deactivateUser u x)
      (fun w => Idle t w ∧ sysAdmin w u = x.isSystemAdmin) (fun _ => Fit t) fun _ _ => True := by
  show (contract hash task pos).Safe t (if _ then _ else (if _ then _ else _)) _ _ _
  split
  · exact fun _ _ hw => fit_of_holdsAdmins (holdsAdmins_of_idle hw.1)
  split
  · rename_i hadmin
    refine Contract.Safe.bind ((safe_lockAndCount ht).weaken
      fun w _ hw => ⟨hw.1, hw.2.trans hadmin⟩) fun n => ?_
    show (contract hash task pos).Safe t (if _ then _ else _) _ _ _
    split
    · exact fun _ _ hw => fit_of_holdsAdmins hw.1.1
    · exact safe_deactivate.weaken fun _ _ hw => ⟨hw.1, .inr hw.2⟩
  · rename_i hadmin
    refine safe_deactivate.weaken fun w _ hw => ⟨⟨holdsAdmins_of_idle hw.1, hw.1.2⟩, .inl ?_⟩
    rw [hw.2]
    simpa using hadmin

omit [DecidableEq T] in
theorem fit_of_idle (h : Idle t w) : Fit t w := fit_of_holdsAdmins (holdsAdmins_of_idle h)

theorem kept_idle : Kept (contract hash task pos) t (Idle t) :=
  ⟨stable_idle, fun _ _ _ _ husers hmembers h =>
    ⟨fun u hu => h.1 u (husers ▸ hu), fun k hk => h.2 k (hmembers ▸ hk)⟩⟩

theorem safe_deactivateRoute (ht : (task t).target = some u) :
    (contract hash task pos).Safe t (deactivateUserRoute u) (Idle t) (fun _ _ => True)
      fun _ _ => True := by
  refine safe_request (Contract.Safe.bind safe_getUser fun x => ?_)
  refine Contract.Safe.bind (safe_deactivateUser ht) fun result => ?_
  cases result with
  | lastActiveSystemAdmin => exact Contract.Safe.bind safe_rollback fun _ _ _ _ => trivial
  | alreadyInactive => exact Contract.Safe.bind safe_commit fun _ _ _ hw => fit_of_idle hw
  | deactivated revoked promoted =>
    refine Contract.Safe.bind safe_commit fun _ => ?_
    exact Contract.Safe.bind (kept_idle.only (Prog.only_forEach _ fun _ => quiet_invalidate))
      fun _ _ _ hw => fit_of_idle hw

theorem kept_holding :
    Kept (contract hash task pos) t fun w => HoldsAdmins t w ∧ Reached pos t c w :=
  kept_holdsAdmins.and ⟨stable_reached, fun _ _ _ _ _ hmembers h k hk => h k (hmembers ▸ hk)⟩

theorem kept_owns : Kept (contract hash task pos) t (Owns t c) :=
  ⟨stable_owns, fun _ _ _ _ husers hmembers h => h.forward (.of_eq husers hmembers)⟩

/-- What the role that is read says of the membership, in a channel that is owned or with nothing
held. -/
theorem safe_getMembership (pos : ChannelId → ℕ) :
    (contract hash task pos).Safe t (getMembership c u)
      (fun w => (HoldsAdmins t w ∧ Reached pos t c w) ∧ (Owns t c w ∨ Idle t w))
      (fun found w => (HoldsAdmins t w ∧ Reached pos t c w) ∧ ∀ m, found = some m →
        (m.role = .admin → Admin w c u ∨ membership w c u = none) ∧
          (m.role ≠ .admin → (Owns t c w ∧ ¬ Admin w c u) ∨ Idle t w)) fun _ _ => True := by
  have hlasts : (contract hash task pos).Stable t fun w =>
      Admin w c u ∨ membership w c u = none := by
    intro w w' _ _ ho h
    exact h.elim ((others ho).lasts c u) fun hnone => .inr ((others ho).gone c u hnone)
  refine Contract.Safe.perform (fun found => stable_holding.and (.forall fun m => .imp fun _ =>
    (Contract.Stable.imp fun _ => hlasts).and (.imp fun _ => stable_notAdmin.or stable_idle)))
    (fun _ => .const True) fun w ch r s hi hw _ h => ?_
  obtain ⟨-, -, hi', hstep, horder⟩ := quiet_step pos
    (o := .sql (.get .channelMembers (c, u))) trivial hi h
  obtain ⟨rfl, hr⟩ := exec_getTable h
  refine ⟨hi', ⟨hstep, horder⟩, ?_⟩
  cases r with
  | error e => trivial
  | ok found =>
    refine ⟨kept_holding.aside (K := contract hash task pos) w _ _ w.state rfl rfl hw.1, ?_⟩
    rintro m rfl
    have hview : membership w c u = some m :=
      ((hr (some m) rfl).trans (view_of_clean hw.1.1.clean (c, u))).symm
    refine ⟨fun hrole => .inl ⟨m, hview, hrole⟩, fun hrole => ?_⟩
    refine hw.2.imp (fun howns => ⟨howns.forward (.of_eq rfl rfl), ?_⟩) id
    intro ⟨m', hm', hrole'⟩
    have hsame : some m = some m' := hview.symm.trans hm'
    cases hsame
    exact hrole hrole'

omit [DecidableEq T] in
theorem reached_of_idle (h : Idle t w) : Reached pos t c w := fun k hk => absurd hk (h.2 k)

theorem safe_commitPublish {event : Event} {topic : Topic} :
    (contract hash task pos).Safe t (Py.commit.bind fun _ => publishChannelEvent event topic)
      (Fit t) (fun _ => Fit t) fun _ _ => True :=
  Contract.Safe.bind safe_commit fun _ => (kept_idle.only quiet_publish).mono (fun _ _ hw => hw)
    (fun _ _ _ hw => fit_of_idle hw) fun _ _ _ hw => hw

theorem safe_leave :
    (contract hash task pos).Safe t (leaveChannelRoute c u) (Idle t) (fun _ _ => True)
      fun _ _ => True := by
  refine safe_request (Contract.Safe.bind (Q := fun _ => Fit t) ?_ fun outcome => ?_)
  · refine Contract.Safe.bind (kept_idle.perform trivial) fun channel => ?_
    match channel with
    | none => exact fun _ _ hw => fit_of_idle hw
    | some channel =>
      refine Contract.Safe.bind ((safe_getMembership pos).weaken fun w _ hw =>
        ⟨⟨holdsAdmins_of_idle hw, reached_of_idle hw⟩, .inr hw⟩) fun found => ?_
      match found with
      | none => exact fun _ _ hw => fit_of_holdsAdmins hw.1.1
      | some m =>
        exact Contract.Safe.bind (safe_departMember.weaken fun w _ hw => ⟨hw.1, hw.2 m rfl⟩)
          fun _ _ _ hw => hw
  · cases outcome with
    | notMember => exact fun _ _ hw => hw
    | left => exact safe_commitPublish

/-- The caller is one of the admins that are held. -/
theorem safe_authorizeAdmin {caller : UserId} :
    (contract hash task pos).Safe t (authorizeAdmin c caller) (Idle t)
      (fun a w => (HoldsAdmins t w ∧ Reached pos t c w) ∧ ∀ channel, a = .ok channel → Owns t c w)
      fun _ _ => True := by
  refine Contract.Safe.bind (kept_idle.perform trivial) fun channel => ?_
  match channel with
  | none => exact fun _ _ hw => ⟨⟨holdsAdmins_of_idle hw, reached_of_idle hw⟩, nofun⟩
  | some channel =>
    refine Contract.Safe.bind ((safe_lockChannelAdminIds fun _ => False).weaken fun w _ hw =>
      ⟨⟨holdsAdmins_of_idle hw, reached_of_idle hw⟩, fun _ h => h.elim⟩) fun ids => ?_
    show (contract hash task pos).Safe t (if _ then _ else (if _ then _ else _)) _ _ _
    split
    · exact fun _ _ hw => ⟨hw.1, nofun⟩
    split
    · exact fun _ _ hw => ⟨hw.1, nofun⟩
    · rename_i hids _
      exact fun _ _ hw => ⟨hw.1, fun _ _ => hw.2.1 hids⟩

theorem safe_remove {caller : UserId} :
    (contract hash task pos).Safe t (removeChannelMemberRoute c caller u) (Idle t)
      (fun _ _ => True) fun _ _ => True := by
  refine safe_request (Contract.Safe.bind (Q := fun _ => Fit t) ?_ fun outcome => ?_)
  · refine Contract.Safe.bind safe_authorizeAdmin fun authorized => ?_
    match authorized with
    | .error refusal => exact fun _ _ hw => fit_of_holdsAdmins hw.1.1
    | .ok channel =>
      refine Contract.Safe.weaken (A := fun w => (HoldsAdmins t w ∧ Reached pos t c w) ∧
        Owns t c w) ?_ fun _ _ hw => ⟨hw.1, hw.2 channel rfl⟩
      refine Contract.Safe.bind ((kept_holding.and kept_owns).perform trivial) fun user => ?_
      match user with
      | none => exact fun _ _ hw => fit_of_holdsAdmins hw.1.1
      | some user =>
        refine Contract.Safe.bind ((safe_getMembership pos).weaken
          fun w _ hw => ⟨hw.1, .inl hw.2⟩) fun found => ?_
        match found with
        | none => exact fun _ _ hw => fit_of_holdsAdmins hw.1.1
        | some m =>
          exact Contract.Safe.bind (safe_departMember.weaken fun w _ hw => ⟨hw.1, hw.2 m rfl⟩)
            fun _ _ _ hw => hw
  · cases outcome with
    | refused refusal => exact fun _ _ _ => trivial
    | notMember =>
      exact safe_commit.mono (fun _ _ hw => hw) (fun _ _ _ hw => fit_of_idle hw)
        fun _ _ _ hw => hw
    | removed => exact safe_commitPublish

/-- **Every request asks for what comes after all it holds.** -/
theorem safe_task :
    (contract hash task pos).Safe t (task t).program (Idle t) (fun _ _ => True)
      fun _ _ => True := by
  cases ht : task t with
  | leave c u => exact safe_leave
  | remove c caller u => exact safe_remove
  | deactivate u =>
    exact Contract.Safe.bind (safe_deactivateRoute (by rw [ht]; rfl)) fun _ _ _ _ => trivial

/-! ### The result -/

/-- Before the first request nothing is held. -/
structure Start (task : T → Task) (p : LockPool T) : Prop where
  prog : ∀ t, p.prog t = (task t).program
  trace : p.world.trace = []
  hold : ∀ τ k, (p.world.state.db τ).hold k = none

theorem Start.sound {p : LockPool T} (h : Start task p) (hash : RawToken → TokenHash)
    (pos : ChannelId → ℕ) :
    (contract hash task pos).Sound (fun _ _ _ => True) (fun _ _ _ => True) p where
  inv := by
    have hnone : ∀ t c rows, ¬ Selected t c rows p.world := by
      intro t c rows hrows
      unfold Selected at hrows
      rw [h.trace] at hrows
      cases hrows
    exact ⟨fun c u _ => h.hold .channelMembers (c, u), fun t c rows hrows => absurd hrows (hnone t c rows),
      fun t t' c rows rows' hrows => absurd hrows (hnone t c rows)⟩
  safe t := by
    refine ⟨Idle t, stable_idle, ⟨fun u ⟨_, hp⟩ => ?_, fun k ⟨_, hp⟩ => ?_⟩, ?_⟩
    · rw [h.hold] at hp
      cases hp
    · rw [h.hold] at hp
      cases hp
    · rw [h.prog]
      exact safe_task

/-- What locks or writes a row is a statement that can fail, and no query. -/
theorem fails_of_lockedRow (hash : RawToken → TokenHash) (task : T → Task) (pos : ChannelId → ℕ)
    (t : T) {y : Row} (ho : lockedRow o = some y) (w : BackendWorld T) (e : Exc) :
    (ordered task pos).op t o (.fail e) w ∧
      (machine T hash).exec t o (.fail e) w.state = some (.error e, w.state) := by
  cases o with
  | sql q =>
    refine ⟨?_, rfl⟩
    cases q with
    | select τ p => cases ho
    | _ => exact ⟨nofun, nofun⟩
  | _ => cases ho

/-- A request that is about to lock or write a row asks for it in order: the guarantee of the step,
even if that can only fail at the moment. -/
theorem ordered_of_sound {Q : T → Unit → BackendWorld T → Prop}
    {R : T → Exc → BackendWorld T → Prop} {p : LockPool T}
    (h : (contract hash task pos).Sound Q R p) :
    Ordered (wanted p) (holder p.world) (rank pos p.world) := by
  intro t t' y hy hholder hne
  unfold wanted at hy
  split at hy
  · rename_i o k hk
    obtain ⟨hpre, hexec⟩ :=
      fails_of_lockedRow hash task pos t hy p.world .dbError
    obtain ⟨A, -, hA, hsafe⟩ := h.safe t
    rw [hk] at hsafe
    obtain ⟨B, -, hstep, -⟩ := hsafe
    have hguar := (hstep p.world _ _ _ h.inv hA hpre hexec).2.1
    exact hguar.2 y t' hy hholder hne
  · cases hy

/-- **No deadlock.** In every interleaving of leaves, removals and deactivations whose queries on
the memberships come back in one common order of the channels, in which no request locks again an
admin that comes before those it holds, and in which a system admin who is deactivated is still
active when the active system admins are selected: no transactions wait for one another in a cycle
over the rows of `users` and `channel_members`. -/
theorem lock_order {p₀ p : LockPool T} {ls : List (Label T Choice Tick)} (pos : ChannelId → ℕ)
    (h₀ : Start task p₀) (hC : (machine T hash).Meets (ordered task pos) p₀ ls)
    (hp : (machine T hash).run p₀ ls = some p) : NoDeadlock (wanted p) (holder p.world) := by
  have hsound := (h₀.sound hash pos).run eventsOk hC hp
  exact acyclic_of_ordered (ordered_of_sound hsound)

/-! ### Two channels with the same two admins -/

/-- These committed rows, and nothing else. -/
def poolOf (rows : (τ : Tbl) → List (τ.Key × τ.Row)) (task : T → Task) : LockPool T where
  world := ⟨State.ofRows rows, []⟩
  prog t := (task t).program

omit [DecidableEq T] in
theorem poolOf_start (rows : (τ : Tbl) → List (τ.Key × τ.Row)) (task : T → Task) :
    Start task (poolOf rows task) where
  prog _ := rfl
  trace := rfl
  hold _ _ := rfl

/-- A user with this flag of a system admin. -/
def someone (isSystemAdmin : Bool) : User :=
  ⟨['u'], ['e'], ['p'], ['f'], ['l'], true, isSystemAdmin, false, 0⟩

/-- Users 10 and 11 are the admins of channels 1 and 2. -/
def sharedChannels : (τ : Tbl) → List (τ.Key × τ.Row)
  | .users => [(10, someone false), (11, someone false)]
  | .channels => [(1, ⟨['x'], false, 10, 0⟩), (2, ⟨['y'], false, 10, 0⟩)]
  | .channelMembers => [((1, 10), ⟨.admin, 0⟩), ((1, 11), ⟨.admin, 0⟩), ((2, 10), ⟨.admin, 0⟩),
      ((2, 11), ⟨.admin, 0⟩)]
  | _ => []

/-- `k` awaits of request `t`. -/
def awaits (t : T) (k : ℕ) : List (Label T Choice Tick) := List.replicate k (.proc t (.ok [] 1))

/-- A query of request `t` that is answered in this order. -/
def query (t : T) (order : List ℕ) : List (Label T Choice Tick) := [.proc t (.ok order 1)]

def deactivateAndLeave : Bool → Task
  | false => .deactivate 10
  | true => .leave 2 11

/-- At every query on the memberships the rows come in the order of the channels, and in every
channel the admins not held come after the rows held. -/
abbrev inLine : Machine.Condition Bool Op Op.Res Exc Choice Tick (State Bool) where
  op t o ch w :=
    (∀ q ∈ o.selected .channelMembers, Ascending id (rowsOf t q w ch) ∧
      ∀ k ∈ (w.state.db .channelMembers).keys, AfterHeld t k.1 w) ∧
    ((o.selected .users).isSome = true → TargetActive deactivateAndLeave t w)
  event _ _ := True

/-- A channel without rows has none that are held. -/
theorem ordered_of_inLine {p : LockPool Bool} {ls : List (Label Bool Choice Tick)}
    (h : (machine Bool id).Meets inLine p ls) :
    (machine Bool id).Meets (ordered deactivateAndLeave id) p ls := by
  have hop : ∀ t o ch w, inLine.op t o ch w → (ordered deactivateAndLeave id).op t o ch w := by
    intro t o ch w ⟨hrows, htarget⟩
    refine ⟨fun q hq => ⟨(hrows q hq).1, fun c _ k hk j hj hkc => ?_⟩, htarget⟩
    subst hkc
    exact (hrows q hq).2 k hk k hk j hj rfl
  exact Machine.meets_mono hop (fun _ _ _ => trivial) h

/-- The deactivation has locked the admins of channel 1, the leave those of channel 2, for which the
deactivation waits. -/
theorem lock_order_shared :
    ∃ p, (machine Bool id).run (poolOf sharedChannels deactivateAndLeave)
        (awaits false 5 ++ awaits true 6 ++ awaits false 1) = some p ∧
      WaitsFor (wanted p) (holder p.world) false true ∧
      NoDeadlock (wanted p) (holder p.world) := by
  obtain ⟨p, hp⟩ := Option.isSome_iff_exists.mp
    (show ((machine Bool id).run (poolOf sharedChannels deactivateAndLeave)
      (awaits false 5 ++ awaits true 6 ++ awaits false 1)).isSome = true by decide)
  have hwaits : ((machine Bool id).run (poolOf sharedChannels deactivateAndLeave)
      (awaits false 5 ++ awaits true 6 ++ awaits false 1)).all (fun p =>
        WaitsFor (wanted p) (holder p.world) false true) = true := by decide
  rw [hp] at hwaits
  refine ⟨p, hp, of_decide_eq_true hwaits, ?_⟩
  exact lock_order id (poolOf_start sharedChannels deactivateAndLeave)
    (ordered_of_inLine (by decide)) hp

/-! ### Deadlocks -/

/-- The run, of requests that start with nothing held, ends in a deadlock. -/
def EndsInDeadlock (task : T → Task) (p₀ : LockPool T) (ls : List (Label T Choice Tick)) : Prop :=
  Start task p₀ ∧
    ∃ p, (machine T id).run p₀ ls = some p ∧ ¬ NoDeadlock (wanted p) (holder p.world)

theorem endsInDeadlock_of_mutual {rows : (τ : Tbl) → List (τ.Key × τ.Row)} {task : T → Task}
    {ls : List (Label T Choice Tick)} (t t' : T)
    (h : ((machine T id).run (poolOf rows task) ls).any (fun p =>
      WaitsFor (wanted p) (holder p.world) t t' ∧ WaitsFor (wanted p) (holder p.world) t' t) =
        true) : EndsInDeadlock task (poolOf rows task) ls := by
  obtain ⟨p, hp, hwaits⟩ := (Option.any_eq_true _ _).mp h
  obtain ⟨hwait, hwait'⟩ := of_decide_eq_true hwaits
  exact ⟨poolOf_start rows task, p, hp, deadlock_of_mutual hwait hwait'⟩

/-- The two admins of the two channels. -/
def deactivateBoth : ℕ → Task
  | 0 => .deactivate 10
  | _ => .deactivate 11

/-- The memberships of one come in the order of the channels, those of the other in the opposite
order. -/
def oppositeOrders : List (Label ℕ Choice Tick) :=
  awaits 0 5 ++ awaits 1 1 ++ query 1 [1, 0] ++ awaits 1 3 ++ awaits 0 1 ++ awaits 1 1

/-- An admin, and two members who joined at the same time. -/
def twoMembers : (τ : Tbl) → List (τ.Key × τ.Row)
  | .users => [(10, someone false), (11, someone false), (5, someone false)]
  | .channels => [(1, ⟨['x'], false, 10, 0⟩)]
  | .channelMembers => [((1, 10), ⟨.admin, 0⟩), ((1, 11), ⟨.member, 0⟩), ((1, 5), ⟨.member, 0⟩)]
  | _ => []

def promoteBoth : ℕ → Task
  | 0 => .deactivate 10
  | 1 => .leave 1 10
  | 2 => .remove 1 11 11
  | _ => .leave 1 5

/-- The deactivation makes 11 an admin, and the leave, which found the admin 10 alone before, makes
5 one; the removal has found 10 and 11, locks 11, and locks the admins again when 5 is there. -/
def lockedTwice : List (Label ℕ Choice Tick) :=
  awaits 0 4 ++ awaits 1 4 ++ awaits 0 8 ++ awaits 1 1 ++ query 1 [1, 0] ++ awaits 2 2 ++
    awaits 1 4 ++ awaits 2 6 ++ awaits 3 5

/-- Three system admins. -/
def threeAdmins : (τ : Tbl) → List (τ.Key × τ.Row)
  | .users => [(1, someone true), (2, someone true), (3, someone true)]
  | _ => []

def deactivateTwice : ℕ → Task
  | 2 => .deactivate 2
  | _ => .deactivate 1

/-- One deactivation of user 1 commits after the other has read the user and before that selects
the active system admins. -/
def readBefore : List (Label ℕ Choice Tick) :=
  awaits 0 1 ++ awaits 1 6 ++ awaits 2 2 ++ awaits 1 4 ++ awaits 0 4 ++ awaits 2 1

/-- **Deadlocks.** Two deactivations lock the admins of two channels in opposite orders; a removal
that locks the admins of its channel twice meets a leave; a deactivation that writes a system admin
whom it has not locked meets another one. -/
theorem deadlock :
    EndsInDeadlock deactivateBoth (poolOf sharedChannels deactivateBoth) oppositeOrders ∧
      EndsInDeadlock promoteBoth (poolOf twoMembers promoteBoth) lockedTwice ∧
      EndsInDeadlock deactivateTwice (poolOf threeAdmins deactivateTwice) readBefore := by
  have hopposite := endsInDeadlock_of_mutual 0 1 (show ((machine ℕ id).run
    (poolOf sharedChannels deactivateBoth) oppositeOrders).any _ = true by decide)
  have htwice := endsInDeadlock_of_mutual 2 3 (show ((machine ℕ id).run
    (poolOf twoMembers promoteBoth) lockedTwice).any _ = true by decide)
  have hread := endsInDeadlock_of_mutual 0 2 (show ((machine ℕ id).run
    (poolOf threeAdmins deactivateTwice) readBefore).any _ = true by decide)
  exact ⟨hopposite, htwice, hread⟩

end Chatspace.LockOrder
