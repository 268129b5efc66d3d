import Chatspace.Services.AdminUsers
import Chatspace.Services.AdminLocks
import Chatspace.Interleave.Solo
import Chatspace.Backend.Tables

/-!
# Requests that change memberships, one at a time

What each request does to the memberships and the users when nothing else runs.

* `Rows`, `committed`, `seen` — the rows that are committed, and those that a transaction sees;
* `At` — an assertion about these two, with the rules for statements;
* `Succeeded` — the memberships after a succession;
* `Effect` — **what a request that has ended has committed**.
-/

namespace Chatspace.SoloMembership

open Interleave Store Channels AdminUsers

variable {T : Type} [DecidableEq T] {hash : RawToken → TokenHash} {t t' : T}
  {w w' : BackendWorld T} {s s' : State T} {ch : Choice}

/-! ### Rows -/

abbrev Members : Type := ChannelId × UserId → Option ChannelMember

/-- The memberships and the users. -/
structure Rows where
  members : Members
  users : UserId → Option User

def committed (s : State T) : Rows := ⟨(s.db .channelMembers).committed, (s.db .users).committed⟩

/-- What transaction `t` sees. -/
def seen (t : T) (s : State T) : Rows := ⟨(s.db .channelMembers).view t, (s.db .users).view t⟩

def Rows.setMember (R : Rows) (k : ChannelId × UserId) (m : Option ChannelMember) : Rows :=
  { R with members := Function.update R.members k m }

def Rows.setUser (R : Rows) (u : UserId) (x : User) : Rows :=
  { R with users := Function.update R.users u (some x) }

theorem view_write {K V : Type} [DecidableEq K] (tb : Table T K V) (k : K) (v : Option V) :
    (tb.write t k v).view t = Function.update (tb.view t) k v := by
  funext j
  by_cases hj : j = k
  · subst hj
    rw [Function.update_self]
    exact Table.view_of_hold Table.hold_write_self
  · rw [Function.update_of_ne hj, Table.view_write_of_ne hj]

theorem view_of_released {K V : Type} {tb tb' : Table T K V} (hr : tb'.hold = tb.release t) :
    tb'.view t = tb'.committed := by
  funext k
  exact Table.view_of_not_holds (Table.not_holds_release hr)

/-- What writes neither memberships nor users, and ends no transaction. -/
def Reads : Op → Prop
  | .sql (.lock ..) => True
  | o => Spares .channelMembers o ∧ Spares .users o

theorem exec_reads {o : Op} (ho : Reads o) {r : Except Exc o.Res}
    (h : (machine T hash).exec t o ch s = some (r, s')) :
    committed s' = committed s ∧ seen t s' = seen t s := by
  have hspares : ∀ {o : Op} {r : Except Exc o.Res}, Spares .channelMembers o ∧ Spares .users o →
      (machine T hash).exec t o ch s = some (r, s') →
      committed s' = committed s ∧ seen t s' = seen t s := by
    intro o r ho h
    have hmembers := exec_spares ho.1 h
    have husers := exec_spares ho.2 h
    exact ⟨by rw [committed, committed, hmembers, husers], by rw [seen, seen, hmembers, husers]⟩
  have hlock : ∀ {τ : Tbl} {k : τ.Key} {p : τ.Row → Bool} {r : Except Exc (Option τ.Row)},
      (machine T hash).exec t (.sql (.lock τ k p)) ch s = some (r, s') → ∀ τ' : Tbl,
      (s'.db τ').committed = (s.db τ').committed ∧ (s'.db τ').view t = (s.db τ').view t := by
    intro τ k p r h τ'
    obtain ⟨rfl, -⟩ | ⟨x, hfree, -, rfl, -⟩ := exec_lockTable h
    · exact ⟨rfl, rfl⟩
    · by_cases hτ : τ' = τ
      · subst hτ
        rw [State.set_db]
        exact ⟨rfl, funext fun j => Table.view_lock hfree⟩
      · rw [State.set_db_of_ne hτ]
        exact ⟨rfl, rfl⟩
  cases o with
  | sql q =>
    cases q with
    | lock τ k p =>
      obtain ⟨hmembers, hmembers'⟩ := hlock h .channelMembers
      obtain ⟨husers, husers'⟩ := hlock h .users
      exact ⟨by rw [committed, committed, hmembers, husers],
        by rw [seen, seen, hmembers', husers']⟩
    | _ => exact hspares ho h
  | _ => exact hspares ho h

section Writes

variable {k : ChannelId × UserId} {m : Option ChannelMember} {u : UserId} {x : User}

omit [DecidableEq T] in
theorem committed_writeMember :
    committed (s.set .channelMembers ((s.db .channelMembers).write t k m)) = committed s := by
  simp only [committed, State.set_db, State.set_db_of_ne (by decide : Tbl.users ≠ .channelMembers)]
  rfl

theorem seen_writeMember :
    seen t (s.set .channelMembers ((s.db .channelMembers).write t k m)) =
      (seen t s).setMember k m := by
  simp only [seen, State.set_db, State.set_db_of_ne (by decide : Tbl.users ≠ .channelMembers),
    view_write]
  rfl

omit [DecidableEq T] in
theorem committed_writeUser :
    committed (s.set .users ((s.db .users).write t u (some x))) = committed s := by
  simp only [committed, State.set_db, State.set_db_of_ne (by decide : Tbl.channelMembers ≠ .users)]
  rfl

theorem seen_writeUser :
    seen t (s.set .users ((s.db .users).write t u (some x))) = (seen t s).setUser u x := by
  simp only [seen, State.set_db, State.set_db_of_ne (by decide : Tbl.channelMembers ≠ .users),
    view_write]
  rfl

theorem committed_commit : committed { s with db := s.db.commit t } = seen t s := rfl

theorem seen_commit : seen t { s with db := s.db.commit t } = seen t s := by
  simp only [seen, Db.commit_apply]
  rw [view_of_released rfl, view_of_released rfl]
  rfl

theorem committed_rollback : committed { s with db := s.db.rollback t } = committed s := rfl

theorem seen_rollback : seen t { s with db := s.db.rollback t } = committed s := by
  simp only [seen, Db.rollback_apply]
  rw [view_of_released rfl, view_of_released rfl]
  rfl

end Writes

/-! ### Assertions about the rows -/

/-- An assertion about the rows that are committed and those that `t` sees. -/
def At (t : T) (P : Rows → Rows → Prop) (w : BackendWorld T) : Prop :=
  P (committed w.state) (seen t w.state)

variable {P Q F : Rows → Rows → Prop} {α β : Type}

theorem At.of_reads (h : At t P w)
    (hreads : committed s = committed w.state ∧ seen t s = seen t w.state)
    {o : Op} {r : Except Exc o.Res} : At t P (w.after t' o r s) := by
  show P (committed s) (seen t s)
  rw [hreads.1, hreads.2]
  exact h

/-- Only transaction `t` moves. -/
abbrev alone (hash : RawToken → TokenHash) (t : T) : Contract (machine T hash) :=
  (machine T hash).alone t

theorem safe_perform {o : Op} {A : BackendWorld T → Prop} {B : o.Res → BackendWorld T → Prop}
    {R : Exc → BackendWorld T → Prop}
    (h : ∀ w c r s, A w → (machine T hash).exec t o c w.state = some (r, s) →
      Contract.Outcome B R r (w.after t o r s)) :
    (alone hash t).Safe t (Prog.perform o) A B R := by
  refine Contract.Safe.perform (fun _ => Machine.alone_stable) (fun _ => Machine.alone_stable) ?_
  intro w c r s _ hw _ hx
  exact ⟨trivial, trivial, h w c r s hw hx⟩

/-- Reading keeps every assertion. -/
theorem safe_reads {p : Py α} (hp : p.Only Reads) :
    (alone hash t).Safe t p (At t P) (fun _ => At t P) fun _ => At t P := by
  refine Contract.Safe.only hp Machine.alone_stable fun o ho w c r s _ hw _ hx => ?_
  exact ⟨trivial, trivial, At.of_reads hw (exec_reads ho hx)⟩

/-- The same, weakened when it raises. -/
theorem safe_reads' {p : Py α} (hp : p.Only Reads) (hF : ∀ C V, P C V → F C V) :
    (alone hash t).Safe t p (At t P) (fun _ => At t P) fun _ => At t F :=
  (safe_reads hp).mono (fun _ _ hw => hw) (fun _ _ _ hw => hw) fun _ _ _ hw => hF _ _ hw

/-- What is read of a row is what is seen. -/
theorem safe_get (τ : Tbl) (k : τ.Key) (hF : ∀ C V, P C V → F C V) :
    (alone hash t).Safe t (Py.get τ k) (At t P)
      (fun x w => At t P w ∧ x = (w.state.db τ).view t k) fun _ => At t F := by
  refine safe_perform fun w c r s hw hx => ?_
  obtain ⟨rfl, hr⟩ := exec_getTable hx
  cases r with
  | ok x => exact ⟨hw, hr x rfl⟩
  | error e => exact hF _ _ hw

theorem safe_getMembership {c : ChannelId} {u : UserId} (hF : ∀ C V, P C V → F C V) :
    (alone hash t).Safe t (getMembership c u) (At t P)
      (fun x => At t fun C V => P C V ∧ x = V.members (c, u)) fun _ => At t F :=
  safe_get .channelMembers (c, u) hF

theorem safe_getUser {u : UserId} (hF : ∀ C V, P C V → F C V) :
    (alone hash t).Safe t (Py.get .users u) (At t P)
      (fun x => At t fun C V => P C V ∧ x = V.users u) fun _ => At t F :=
  safe_get .users u hF

/-- The rows that satisfy `q`. -/
def RowsOf (q : ChannelId × UserId → ChannelMember → Bool) (m : Members)
    (rows : List ((ChannelId × UserId) × ChannelMember)) : Prop :=
  (rows.map Prod.fst).Nodup ∧ ∀ k x, (k, x) ∈ rows ↔ m k = some x ∧ q k x = true

theorem safe_select {q : ChannelId × UserId → ChannelMember → Bool} (hF : ∀ C V, P C V → F C V) :
    (alone hash t).Safe t (Py.select .channelMembers q) (At t P)
      (fun rows => At t fun C V => P C V ∧ RowsOf q V.members rows) fun _ => At t F := by
  refine safe_perform fun w c r s hw hx => ?_
  obtain ⟨rfl, hr⟩ := exec_selectTable hx
  cases r with
  | ok rows =>
    have hperm := hr rows rfl
    refine ⟨hw, (hperm.map Prod.fst).nodup_iff.mpr (Table.nodup_scan _), fun k x => ?_⟩
    rw [hperm.mem_iff, Table.mem_scan]
    rfl
  | error e => exact hF _ _ hw

/-! ### Writes -/

/-- The flush of a changed membership. -/
theorem safe_flushUpdate {k : ChannelId × UserId} {f : ChannelMember → ChannelMember}
    (hF : ∀ C V, P C V → F C V)
    (hQ : ∀ C V x, P C V → V.members k = some x → Q C (V.setMember k (some (f x)))) :
    (alone hash t).Safe t (Py.flushUpdate .channelMembers k f) (At t P) (fun _ => At t Q)
      fun _ => At t F := by
  refine Contract.Safe.bind (Q := fun matched => At t fun C V =>
    if matched = true then Q C V else F C V) (safe_perform fun w c r s hw hx => ?_) fun matched => ?_
  · obtain ⟨rfl, hr⟩ | ⟨x, -, hview, -, rfl, rfl⟩ := exec_updateTable hx
    · cases r with
      | error e => exact hF _ _ hw
      | ok matched =>
        cases matched with
        | true => exact absurd rfl hr
        | false => exact hF _ _ hw
    · have hq := hQ _ _ x hw hview
      show Q (committed (State.set ..)) (seen t (State.set ..))
      rw [committed_writeMember, seen_writeMember]
      exact hq
  · cases matched with
    | true => exact fun w _ hw => hw
    | false => exact fun w _ hw => hw

/-- The flush of a changed user. -/
theorem safe_flushUser {u : UserId} {f : User → User} (hF : ∀ C V, P C V → F C V)
    (hQ : ∀ C V x, P C V → V.users u = some x → Q C (V.setUser u (f x))) :
    (alone hash t).Safe t (Py.flushUpdate .users u f) (At t P) (fun _ => At t Q)
      fun _ => At t F := by
  refine Contract.Safe.bind (Q := fun matched => At t fun C V =>
    if matched = true then Q C V else F C V) (safe_perform fun w c r s hw hx => ?_) fun matched => ?_
  · obtain ⟨rfl, hr⟩ | ⟨x, -, hview, -, rfl, rfl⟩ := exec_updateTable hx
    · cases r with
      | error e => exact hF _ _ hw
      | ok matched =>
        cases matched with
        | true => exact absurd rfl hr
        | false => exact hF _ _ hw
    · have hq := hQ _ _ x hw hview
      show Q (committed (State.set ..)) (seen t (State.set ..))
      rw [committed_writeUser, seen_writeUser]
      exact hq
  · cases matched with
    | true => exact fun w _ hw => hw
    | false => exact fun w _ hw => hw

/-- The flush of a new membership. -/
theorem safe_flushInsert {k : ChannelId × UserId} {f : Time → ChannelMember}
    (hF : ∀ C V, P C V → F C V)
    (hQ : ∀ C V now, P C V → V.members k = none → Q C (V.setMember k (some (f now)))) :
    (alone hash t).Safe t (Py.flushInsert .channelMembers k f) (At t P) (fun _ => At t Q)
      fun _ => At t F := by
  refine Contract.Safe.bind (Q := fun row => At t fun C V => if row.isSome then Q C V else F C V)
    (safe_perform fun w c r s hw hx => ?_) fun row => ?_
  · obtain ⟨rfl, hr⟩ | ⟨now, -, hview, rfl, rfl⟩ := exec_insertTable hx
    · cases r with
      | error e => exact hF _ _ hw
      | ok row =>
        cases row with
        | some x => exact absurd rfl (hr x)
        | none => exact hF _ _ hw
    · have hq := hQ _ _ now hw hview
      show Q (committed (State.set ..)) (seen t (State.set ..))
      rw [committed_writeMember, seen_writeMember]
      exact hq
  · cases row with
    | some x => exact fun w _ hw => hw
    | none => exact fun w _ hw => hw

/-- The flush of a deleted membership. -/
theorem safe_flushDelete {k : ChannelId × UserId} (hF : ∀ C V, P C V → F C V)
    (hQ : ∀ C V, P C V → Q C (V.setMember k none)) :
    (alone hash t).Safe t (Py.flushDelete .channelMembers k) (At t P) (fun _ => At t Q)
      fun _ => At t F := by
  refine Contract.Safe.bind (Q := fun _ => At t Q)
    (safe_perform fun w c r s hw hx => ?_) fun _ => fun w _ hw => hw
  obtain ⟨rfl, hr⟩ | ⟨x, -, hview, rfl, rfl⟩ := exec_deleteTable hx
  · cases r with
    | error e => exact hF _ _ hw
    | ok matched =>
      cases matched with
      | true => exact absurd rfl hr
      | false =>
        obtain ⟨d, hd, -⟩ := exec_sql hx
        have hnone : (seen t w.state).members k = none := exec_delete_none hd
        have hsame : (seen t w.state).setMember k none = seen t w.state := by
          rw [Rows.setMember, ← hnone, Function.update_eq_self]
        have hq := hQ _ _ hw
        rw [hsame] at hq
        exact hq
  · have hq := hQ _ _ hw
    show Q (committed (State.set ..)) (seen t (State.set ..))
    rw [committed_writeMember, seen_writeMember]
    exact hq

theorem safe_commit (hQ : ∀ C V, P C V → Q V V) (hF : ∀ C V, P C V → F C V) :
    (alone hash t).Safe t Py.commit (At t P) (fun _ => At t Q) fun _ => At t F := by
  refine safe_perform fun w c r s hw hx => ?_
  obtain ⟨rfl, e, rfl⟩ | ⟨rfl, rfl⟩ := exec_commitAll hx
  · exact hF _ _ hw
  · have hq := hQ _ _ hw
    show Q (committed { w.state with db := w.state.db.commit t })
      (seen t { w.state with db := w.state.db.commit t })
    rw [committed_commit, seen_commit]
    exact hq

theorem safe_rollback (hQ : ∀ C V, P C V → Q C C) (hF : ∀ C V, P C V → F C V) :
    (alone hash t).Safe t Py.rollback (At t P) (fun _ => At t Q) fun _ => At t F := by
  refine safe_perform fun w c r s hw hx => ?_
  obtain ⟨rfl, e, rfl⟩ | ⟨rfl, rfl⟩ := exec_rollbackAll hx
  · exact hF _ _ hw
  · have hq := hQ _ _ hw
    show Q (committed { w.state with db := w.state.db.rollback t })
      (seen t { w.state with db := w.state.db.rollback t })
    rw [committed_rollback, seen_rollback]
    exact hq

/-! ### Locked rows -/

section Locks

variable {q : ChannelId × UserId → ChannelMember → Bool} {m : Members}

/-- What the lock of a row answers. -/
def lockedRow (q : ChannelId × UserId → ChannelMember → Bool) (m : Members)
    (k : ChannelId × UserId) : Option ((ChannelId × UserId) × ChannelMember) :=
  ((m k).filter (q k)).map fun x => (k, x)

theorem lockedRow_eq_some {k : ChannelId × UserId} {r : (ChannelId × UserId) × ChannelMember} :
    lockedRow q m k = some r ↔ r.1 = k ∧ m k = some r.2 ∧ q k r.2 = true := by
  obtain ⟨j, x⟩ := r
  simp only [lockedRow, Option.map_eq_some_iff, Option.filter_eq_some_iff, Prod.mk.injEq]
  constructor
  · intro h
    obtain ⟨x', hx, rfl, rfl⟩ := h
    exact ⟨rfl, hx⟩
  · intro h
    obtain ⟨rfl, hx⟩ := h
    exact ⟨x, hx, rfl, rfl⟩

theorem rowsOf_filterMap {keys : List (ChannelId × UserId)} (hnodup : keys.Nodup)
    (hkeys : ∀ k x, m k = some x → q k x = true → k ∈ keys) :
    RowsOf q m (keys.filterMap (lockedRow q m)) := by
  constructor
  · have hsub : ((keys.filterMap (lockedRow q m)).map Prod.fst).Sublist keys := by
      clear hnodup hkeys
      induction keys with
      | nil => simp
      | cons k keys ih =>
        cases hk : lockedRow q m k with
        | none =>
          rw [List.filterMap_cons_none hk]
          exact ih.cons k
        | some r =>
          rw [List.filterMap_cons_some hk, List.map_cons, (lockedRow_eq_some.mp hk).1]
          exact ih.cons_cons k
    exact hsub.nodup hnodup
  · intro k x
    rw [List.mem_filterMap]
    constructor
    · intro h
      obtain ⟨j, -, hj⟩ := h
      obtain ⟨rfl, hx⟩ := lockedRow_eq_some.mp hj
      exact hx
    · intro hx
      exact ⟨k, hkeys k x hx.1 hx.2, lockedRow_eq_some.mpr ⟨rfl, hx⟩⟩

theorem safe_selectForUpdate {le : ChannelId × UserId → ChannelId × UserId → Bool}
    (hF : ∀ C V, P C V → F C V) :
    (alone hash t).Safe t (Py.selectForUpdate .channelMembers q le) (At t P)
      (fun rows => At t fun C V => P C V ∧ RowsOf q V.members rows) fun _ => At t F := by
  refine Contract.Safe.bind (safe_select hF) fun rows => ?_
  have hrow : ∀ k ks (bs : List (Option ((ChannelId × UserId) × ChannelMember)))
      (keys : List (ChannelId × UserId)),
      (alone hash t).Safe t
        ((Py.sql (.lock .channelMembers k (q k))).bind fun x => .ret (x.map fun v => (k, v)))
        (At t fun C V => (P C V ∧ RowsOf q V.members rows) ∧
          ∃ past, past ++ k :: ks = keys ∧ bs = past.map (lockedRow q V.members))
        (fun b => At t fun C V => (P C V ∧ RowsOf q V.members rows) ∧
          ∃ past, past ++ ks = keys ∧ bs ++ [b] = past.map (lockedRow q V.members))
        fun _ => At t F := by
    intro k ks bs keys
    refine Contract.Safe.bind (Q := fun x => At t fun C V =>
      ((P C V ∧ RowsOf q V.members rows) ∧
        ∃ past, past ++ k :: ks = keys ∧ bs = past.map (lockedRow q V.members)) ∧
        x = (V.members k).filter (q k)) (safe_perform fun w c r s hw hx => ?_) fun x w _ hw => ?_
    · have hreads := exec_reads (o := .sql (.lock .channelMembers k (q k))) trivial hx
      have hanswer : ∀ x, r = .ok x → x = ((seen t w.state).members k).filter (q k) := by
        intro x hr
        obtain ⟨-, hnone⟩ | ⟨y, -, hview, -, rfl⟩ := exec_lockTable hx
        · obtain ⟨rfl, hview⟩ := hnone x hr
          show none = Option.filter (q k) ((w.state.db .channelMembers).view t k)
          rw [hview]
          rfl
        · cases hr
          show _ = Option.filter (q k) ((w.state.db .channelMembers).view t k)
          rw [hview]
          rfl
      cases r with
      | ok x =>
        rw [Contract.Outcome_ok]
        refine At.of_reads ?_ hreads
        exact ⟨hw, hanswer x rfl⟩
      | error e =>
        rw [Contract.Outcome_error]
        refine At.of_reads ?_ hreads
        exact hF _ _ hw.1.1
    · obtain ⟨⟨hP, past, hpast, rfl⟩, rfl⟩ := hw
      refine ⟨hP, past ++ [k], by simp [← hpast], ?_⟩
      rw [List.map_append]
      rfl
  refine Contract.Safe.bind ((Contract.Safe.forEach
    (I := fun ks bs => At t fun C V => (P C V ∧ RowsOf q V.members rows) ∧
      ∃ past, past ++ ks = (rows.map Prod.fst).insertionSort (fun j k => le j k = true) ∧
        bs = past.map (lockedRow q V.members))
    (fun k ks bs => hrow k ks bs _) _ []).weaken fun w _ hw => ⟨hw, [], rfl, rfl⟩)
      fun locked w _ hw => ?_
  obtain ⟨⟨hP, hnodup, hrows⟩, past, hpast, hlocked⟩ := hw
  rw [List.append_nil] at hpast
  subst hpast
  rw [List.nil_append] at hlocked
  refine ⟨hP, ?_⟩
  rw [hlocked, List.filterMap_map]
  refine rowsOf_filterMap ((List.perm_insertionSort _ _).nodup_iff.mpr hnodup) fun k x hx hq => ?_
  rw [List.mem_insertionSort]
  exact List.mem_map.mpr ⟨(k, x), (hrows k x).mpr ⟨hx, hq⟩, rfl⟩

end Locks

/-! ### Succession -/

def IsAdmin (m : Members) (c : ChannelId) (u : UserId) : Prop :=
  ∃ x, m (c, u) = some x ∧ x.role = .admin

def OnlyAdmin (m : Members) (c : ChannelId) (u : UserId) : Prop := ∀ v, IsAdmin m c v ↔ v = u

/-- Another member than `u`, and none of these joined earlier. -/
def Longest (m : Members) (c : ChannelId) (u v : UserId) : Prop :=
  v ≠ u ∧ ∃ x, m (c, v) = some x ∧ ∀ v' y, v' ≠ u → m (c, v') = some y → x.joinedAt ≤ y.joinedAt

/-- What is found out about a channel of which `u` is an admin. -/
def Found (m : Members) (u : UserId) (c : ChannelId) :
    Option (ChannelId × UserId × ChannelMember) → Prop
  | none => OnlyAdmin m c u → ∀ v, v ≠ u → m (c, v) = none
  | some (c', v, x) => c' = c ∧ OnlyAdmin m c u ∧ Longest m c u v ∧ m (c, v) = some x

section Succession

variable {c : ChannelId} {u : UserId}

theorem safe_lockChannelAdminIds (hF : ∀ C V, P C V → F C V) :
    (alone hash t).Safe t (lockChannelAdminIds c) (At t P)
      (fun ids => At t fun C V => P C V ∧ ids.Nodup ∧ ∀ x, x ∈ ids ↔ IsAdmin V.members c x)
      fun _ => At t F := by
  refine Contract.Safe.bind (safe_selectForUpdate hF) fun rows w _ hw => ?_
  obtain ⟨hP, hnodup, hrows⟩ := hw
  have hchannel : ∀ r ∈ rows, r.1.1 = c := by
    intro r hr
    have := ((hrows r.1 r.2).mp hr).2
    simp only [isAdminOf, Bool.and_eq_true, decide_eq_true_eq] at this
    exact this.1
  refine ⟨hP, ?_, fun x => ?_⟩
  · have hmap : rows.map (fun r => r.1.2) = (rows.map Prod.fst).map Prod.snd := by
      rw [List.map_map]
      rfl
    rw [hmap]
    refine hnodup.map_on fun j hj k hk heq => ?_
    obtain ⟨r, hr, rfl⟩ := List.mem_map.mp hj
    obtain ⟨r', hr', rfl⟩ := List.mem_map.mp hk
    exact Prod.ext ((hchannel r hr).trans (hchannel r' hr').symm) heq
  · rw [List.mem_map]
    constructor
    · intro h
      obtain ⟨⟨k, y⟩, hr, rfl⟩ := h
      obtain ⟨hy, hq⟩ := (hrows k y).mp hr
      simp only [isAdminOf, Bool.and_eq_true, decide_eq_true_eq] at hq
      have hk : k = (c, k.2) := Prod.ext hq.1 rfl
      exact ⟨y, hk ▸ hy, hq.2⟩
    · intro h
      obtain ⟨y, hy, hrole⟩ := h
      exact ⟨((c, x), y), (hrows _ _).mpr ⟨hy, by simp [isAdminOf, hrole]⟩, rfl⟩

theorem safe_findSuccessor (hF : ∀ C V, P C V → F C V) :
    (alone hash t).Safe t (findSuccessor c u) (At t P)
      (fun r => At t fun C V => P C V ∧ (r = none → ∀ v, v ≠ u → V.members (c, v) = none) ∧
        ∀ x ∈ r, Longest V.members c u x.1 ∧ V.members (c, x.1) = some x.2) fun _ => At t F := by
  refine Contract.Safe.bind (safe_select hF) fun rows w _ hw => ?_
  obtain ⟨hP, -, hrows⟩ := hw
  have hrow : ∀ k y, (k, y) ∈ rows ↔
      (seen t w.state).members k = some y ∧ k.1 = c ∧ k.2 ≠ u := by
    intro k y
    rw [hrows k y, Bool.and_eq_true, decide_eq_true_eq, decide_eq_true_eq]
  refine ⟨hP, fun hnone v hv => ?_, fun x hx => ?_⟩
  · rw [AdminLocks.longestStanding_eq_none] at hnone
    by_contra hsome
    obtain ⟨y, hy⟩ := Option.ne_none_iff_exists'.mp hsome
    have hmem := (hrow (c, v) y).mpr ⟨hy, rfl, hv⟩
    rw [hnone] at hmem
    exact List.not_mem_nil hmem
  · obtain ⟨k, hmem, hk, hfirst⟩ := AdminLocks.longestStanding_eq_some hx
    obtain ⟨hseen, hc, hu⟩ := (hrow k x.2).mp hmem
    have hkey : k = (c, x.1) := Prod.ext hc hk
    rw [hkey] at hseen
    refine ⟨⟨hk ▸ hu, x.2, hseen, fun v' y hv' hy => ?_⟩, hseen⟩
    exact hfirst ((c, v'), y) ((hrow (c, v') y).mpr ⟨hy, rfl, hv'⟩)

theorem onlyAdmin_iff_length {m : Members} {ids : List UserId} (hnodup : ids.Nodup)
    (hids : ∀ x, x ∈ ids ↔ IsAdmin m c x) (hadmin : IsAdmin m c u) :
    ids.length = 1 ↔ OnlyAdmin m c u := by
  constructor
  · intro h v
    obtain ⟨a, rfl⟩ := List.length_eq_one_iff.mp h
    have hu := List.mem_singleton.mp ((hids u).mpr hadmin)
    rw [← hids v, List.mem_singleton, hu]
  · intro h
    have hperm : ids.Perm [u] := by
      rw [List.perm_ext_iff_of_nodup hnodup (List.nodup_singleton u)]
      intro x
      rw [hids x, h x, List.mem_singleton]
    rw [hperm.length_eq]
    rfl

theorem safe_successorIn (hF : ∀ C V, P C V → F C V)
    (hadmin : ∀ C V, P C V → IsAdmin V.members c u) :
    (alone hash t).Safe t (successorIn u c) (At t P)
      (fun r => At t fun C V => P C V ∧ Found V.members u c r) fun _ => At t F := by
  refine Contract.Safe.bind (safe_lockChannelAdminIds hF) fun ids => ?_
  show (alone hash t).Safe t (if _ then _ else _) _ _ _
  split
  · rename_i hlength
    intro w _ hw
    refine ⟨hw.1, fun honly => absurd ?_ hlength⟩
    exact (onlyAdmin_iff_length hw.2.1 hw.2.2 (hadmin _ _ hw.1)).mpr honly
  · rename_i hlength
    rw [not_not] at hlength
    refine Contract.Safe.bind (safe_findSuccessor fun C V h => hF C V h.1) fun r w _ hw => ?_
    obtain ⟨⟨hP, hnodup, hids⟩, hnone, hsome⟩ := hw
    refine ⟨hP, ?_⟩
    cases r with
    | none => exact fun _ => hnone rfl
    | some x =>
      have honly := (onlyAdmin_iff_length hnodup hids (hadmin _ _ hP)).mp hlength
      exact ⟨rfl, honly, hsome x rfl⟩

/-- These members promoted. -/
def promoted (keys : List (ChannelId × UserId)) (m : Members) : Members :=
  fun k => if k ∈ keys then (m k).map promote else m k

theorem promoted_concat {keys : List (ChannelId × UserId)} {m : Members} {k : ChannelId × UserId}
    {x : ChannelMember} (h : promoted keys m k = some x) :
    Function.update (promoted keys m) k (some (promote x)) = promoted (keys ++ [k]) m := by
  funext j
  by_cases hj : j = k
  · subst hj
    rw [Function.update_self, promoted, if_pos (by simp)]
    rw [promoted] at h
    split at h
    · obtain ⟨y, hy, rfl⟩ := Option.map_eq_some_iff.mp h
      rw [hy]
      rfl
    · rw [h]
      rfl
  · rw [Function.update_of_ne hj]
    simp only [promoted, List.mem_append, List.mem_singleton, hj, or_false]

/-- The rows that the flush of these successors writes. -/
def changedKeys (successors : List (ChannelId × UserId × ChannelMember)) :
    List (ChannelId × UserId) :=
  (successors.filter fun s => s.2.2.role ≠ .admin).map fun s => (s.1, s.2.1)

theorem safe_flushSuccessors {successors : List (ChannelId × UserId × ChannelMember)}
    (hF : ∀ C V V', P C V → F C V') :
    (alone hash t).Safe t (flushSuccessors successors) (At t P)
      (fun _ => At t fun C V' => ∃ V, P C V ∧
        V' = { V with members := promoted (changedKeys successors) V.members })
      fun _ => At t F := by
  have hloop := Contract.Safe.forEach (K := alone hash t) (t := t) (R := fun _ => At t F)
    (f := fun k => Py.flushUpdate .channelMembers k promote)
    (I := fun ks (_ : List Unit) => At t fun C V' => ∃ V, P C V ∧ ∃ past,
      past ++ ks = (changedKeys successors).insertionSort (fun j k =>
        j.1 < k.1 ∨ (j.1 = k.1 ∧ j.2 ≤ k.2)) ∧ V' = { V with members := promoted past V.members })
    (fun k ks _ => by
      refine safe_flushUpdate ?_ ?_
      · intro C V' h
        obtain ⟨V, hP, -⟩ := h
        exact hF C V V' hP
      · intro C V' x h hx
        obtain ⟨V, hP, past, hpast, rfl⟩ := h
        refine ⟨V, hP, past ++ [k], by simp [← hpast], ?_⟩
        rw [Rows.setMember, promoted_concat hx])
    ((changedKeys successors).insertionSort fun j k => j.1 < k.1 ∨ (j.1 = k.1 ∧ j.2 ≤ k.2)) []
  refine Contract.Safe.bind (hloop.weaken fun w _ hw => ?_) fun _ w _ hw => ?_
  · refine ⟨seen t w.state, hw, [], rfl, ?_⟩
    rfl
  · obtain ⟨V, hP, past, hpast, hseen⟩ := hw
    refine ⟨V, hP, hseen.trans ?_⟩
    rw [List.append_nil] at hpast
    subst hpast
    congr 1
    funext k
    simp only [promoted, List.mem_insertionSort]

/-- The memberships `m'` after the succession of `u` in some channels: where `u` is the only admin
and there are others, one that joined first among them is promoted. -/
def Succeeded (u : UserId) (scope : ChannelId → Prop) (m m' : Members) : Prop :=
  ∀ c, (scope c ∧ OnlyAdmin m c u ∧ ∃ v, Longest m c u v ∧
      ∀ y, m' (c, y) = if y = v then (m (c, y)).map promote else m (c, y)) ∨
    ((scope c → OnlyAdmin m c u → ∀ v, v ≠ u → m (c, v) = none) ∧ ∀ y, m' (c, y) = m (c, y))

theorem Succeeded.congr {m m' : Members} {scope scope' : ChannelId → Prop}
    (h : Succeeded u scope m m') (hscope : ∀ c, scope c ↔ scope' c) : Succeeded u scope' m m' := by
  have heq : scope = scope' := funext fun c => propext (hscope c)
  rw [← heq]
  exact h

/-- Nothing to succeed where the user is no admin. -/
theorem succeeded_self {m : Members} {scope : ChannelId → Prop}
    (h : ∀ c, scope c → ¬ IsAdmin m c u) : Succeeded u scope m m := by
  intro c
  exact .inr ⟨fun hscope honly => absurd ((honly u).mpr rfl) (h c hscope), fun _ => rfl⟩

/-- What the loop over the channels found. -/
def FoundAll (m : Members) (u : UserId) (cs : List ChannelId)
    (found : List (Option (ChannelId × UserId × ChannelMember))) : Prop :=
  List.Forall₂ (Found m u) cs found

namespace FoundAll

variable {m : Members} {cs : List ChannelId}
  {found : List (Option (ChannelId × UserId × ChannelMember))}

theorem concat (h : FoundAll m u cs found) {r : Option (ChannelId × UserId × ChannelMember)}
    (hr : Found m u c r) : FoundAll m u (cs ++ [c]) (found ++ [r]) :=
  List.rel_append h (.cons hr .nil)

theorem channels (h : FoundAll m u cs found) :
    ((found.filterMap id).map Prod.fst).Sublist cs := by
  induction h with
  | nil => exact .slnil
  | @cons c r cs found hr _ ih =>
    cases r with
    | none => exact ih.cons c
    | some s =>
      obtain ⟨rfl, -⟩ := hr
      exact ih.cons_cons s.1

theorem of_mem (h : FoundAll m u cs found) {s : ChannelId × UserId × ChannelMember}
    (hs : s ∈ found.filterMap id) : s.1 ∈ cs ∧ Found m u s.1 (some s) := by
  induction h with
  | nil => cases hs
  | @cons c r cs found hr _ ih =>
    cases r with
    | none => exact (ih hs).imp_left (List.mem_cons_of_mem c)
    | some s' =>
      rcases List.mem_cons.mp hs with rfl | hs
      · obtain ⟨rfl, -⟩ := id hr
        exact ⟨List.mem_cons_self, hr⟩
      · exact (ih hs).imp_left (List.mem_cons_of_mem c)

theorem of_channel (h : FoundAll m u cs found) (hc : c ∈ cs) :
    (∃ s ∈ found.filterMap id, s.1 = c) ∨ Found m u c none := by
  induction h with
  | nil => cases hc
  | @cons c' r cs found hr _ ih =>
    rcases List.mem_cons.mp hc with rfl | hc
    · cases r with
      | none => exact .inr hr
      | some s => exact .inl ⟨s, List.mem_cons_self, hr.1⟩
    · refine (ih hc).imp_left fun hfound => ?_
      obtain ⟨s, hs, hsc⟩ := hfound
      cases r with
      | none => exact ⟨s, hs, hsc⟩
      | some s' => exact ⟨s, List.mem_cons_of_mem s' hs, hsc⟩

/-- The flush of the successors found is the succession. -/
theorem succeeded {scope : ChannelId → Prop} (h : FoundAll m u cs found) (hnodup : cs.Nodup)
    (hcs : ∀ c, c ∈ cs ↔ scope c ∧ IsAdmin m c u) :
    Succeeded u scope m (promoted (changedKeys (found.filterMap id)) m) := by
  have hkey : ∀ c y, (c, y) ∈ changedKeys (found.filterMap id) ↔
      ∃ x, (c, y, x) ∈ found.filterMap id ∧ x.role ≠ .admin := by
    intro c y
    simp only [changedKeys, List.mem_map, List.mem_filter, decide_eq_true_eq]
    constructor
    · intro hmem
      obtain ⟨s, hs, heq⟩ := hmem
      obtain ⟨rfl, rfl⟩ := Prod.mk.inj heq
      exact ⟨s.2.2, hs⟩
    · intro hmem
      obtain ⟨x, hx⟩ := hmem
      exact ⟨(c, y, x), hx, rfl⟩
  intro c
  by_cases hsome : ∃ s ∈ found.filterMap id, s.1 = c
  · obtain ⟨⟨c', v, x⟩, hs, rfl⟩ := hsome
    obtain ⟨hc, -, honly, hlongest, hx⟩ := h.of_mem hs
    refine .inl ⟨((hcs _).mp hc).1, honly, v, hlongest, fun y => ?_⟩
    have hunique : (c', y) ∈ changedKeys (found.filterMap id) ↔ y = v := by
      rw [hkey]
      constructor
      · intro hmem
        obtain ⟨x', hx', -⟩ := hmem
        have heq := List.inj_on_of_nodup_map (h.channels.nodup hnodup) hx' hs rfl
        exact (Prod.mk.inj (Prod.mk.inj heq).2).1
      · intro hy
        subst hy
        exact ⟨x, hs, fun hrole => hlongest.1 ((honly y).mp ⟨x, hx, hrole⟩)⟩
    simp only [promoted, hunique]
  · refine .inr ⟨fun hscope honly => ?_, fun y => ?_⟩
    · have hc := (hcs c).mpr ⟨hscope, (honly u).mpr rfl⟩
      exact (h.of_channel hc).resolve_left hsome honly
    · have hno : (c, y) ∉ changedKeys (found.filterMap id) := by
        rw [hkey]
        intro hmem
        obtain ⟨x, hx, -⟩ := hmem
        exact hsome ⟨_, hx, rfl⟩
      rw [promoted, if_neg hno]

end FoundAll

/-- The rows of the user as an admin, in the channel given or in all. -/
def isAdminRow (u : UserId) (channelId : Option ChannelId) (k : ChannelId × UserId)
    (m : ChannelMember) : Bool :=
  k.2 = u && m.role = .admin && channelId.all (k.1 = ·)

theorem RowsOf.channels {channelId : Option ChannelId} {m : Members}
    {rows : List ((ChannelId × UserId) × ChannelMember)}
    (h : RowsOf (isAdminRow u channelId) m rows) : (rows.map fun r => r.1.1).Nodup ∧
      ∀ c, c ∈ rows.map (fun r => r.1.1) ↔ (∀ c' ∈ channelId, c = c') ∧ IsAdmin m c u := by
  have hrow : ∀ k x, isAdminRow u channelId k x = true ↔
      k.2 = u ∧ x.role = .admin ∧ ∀ c' ∈ channelId, k.1 = c' := by
    intro k x
    cases channelId <;> simp [isAdminRow, and_assoc]
  obtain ⟨hnodup, hrows⟩ := h
  constructor
  · have hmap : rows.map (fun r => r.1.1) = (rows.map Prod.fst).map Prod.fst := by
      rw [List.map_map]
      rfl
    have huser : ∀ k ∈ rows.map Prod.fst, k.2 = u := by
      intro k hk
      obtain ⟨r, hr, rfl⟩ := List.mem_map.mp hk
      exact ((hrow r.1 r.2).mp ((hrows r.1 r.2).mp hr).2).1
    rw [hmap]
    exact hnodup.map_on fun j hj k hk heq =>
      Prod.ext heq ((huser j hj).trans (huser k hk).symm)
  · intro c
    rw [List.mem_map]
    constructor
    · intro hc
      obtain ⟨⟨k, x⟩, hr, rfl⟩ := hc
      obtain ⟨hx, hq⟩ := (hrows k x).mp hr
      obtain ⟨hu, hrole, hscope⟩ := (hrow k x).mp hq
      have hk : k = (k.1, u) := Prod.ext rfl hu
      exact ⟨hscope, x, hk ▸ hx, hrole⟩
    · intro hc
      obtain ⟨hscope, x, hx, hrole⟩ := hc
      exact ⟨((c, u), x), (hrows _ _).mpr ⟨hx, (hrow _ _).mpr ⟨rfl, hrole, hscope⟩⟩, rfl⟩

/-- The loop over the channels `cs` that are left. -/
def Asking (P : Rows → Rows → Prop) (u : UserId) (channelId : Option ChannelId)
    (rows : List ((ChannelId × UserId) × ChannelMember)) (cs : List ChannelId)
    (found : List (Option (ChannelId × UserId × ChannelMember))) (C V : Rows) : Prop :=
  (P C V ∧ RowsOf (isAdminRow u channelId) V.members rows) ∧
    ∃ past, past ++ cs = rows.map (fun r => r.1.1) ∧ FoundAll V.members u past found

/-- **The succession of `u`, in one channel or in all.** -/
theorem safe_runSoleAdminSuccession {channelId : Option ChannelId}
    (hF : ∀ C V V', P C V → F C V') :
    (alone hash t).Safe t (runSoleAdminSuccession u channelId) (At t P)
      (fun _ => At t fun C V' => ∃ V, P C V ∧ V'.users = V.users ∧
        Succeeded u (fun c => ∀ c' ∈ channelId, c = c') V.members V'.members)
      fun _ => At t F := by
  refine Contract.Safe.bind (safe_select fun C V h => hF C V V h) fun rows => ?_
  have hchannel : ∀ c cs found, (alone hash t).Safe t (successorIn u c)
      (At t (Asking P u channelId rows (c :: cs) found))
      (fun r => At t (Asking P u channelId rows cs (found ++ [r]))) fun _ => At t F := by
    intro c cs found
    have hadmin : ∀ C V, Asking P u channelId rows (c :: cs) found C V →
        IsAdmin V.members c u := by
      intro C V h
      obtain ⟨⟨-, hrows⟩, past, hpast, -⟩ := h
      exact ((hrows.channels.2 c).mp (by simp [← hpast])).2
    refine (safe_successorIn (fun C V h => hF C V V h.1.1) hadmin).mono (fun _ _ hw => hw)
      (fun r w _ hw => ?_) fun _ _ _ hw => hw
    obtain ⟨⟨hrows, past, hpast, hall⟩, hr⟩ := hw
    exact ⟨hrows, past ++ [c], by simp [← hpast], hall.concat hr⟩
  refine Contract.Safe.bind ((Contract.Safe.forEach
    (I := fun cs found => At t (Asking P u channelId rows cs found)) hchannel _ []).weaken
      fun w _ hw => ⟨hw, [], rfl, .nil⟩) fun found => ?_
  rw [List.nil_append]
  refine Contract.Safe.bind (safe_flushSuccessors fun C V V' h => hF C V V' h.1.1)
    fun _ w _ hw => ?_
  obtain ⟨V, ⟨⟨hP, hrows⟩, past, hpast, hall⟩, hseen⟩ := hw
  rw [List.append_nil] at hpast
  subst hpast
  refine ⟨V, hP, by rw [hseen], ?_⟩
  rw [hseen]
  exact hall.succeeded hrows.channels.1 hrows.channels.2

end Succession

end Chatspace.SoloMembership
