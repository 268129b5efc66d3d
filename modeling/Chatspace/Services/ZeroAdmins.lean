import Chatspace.Backend.Tables
import Chatspace.Interleave.Moments
import Chatspace.Services.AdminSuccession
import Chatspace.Services.AdminUsers

/-!
# Channels without an admin

Joins, leaves, additions, removals, changes of role and deactivations, step by step in any order.
An admin is made by a transaction that holds the row of another admin of the channel, or by nobody.

* `Entitled` — what a transaction has written: an admin in a channel only with an admin of the
  channel held;
* `safe_task` — every request is entitled to what it commits;
* `zero_admins_absorbing` — **a channel without an admin stays without one, and whoever asks for an
  admin's operation on it from then on is refused and changes no membership**.
-/

namespace Chatspace.ZeroAdmins

open Interleave Store Channels AdminLocks AdminUsers Sessions
open AdminSuccession (HasAdmin)

/-- One request. -/
inductive Task where
  | join (channelId : ChannelId) (userId : UserId)
  | leave (channelId : ChannelId) (userId : UserId)
  | add (channelId : ChannelId) (callerId userId : UserId) (role : ChannelMemberRole)
  | changeRole (channelId : ChannelId) (callerId userId : UserId) (role : ChannelMemberRole)
  | remove (channelId : ChannelId) (callerId userId : UserId)
  | deactivate (userId : UserId)

def Task.program : Task → Py Unit
  | .join c u => (joinChannelRoute c u).bind fun _ => .ret ()
  | .leave c u => leaveChannelRoute c u
  | .add c caller u role => (addChannelMemberRoute c caller u role).bind fun _ => .ret ()
  | .changeRole c caller u role =>
    (updateChannelMemberRoleRoute c caller u role).bind fun _ => .ret ()
  | .remove c caller u => removeChannelMemberRoute c caller u
  | .deactivate u => (deactivateUserRoute u).bind fun _ => .ret ()

/-- The channel in which an admin performs the operation. -/
def Task.managed : Task → Option ChannelId
  | .add c .. => some c
  | .changeRole c .. => some c
  | .remove c .. => some c
  | _ => none

variable {T : Type} [DecidableEq T] {hash : RawToken → TokenHash} {task : T → Task} {t : T}
  {w w' : BackendWorld T} {c : ChannelId} {u caller : UserId} {s : State T} {o : Op}
  {r : Except Exc o.Res}

/-- No channel without an admin is given one. -/
def contract (hash : RawToken → TokenHash) : Contract (machine T hash) where
  inv _ := True
  pre := .always
  guar _ _ _ w w' := ∀ c, HasAdmin w' c → HasAdmin w c

omit [DecidableEq T] in
theorem hasAdmin_of_committed
    (h : (s.db .channelMembers).committed = (w.state.db .channelMembers).committed) :
    HasAdmin (w.after t o r s) c ↔ HasAdmin w c := by
  unfold HasAdmin Admin membership
  rw [World.after_state, h]

theorem aboutMembers : AboutMembers (contract (T := T) hash) :=
  fun _ _ _ _ _ _ hs => ⟨trivial, fun _ => (hasAdmin_of_committed hs).mp⟩

theorem eventsOk : (contract (T := T) hash).EventsOk := fun _ _ _ _ _ _ => trivial

/-! ### What a transaction may write -/

/-- The transaction holds an admin of the channel. -/
def Anchored (t : T) (c : ChannelId) (w : BackendWorld T) : Prop := ∃ x, Held t c x w

/-- It has made admins only where it holds one. -/
def Entitled (t : T) (w : BackendWorld T) : Prop :=
  ∀ k m, (w.state.db .channelMembers).hold k = some ⟨t, some (some m)⟩ → m.role = .admin →
    Anchored t k.1 w

variable {K : Contract (machine T hash)}

theorem stable_anchored : K.Stable t (Anchored t c) :=
  fun _ _ _ _ ho ⟨x, hx⟩ => ⟨x, (held_other ho).mpr hx⟩

omit [DecidableEq T] in
theorem held_aside (h : s.db .channelMembers = w.state.db .channelMembers) :
    Held t c u (w.after t o r s) ↔ Held t c u w := by
  unfold Held Admin membership
  rw [World.after_state, h]

theorem kept_anchored : AdminLocks.Kept K t (Anchored t c) where
  stable := stable_anchored
  aside _ _ _ _ h := fun ⟨x, hx⟩ => ⟨x, (held_aside h).mpr hx⟩

theorem stable_entitled : K.Stable t (Entitled t) := by
  intro w w' hi hi' ho h k m hk hrole
  have hk' := ((other_keeps ho .channelMembers).hold k _).mpr hk
  exact stable_anchored w w' hi hi' ho (h k m hk' hrole)

theorem kept_entitled : AdminLocks.Kept K t (Entitled t) where
  stable := stable_entitled
  aside w o r s hs h k m hk hrole := by
    rw [World.after_state, hs] at hk
    exact kept_anchored.aside (K := K) w o r s hs (h k m hk hrole)

omit [DecidableEq T] in
theorem entitled_of_clean (h : Clean t w) : Entitled t w := fun k _ hk => absurd hk (h k _)

/-- Entitled so far, and to make admins in the channels of these rows. -/
def Flushing (t : T) (ks : List (ChannelId × UserId)) (w : BackendWorld T) : Prop :=
  Entitled t w ∧ ∀ k ∈ ks, Anchored t k.1 w

omit [DecidableEq T] in
theorem flushing_nil : Flushing t [] w ↔ Entitled t w := by simp [Flushing]

theorem stable_flushing {ks : List (ChannelId × UserId)} : K.Stable t (Flushing t ks) :=
  stable_entitled.and (.forall fun _ => .imp fun _ => stable_anchored)

omit [DecidableEq T] in
/-- A row that is written stays held, and what was committed is still committed. -/
theorem anchored_write {k : ChannelId × UserId} {v : Option ChannelMember}
    (h : Anchored t c w) :
    Anchored t c (w.after t o r (w.state.set .channelMembers
      ((w.state.db .channelMembers).write t k v))) := by
  obtain ⟨x, ⟨p, hp⟩, hadmin⟩ := h
  have hcommitted : Admin (w.after t o r (w.state.set .channelMembers
      ((w.state.db .channelMembers).write t k v))) c x := by
    unfold Admin membership
    rw [World.after_state, State.set_db, Table.committed_write]
    exact hadmin
  refine ⟨x, ?_, hcommitted⟩
  show ((w.state.set .channelMembers _).db .channelMembers).Holds t (c, x)
  rw [State.set_db]
  by_cases hk : (c, x) = k
  · subst hk
    exact Table.holds_put_self
  · refine ⟨p, ?_⟩
    rw [Table.hold_write_of_ne hk]
    exact hp

omit [DecidableEq T] in
/-- A version is written: of a new admin only if one is held. -/
theorem entitled_write {k : ChannelId × UserId} {v : Option ChannelMember} (h : Entitled t w)
    (hv : ∀ m, v = some m → m.role = .admin → Anchored t k.1 w) :
    Entitled t (w.after t o r (w.state.set .channelMembers
      ((w.state.db .channelMembers).write t k v))) := by
  intro j m hj hrole
  rw [World.after_state, State.set_db] at hj
  by_cases hjk : j = k
  · subst hjk
    rw [Table.hold_write_self] at hj
    cases hj
    exact anchored_write (hv m rfl hrole)
  · rw [Table.hold_write_of_ne hjk] at hj
    exact anchored_write (h j m hj hrole)

variable (hash) in
/-- A statement on a membership row writes a version or nothing. -/
theorem writes_ok {k : ChannelId × UserId} {ks : List (ChannelId × UserId)}
    {P : Option ChannelMember → Prop}
    (hs : s = w.state ∨ ∃ v, P v ∧
      s = w.state.set .channelMembers ((w.state.db .channelMembers).write t k v))
    (h : Flushing t ks w) (hP : ∀ m, P (some m) → m.role = .admin → Anchored t k.1 w) :
    (contract hash).inv (w.after t o r s) ∧ (contract hash).guar t o r w (w.after t o r s) ∧
      Flushing t ks (w.after t o r s) := by
  rcases hs with rfl | ⟨v, hv, rfl⟩
  · have hkept := (kept_entitled (K := contract hash)).aside w o r w.state rfl h.1
    refine ⟨trivial, fun _ => (hasAdmin_of_committed rfl).mp, hkept, fun k hk => ?_⟩
    exact (kept_anchored (K := contract hash)).aside w o r w.state rfl (h.2 k hk)
  · refine ⟨trivial, fun _ => (hasAdmin_of_committed ?_).mp,
      entitled_write h.1 fun m hm => hP m (hm ▸ hv), fun k hk => anchored_write (h.2 k hk)⟩
    rw [State.set_db, Table.committed_write]

/-! ### Commits -/

/-- **Who is entitled gives no admin to a channel without one.** -/
theorem hasAdmin_of_view (h : Entitled t w) {m : ChannelMember}
    (hm : (w.state.db .channelMembers).view t (c, u) = some m) (hrole : m.role = .admin) :
    HasAdmin w c := by
  rcases (w.state.db .channelMembers).view_cases t (c, u) with hv | ⟨v, hhold, hv⟩
  · exact ⟨u, m, hv.symm.trans hm, hrole⟩
  · obtain rfl : v = some m := hv.symm.trans hm
    rcases h (c, u) m hhold hrole with ⟨x, -, hx⟩
    exact ⟨x, hx⟩

theorem safe_commit :
    (contract hash).Safe t Py.commit (Entitled t) (fun _ => Clean t) fun _ _ => True := by
  refine Contract.Safe.perform (fun _ => stable_clean) (fun _ => .const True)
    fun w ch r s hi hw _ h => ?_
  rcases exec_commitAll h with ⟨rfl, e, rfl⟩ | ⟨rfl, rfl⟩
  · exact ⟨trivial, (aboutMembers (T := T) t _ _ w w.state trivial rfl).2, trivial⟩
  · refine ⟨trivial, ?_, AdminSuccession.clean_release rfl⟩
    intro c ⟨u, m, hm, hrole⟩
    exact hasAdmin_of_view hw hm hrole

theorem safe_rollback {A : BackendWorld T → Prop} :
    (contract hash).Safe t Py.rollback A (fun _ => Clean t) fun _ _ => True := by
  refine Contract.Safe.perform (fun _ => stable_clean) (fun _ => .const True)
    fun w ch r s hi _ _ h => ?_
  rcases exec_rollbackAll h with ⟨rfl, e, rfl⟩ | ⟨rfl, rfl⟩
  · exact ⟨trivial, (aboutMembers (T := T) t _ _ w w.state trivial rfl).2, trivial⟩
  · exact ⟨trivial, (aboutMembers (T := T) t (.sql .rollback) (.ok ()) w
      { w.state with db := w.state.db.rollback t } trivial rfl).2, AdminSuccession.clean_release rfl⟩

theorem safe_request {α : Type} {body : Py α} {A : BackendWorld T → Prop}
    (h : (contract hash).Safe t body A (fun _ => Entitled t) fun _ _ => True) :
    (contract hash).Safe t (Py.getDbSession body) A (fun _ _ => True) fun _ _ => True :=
  Chatspace.safe_request safe_commit safe_rollback
    (safe_rollback.mono (fun _ _ hw => hw) (fun _ _ _ _ => trivial) fun _ _ _ hw => hw) h

/-! ### Writes -/

theorem safe_flushUpdate {k : ChannelId × UserId} (ks : List (ChannelId × UserId))
    {f : ChannelMember → ChannelMember} {A : BackendWorld T → Prop}
    (hA : ∀ w, A w → Flushing t ks w)
    (hf : ∀ w m, A w → (f m).role = .admin → Anchored t k.1 w) :
    (contract hash).Safe t (Py.flushUpdate .channelMembers k f) A (fun _ => Flushing t ks)
      fun _ _ => True := by
  refine Contract.Safe.await (fun _ => Flushing t ks) (fun _ => stable_flushing)
    (fun _ => .const True) (fun w ch r s hi hw _ h => ?_) fun matched => ?_
  · have hs : s = w.state ∨ ∃ v, (∃ m, v = some (f m)) ∧
        s = w.state.set .channelMembers ((w.state.db .channelMembers).write t k v) := by
      rcases exec_updateTable h with ⟨rfl, -⟩ | ⟨m, -, -, -, rfl, -⟩
      · exact .inl rfl
      · exact .inr ⟨_, ⟨m, rfl⟩, rfl⟩
    have hok := writes_ok hash (o := .sql (.update .channelMembers k (fun _ => true) f))
      (r := r) hs (hA w hw) fun m ⟨m', he⟩ hrole =>
        hf w m' hw (by rw [← Option.some.inj he]; exact hrole)
    refine ⟨hok.1, hok.2.1, ?_⟩
    cases r with
    | ok a => exact hok.2.2
    | error e => trivial
  · cases matched with
    | true => exact fun _ _ hw => hw
    | false => exact fun _ _ _ => trivial

theorem safe_flushDelete {k : ChannelId × UserId} :
    (contract hash).Safe t (Py.flushDelete .channelMembers k) (Entitled t) (fun _ => Entitled t)
      fun _ _ => True := by
  refine Contract.Safe.await (fun _ => Entitled t) (fun _ => stable_entitled) (fun _ => .const True)
    (fun w ch r s hi hw _ h => ?_) fun _ _ _ hw => hw
  have hs : s = w.state ∨ ∃ v, v = none ∧
      s = w.state.set .channelMembers ((w.state.db .channelMembers).write t k v) := by
    rcases exec_deleteTable h with ⟨rfl, -⟩ | ⟨m, -, -, rfl, -⟩
    · exact .inl rfl
    · exact .inr ⟨none, rfl, rfl⟩
  have hok := writes_ok hash (o := .sql (.delete .channelMembers k)) (r := r) hs
    (flushing_nil.mpr hw) fun m he => nomatch he
  refine ⟨hok.1, hok.2.1, ?_⟩
  cases r with
  | ok a => exact hok.2.2.1
  | error e => trivial

theorem safe_flushMembership {role : ChannelMemberRole} :
    (contract hash).Safe t (Py.flushInsert .channelMembers (c, u) fun now => ⟨role, now⟩)
      (fun w => Clean t w ∧ (role = .admin → Anchored t c w)) (fun _ => Entitled t)
      fun _ _ => True := by
  refine Contract.Safe.await (fun _ => Entitled t) (fun _ => stable_entitled) (fun _ => .const True)
    (fun w ch r s hi hw _ h => ?_) fun row => ?_
  · have hs : s = w.state ∨ ∃ v, (∃ now, v = some ⟨role, now⟩) ∧
        s = w.state.set .channelMembers ((w.state.db .channelMembers).write t (c, u) v) := by
      rcases exec_insertTable h with ⟨rfl, -⟩ | ⟨now, -, -, rfl, -⟩
      · exact .inl rfl
      · exact .inr ⟨_, ⟨now, rfl⟩, rfl⟩
    have hok := writes_ok hash
      (o := .sql (.insert .channelMembers (c, u) fun now => ⟨role, now⟩)) (r := r) hs
      (flushing_nil.mpr (entitled_of_clean hw.1)) fun m ⟨now, he⟩ hrole =>
        hw.2 (by rw [Option.some.inj he] at hrole; exact hrole)
    refine ⟨hok.1, hok.2.1, ?_⟩
    cases r with
    | ok a => exact hok.2.2.1
    | error e => trivial
  · cases row with
    | none => exact fun _ _ _ => trivial
    | some row => exact fun _ _ hw => hw

theorem safe_insertMembership {role : ChannelMemberRole} :
    (contract hash).Safe t (insertMembership c u role)
      (fun w => Clean t w ∧ (role = .admin → Anchored t c w)) (fun _ => Entitled t)
      fun _ _ => True := by
  refine Contract.Safe.handle (R := fun _ _ => True)
    (Contract.Safe.bind safe_flushMembership fun _ _ _ hw => hw) fun e => ?_
  split
  · refine Contract.Safe.bind safe_rollback fun _ => ?_
    refine Contract.Safe.bind (kept_clean.perform aboutMembers trivial) fun found => ?_
    match found with
    | none => exact fun _ _ _ => trivial
    | some m => exact fun _ _ hw => entitled_of_clean hw
  · exact fun _ _ _ => trivial

/-! ### The succession -/

/-- The successors found so far are in channels of which an admin is held, and which are not
among those still to come. -/
def Found (t : T) (cs : List ChannelId)
    (found : List (Option (ChannelId × UserId × ChannelMember))) (w : BackendWorld T) : Prop :=
  Clean t w ∧ ∀ s ∈ found.filterMap id, s.1 ∉ cs ∧ Anchored t s.1 w

theorem stable_found {cs : List ChannelId}
    {found : List (Option (ChannelId × UserId × ChannelMember))} : K.Stable t (Found t cs found) :=
  stable_clean.and (.forall fun _ => .imp fun _ => (Contract.Stable.const _).and stable_anchored)

/-- Locking in one channel keeps the admins held in the others. -/
theorem lockKept_anchored (cs : List ChannelId) (found : List (ChannelId × UserId × ChannelMember)) :
    LockKept K t c fun w => ∀ s ∈ found, s.1 ∉ c :: cs ∧ Anchored t s.1 w where
  stable := .forall fun _ => .imp fun _ => (Contract.Stable.const _).and stable_anchored
  locks w o r s _ hs h x hx := by
    obtain ⟨hne, y, ⟨p, hp⟩, m, hm, hrole⟩ := h x hx
    refine ⟨hne, y, ⟨p, ?_⟩, m, ?_, hrole⟩
    · rw [World.after_state, hs.elsewhere (x.1, y) (List.ne_of_not_mem_cons hne)]
      exact hp
    · rw [hs.membership]
      exact hm

theorem kept_anchoredAll (P : ChannelId → Prop) {found : List (ChannelId × UserId × ChannelMember)} :
    AdminLocks.Kept K t fun w => ∀ s ∈ found, P s.1 ∧ Anchored t s.1 w where
  stable := .forall fun _ => .imp fun _ => (Contract.Stable.const _).and stable_anchored
  aside w o r s hs h x hx := ⟨(h x hx).1, kept_anchored.aside (K := K) w o r s hs (h x hx).2⟩

/-- A successor is found in a channel in which one admin is held. -/
theorem safe_successorIn {cs : List ChannelId}
    {found : List (Option (ChannelId × UserId × ChannelMember))} (hc : c ∉ cs) :
    (contract hash).Safe t (successorIn u c) (Found t (c :: cs) found)
      (fun b => Found t cs (found ++ [b])) fun _ _ => True := by
  refine Contract.Safe.bind ((safe_lockChannelAdminIds aboutMembers
    (lockKept_anchored cs (found.filterMap id)) lasting_none).weaken
    fun w _ hw => ⟨hw.2, hw.1⟩) fun ids => ?_
  have hnone : ∀ w, Found t (c :: cs) found w → Found t cs (found ++ [none]) w := by
    intro w hw
    refine ⟨hw.1, fun x hx => ?_⟩
    rw [List.filterMap_append] at hx
    obtain ⟨hne, ha⟩ := hw.2 x (by simpa using hx)
    exact ⟨List.not_mem_of_not_mem_cons hne, ha⟩
  show (contract hash).Safe t (if _ then _ else _) _ _ _
  split
  · exact fun w _ hw => hnone w ⟨hw.1.1.2, hw.1.1.1⟩
  · rename_i hlen
    have hone : ids.length = 1 := by omega
    have hkept : AdminLocks.Kept (contract (T := T) hash) t fun w =>
        (∀ x ∈ found.filterMap id, x.1 ∉ c :: cs ∧ Anchored t x.1 w) ∧ Clean t w ∧ Anchored t c w :=
      (kept_anchoredAll fun x => x ∉ c :: cs).and (kept_clean.and kept_anchored)
    refine Contract.Safe.weaken (A := fun w =>
        (∀ x ∈ found.filterMap id, x.1 ∉ c :: cs ∧ Anchored t x.1 w) ∧ Clean t w ∧ Anchored t c w)
      (Contract.Safe.bind (hkept.only aboutMembers ((Prog.only_perform trivial).bind
        fun _ => trivial)) fun successor w _ hw => ?_) fun w _ hw => ?_
    · obtain ⟨hfound, hclean, hanchored⟩ := hw
      cases successor with
      | none => exact hnone w ⟨hclean, hfound⟩
      | some v =>
        refine ⟨hclean, fun x hx => ?_⟩
        rw [List.filterMap_append, List.mem_append] at hx
        rcases hx with hx | hx
        · obtain ⟨hne, ha⟩ := hfound x hx
          exact ⟨List.not_mem_of_not_mem_cons hne, ha⟩
        · obtain rfl : x = (c, v) := by simpa using hx
          exact ⟨hc, hanchored⟩
    · obtain ⟨⟨⟨hfound, hclean⟩, -, hheld⟩, -⟩ := hw
      match ids, hone with
      | [x], _ => exact ⟨hfound, hclean, x, (hheld x).mpr List.mem_cons_self⟩

/-- The flush of the successors. -/
theorem safe_flushSuccessors {found : List (Option (ChannelId × UserId × ChannelMember))} :
    (contract hash).Safe t (flushSuccessors (found.filterMap id)) (Found t [] found)
      (fun _ => Entitled t) fun _ _ => True := by
  refine Contract.Safe.bind ((Contract.Safe.forEach (I := fun ks (_ : List Unit) =>
    Flushing t ks) (fun k ks bs => ?_) _ []).weaken fun w _ hw => ?_) fun _ w _ hw => hw.1
  · exact safe_flushUpdate ks (fun w hw => ⟨hw.1, fun j hj => hw.2 j (List.mem_cons_of_mem _ hj)⟩)
      fun w m hw _ => hw.2 k List.mem_cons_self
  · refine ⟨entitled_of_clean hw.1, fun k hk => ?_⟩
    rw [List.mem_insertionSort] at hk
    obtain ⟨x, hx, rfl⟩ := List.mem_map.mp hk
    exact (hw.2 x (List.mem_of_mem_filter hx)).2

theorem safe_runSoleAdminSuccession {channelId : Option ChannelId} :
    (contract hash).Safe t (runSoleAdminSuccession u channelId) (Clean t) (fun _ => Entitled t)
      fun _ _ => True := by
  refine Contract.Safe.await (fun rows w => Clean t w ∧ (rows.map fun r => r.1.1).Nodup)
    (fun _ => stable_clean.and (.const _)) (fun _ => .const True) (fun w ch r s hi hw _ h => ?_)
    fun rows => ?_
  · rcases exec_selectTable h with ⟨rfl, hperm⟩
    obtain ⟨hi', hg⟩ := aboutMembers t _ r w w.state hi rfl
    refine ⟨hi', hg, ?_⟩
    cases r with
    | error e => trivial
    | ok rows =>
      refine ⟨hw, ?_⟩
      -- the rows are of one user, in one channel each
      have huser : ∀ x ∈ rows, x.1.2 = u := by
        intro x hx
        have hscan := (Table.mem_scan.mp ((hperm rows rfl).mem_iff.mp hx)).2
        simp only [Bool.and_eq_true, decide_eq_true_eq] at hscan
        exact hscan.1.1
      have hkeys : (rows.map Prod.fst).Nodup :=
        (((hperm rows rfl).map Prod.fst).nodup_iff).mpr (Table.nodup_scan _)
      refine List.Nodup.map_on ?_ (List.Nodup.of_map _ hkeys)
      intro x hx y hy hxy
      have hkey : x.1 = y.1 := Prod.ext hxy ((huser x hx).trans (huser y hy).symm)
      exact List.inj_on_of_nodup_map hkeys hx hy hkey
  · refine Contract.Safe.const fun hnodup => ?_
    refine Contract.Safe.bind ((Contract.Safe.forEach (I := fun cs found w => Found t cs found w ∧
      cs.Nodup) (fun c cs found => ?_) _ []).weaken fun w _ hw => ⟨⟨hw, by simp⟩, hnodup⟩)
      fun found => ?_
    · refine Contract.Safe.const fun hcs => ?_
      obtain ⟨hc, hcs⟩ := List.nodup_cons.mp hcs
      exact (safe_successorIn hc).mono (fun _ _ hw => hw) (fun _ _ _ hw => ⟨hw, hcs⟩)
        fun _ _ _ hw => hw
    · exact Contract.Safe.bind (safe_flushSuccessors.weaken fun w _ hw => by simpa using hw.1)
        fun _ _ _ hw => hw

/-! ### The requests -/

theorem safe_departMember {m : ChannelMember} :
    (contract hash).Safe t (departMember c u m) (Clean t) (fun _ => Entitled t)
      fun _ _ => True := by
  show (contract hash).Safe t (if _ then _ else _) _ _ _
  split
  · exact Contract.Safe.bind safe_runSoleAdminSuccession fun _ => safe_flushDelete
  · exact safe_flushDelete.weaken fun w _ hw => entitled_of_clean hw

/-- The caller is one of the admins held. -/
theorem safe_authorizeAdmin :
    (contract hash).Safe t (authorizeAdmin c caller) (Clean t)
      (fun a w => Clean t w ∧ ∀ channel, a = .ok channel → Anchored t c w) fun _ _ => True := by
  refine Contract.Safe.bind (kept_clean.perform aboutMembers trivial) fun channel => ?_
  match channel with
  | none => exact fun _ _ hw => ⟨hw, nofun⟩
  | some channel =>
    refine Contract.Safe.bind ((safe_lockChannelAdminIds aboutMembers lockKept_true
      lasting_none).weaken fun _ _ hw => ⟨trivial, hw⟩) fun ids => ?_
    show (contract hash).Safe t (if _ then _ else (if _ then _ else _)) _ _ _
    split
    · exact fun _ _ hw => ⟨hw.1.1.2, nofun⟩
    split
    · exact fun _ _ hw => ⟨hw.1.1.2, nofun⟩
    · rename_i hcaller
      exact fun w _ hw => ⟨hw.1.1.2, fun _ _ => ⟨caller, (hw.1.2.2 caller).mpr (by simpa using hcaller)⟩⟩

theorem safe_commitPublish {event : Event} {topic : Topic} :
    (contract hash).Safe t (Py.commit.bind fun _ => publishChannelEvent event topic) (Entitled t)
      (fun _ => Entitled t) fun _ _ => True :=
  Contract.Safe.bind safe_commit fun _ =>
    (kept_clean.only aboutMembers AdminSuccession.only_publish).mono (fun _ _ hw => hw)
      (fun _ _ _ hw => entitled_of_clean hw) fun _ _ _ hw => hw

theorem safe_leave :
    (contract hash).Safe t (leaveChannelRoute c u) (Clean t) (fun _ _ => True)
      fun _ _ => True := by
  refine safe_request (Contract.Safe.bind (Q := fun _ => Entitled t) ?_ fun outcome => ?_)
  · refine Contract.Safe.bind (kept_clean.perform aboutMembers trivial) fun channel => ?_
    match channel with
    | none => exact fun _ _ hw => entitled_of_clean hw
    | some channel =>
      refine Contract.Safe.bind (kept_clean.perform aboutMembers trivial) fun found => ?_
      match found with
      | none => exact fun _ _ hw => entitled_of_clean hw
      | some m => exact Contract.Safe.bind safe_departMember fun _ _ _ hw => hw
  · cases outcome with
    | notMember => exact fun _ _ hw => hw
    | left => exact safe_commitPublish

theorem safe_remove :
    (contract hash).Safe t (removeChannelMemberRoute c caller u) (Clean t) (fun _ _ => True)
      fun _ _ => True := by
  refine safe_request (Contract.Safe.bind (Q := fun _ => Entitled t) ?_ fun outcome => ?_)
  · refine Contract.Safe.bind safe_authorizeAdmin fun authorized => ?_
    match authorized with
    | .error refusal => exact fun _ _ hw => entitled_of_clean hw.1
    | .ok channel =>
      refine Contract.Safe.weaken (A := Clean t) ?_ fun _ _ hw => hw.1
      refine Contract.Safe.bind (kept_clean.perform aboutMembers trivial) fun user => ?_
      match user with
      | none => exact fun _ _ hw => entitled_of_clean hw
      | some user =>
        refine Contract.Safe.bind (kept_clean.perform aboutMembers trivial) fun found => ?_
        match found with
        | none => exact fun _ _ hw => entitled_of_clean hw
        | some m => exact Contract.Safe.bind safe_departMember fun _ _ _ hw => hw
  · cases outcome with
    | refused refusal => exact fun _ _ _ => trivial
    | notMember =>
      exact safe_commit.mono (fun _ _ hw => hw) (fun _ _ _ hw => entitled_of_clean hw)
        fun _ _ _ hw => hw
    | removed => exact safe_commitPublish

/-- Committing, and the answer. -/
theorem safe_commitReturn {α : Type} {a : α} :
    (contract hash).Safe t (Py.commit.bind fun _ => .ret a) (Entitled t) (fun _ => Entitled t)
      fun _ _ => True :=
  Contract.Safe.bind safe_commit fun _ _ _ hw => entitled_of_clean hw

theorem safe_countChannelMembers : (contract hash).Safe t (countChannelMembers c) (Entitled t)
    (fun _ => Entitled t) fun _ _ => True :=
  kept_entitled.only aboutMembers ((Prog.only_perform trivial).bind fun _ => trivial)

theorem safe_commitAdded {α : Type} {a : α} {event : Event} {topic : Topic} :
    (contract hash).Safe t
      (Py.commit.bind fun _ => (publishChannelEvent event topic).bind fun _ => .ret a)
      (Entitled t) (fun _ => Entitled t) fun _ _ => True := by
  refine Contract.Safe.bind safe_commit fun _ => ?_
  refine Contract.Safe.bind (kept_clean.only aboutMembers AdminSuccession.only_publish) fun _ => ?_
  exact fun _ _ hw => entitled_of_clean hw

/-- A new member is no admin. -/
theorem safe_join : (contract hash).Safe t (joinChannelRoute c u) (Clean t) (fun _ _ => True)
    fun _ _ => True := by
  refine safe_request (Contract.Safe.bind (Q := fun _ => Entitled t) ?_ fun outcome => ?_)
  · refine Contract.Safe.bind (kept_clean.perform aboutMembers trivial) fun channel => ?_
    match channel with
    | none => exact fun _ _ hw => entitled_of_clean hw
    | some channel =>
      refine Contract.Safe.bind (kept_clean.perform aboutMembers trivial) fun found => ?_
      match found with
      | some m => exact fun _ _ hw => entitled_of_clean hw
      | none =>
        show (contract hash).Safe t (if _ then _ else _) _ _ _
        split
        · exact fun _ _ hw => entitled_of_clean hw
        refine Contract.Safe.bind (safe_insertMembership.weaken fun _ _ hw => ⟨hw, nofun⟩)
          fun row => ?_
        match row with
        | .inr existing => exact fun _ _ hw => hw
        | .inl m => exact Contract.Safe.bind safe_countChannelMembers fun _ _ _ hw => hw
  · cases outcome with
    | notFound => exact fun _ _ _ => trivial
    | isPrivate channel => exact fun _ _ _ => trivial
    | alreadyMember m channel => exact safe_commitReturn
    | joined m channel count => exact safe_commitAdded

theorem safe_add {role : ChannelMemberRole} :
    (contract hash).Safe t (addChannelMemberRoute c caller u role) (Clean t) (fun _ _ => True)
      fun _ _ => True := by
  refine safe_request (Contract.Safe.bind (Q := fun _ => Entitled t) ?_ fun outcome => ?_)
  · refine Contract.Safe.bind safe_authorizeAdmin fun authorized => ?_
    match authorized with
    | .error refusal => exact fun _ _ hw => entitled_of_clean hw.1
    | .ok channel =>
      have hkept : AdminLocks.Kept (contract (T := T) hash) t fun w => Clean t w ∧ Anchored t c w :=
        kept_clean.and kept_anchored
      refine Contract.Safe.weaken (A := fun w => Clean t w ∧ Anchored t c w) ?_
        fun _ _ hw => ⟨hw.1, hw.2 channel rfl⟩
      refine Contract.Safe.bind (hkept.perform aboutMembers trivial) fun user => ?_
      match user with
      | none => exact fun _ _ hw => entitled_of_clean hw.1
      | some user =>
        refine Contract.Safe.bind (hkept.perform aboutMembers trivial) fun found => ?_
        match found with
        | some m => exact fun _ _ hw => entitled_of_clean hw.1
        | none =>
          refine Contract.Safe.bind (safe_insertMembership.weaken
            fun _ _ hw => ⟨hw.1, fun _ => hw.2⟩) fun row => ?_
          match row with
          | .inr existing => exact fun _ _ hw => hw
          | .inl m => exact Contract.Safe.bind safe_countChannelMembers fun _ _ _ hw => hw
  · cases outcome with
    | refused refusal => exact fun _ _ _ => trivial
    | alreadyMember m channel => exact safe_commitReturn
    | added m channel count => exact safe_commitAdded

theorem safe_changeRole {role : ChannelMemberRole} :
    (contract hash).Safe t (updateChannelMemberRoleRoute c caller u role) (Clean t)
      (fun _ _ => True) fun _ _ => True := by
  refine safe_request (Contract.Safe.bind (Q := fun _ => Entitled t) ?_ fun outcome => ?_)
  · refine Contract.Safe.bind safe_authorizeAdmin fun authorized => ?_
    match authorized with
    | .error refusal => exact fun _ _ hw => entitled_of_clean hw.1
    | .ok channel =>
      have hkept : AdminLocks.Kept (contract (T := T) hash) t fun w => Clean t w ∧ Anchored t c w :=
        kept_clean.and kept_anchored
      refine Contract.Safe.weaken (A := fun w => Clean t w ∧ Anchored t c w) ?_
        fun _ _ hw => ⟨hw.1, hw.2 channel rfl⟩
      refine Contract.Safe.bind (hkept.perform aboutMembers trivial) fun found => ?_
      match found with
      | none => exact fun _ _ hw => entitled_of_clean hw.1
      | some m =>
        show (contract hash).Safe t (if _ then _ else _) _ _ _
        split
        · exact fun _ _ hw => entitled_of_clean hw.1
        · exact Contract.Safe.bind (safe_flushUpdate []
            (fun _ hw => flushing_nil.mpr (entitled_of_clean hw.1)) fun _ _ hw _ => hw.2)
            fun _ _ _ hw => hw.1
  · cases outcome with
    | refused refusal => exact fun _ _ _ => trivial
    | updated m => exact safe_commitReturn
    | noOp m => exact safe_commitReturn

theorem aside_flushUpdate {τ : Tbl} (hτ : τ ≠ .channelMembers) {k : τ.Key} {f : τ.Row → τ.Row} :
    (Py.flushUpdate τ k f).Only Aside :=
  Py.only_flushUpdate (P := Aside) hτ

theorem aside_revokeSessions :
    (revokeSessionsForUser u none (.ret ()) (.ret ())).Only Aside :=
  only_revokeSessionsForUser trivial (fun _ => trivial) (fun _ _ => nofun) trivial trivial

theorem aside_invalidate {sessionId : SessionId} : (invalidateSessionCache sessionId).Only Aside := by
  refine (Prog.only_perform trivial).handle fun e => ?_
  split <;> trivial

theorem safe_deactivate :
    (contract hash).Safe t (deactivate u) (Clean t) (fun _ => Entitled t) fun _ _ => True := by
  refine Contract.Safe.bind safe_runSoleAdminSuccession fun promoted => ?_
  refine Contract.Safe.bind (kept_entitled.only aboutMembers
    (aside_flushUpdate (τ := .users) nofun)) fun _ => ?_
  exact Contract.Safe.bind (kept_entitled.only aboutMembers aside_revokeSessions)
    fun _ _ _ hw => hw

theorem safe_deactivateUser {x : User} :
    (contract hash).Safe t (deactivateUser u x) (Clean t) (fun _ => Entitled t)
      fun _ _ => True := by
  show (contract hash).Safe t (if _ then _ else (if _ then _ else _)) _ _ _
  split
  · exact fun _ _ hw => entitled_of_clean hw
  split
  · have hlock : lockAndCountActiveSystemAdmins.Only Aside :=
      (only_selectForUpdate trivial fun _ => nofun).bind fun _ => trivial
    refine Contract.Safe.bind (kept_clean.only aboutMembers hlock) fun n => ?_
    show (contract hash).Safe t (if _ then _ else _) _ _ _
    split
    · exact fun _ _ hw => entitled_of_clean hw
    · exact safe_deactivate
  · exact safe_deactivate

theorem safe_deactivateRoute :
    (contract hash).Safe t (deactivateUserRoute u) (Clean t) (fun _ _ => True)
      fun _ _ => True := by
  have hget : (getUserOr404 u).Only Aside := by
    refine (Prog.only_perform trivial).bind fun found => ?_
    cases found <;> trivial
  refine safe_request (Contract.Safe.bind (kept_clean.only aboutMembers hget) fun x => ?_)
  refine Contract.Safe.bind safe_deactivateUser fun result => ?_
  cases result with
  | lastActiveSystemAdmin => exact Contract.Safe.bind safe_rollback fun _ _ _ _ => trivial
  | alreadyInactive => exact safe_commitReturn
  | deactivated revoked promoted =>
    refine Contract.Safe.bind safe_commit fun _ => ?_
    exact Contract.Safe.bind (kept_clean.only aboutMembers
      (Prog.only_forEach _ fun _ => aside_invalidate)) fun _ _ _ hw => entitled_of_clean hw

/-- Every request is entitled to what it commits. -/
theorem safe_task (task : Task) :
    (contract hash).Safe t task.program (Clean t) (fun _ _ => True) fun _ _ => True := by
  cases task with
  | join c u => exact Contract.Safe.bind safe_join fun _ _ _ _ => trivial
  | leave c u => exact safe_leave
  | add c caller u role => exact Contract.Safe.bind safe_add fun _ _ _ _ => trivial
  | changeRole c caller u role => exact Contract.Safe.bind safe_changeRole fun _ _ _ _ => trivial
  | remove c caller u => exact safe_remove
  | deactivate u => exact Contract.Safe.bind safe_deactivateRoute fun _ _ _ _ => trivial

/-! ### Refusals -/

/-- The memberships are as they were. -/
def SameMembers (w w' : BackendWorld T) : Prop :=
  ∀ c u, membership w' c u = membership w c u

/-- The request ends with a refusal of its own, or with an exception that one of its awaits
raised. -/
def Excused (t : T) (e : Exc) (w : BackendWorld T) : Prop :=
  e = .httpException 404 ∨ e = .httpException 409 ∨ Contract.Raised t e w

/-- The contract from the moment at which an operation on a channel without an admin starts. -/
abbrev refusing (T : Type) [DecidableEq T] (hash : RawToken → TokenHash) (t : T) :
    Contract (machine T hash) := (contract hash).also t SameMembers

theorem aboutMembers_refusing {t₀ : T} : AboutMembers (refusing T hash t₀) :=
  fun t o r w s hi hs => ⟨hi, (aboutMembers t o r w s hi hs).2,
    fun _ c u => congrFun hs (c, u)⟩

theorem stable_noAdmin : (contract hash).Stable t fun w => ¬ HasAdmin w c := by
  intro w w' _ _ ho h
  cases ho with
  | proc hne hpre hexec hguar => exact fun h' => h (hguar c h')
  | event hpre hexec =>
    cases hexec
    exact h

theorem lockKept_noAdmin {t₀ : T} : LockKept (refusing T hash t₀) t c fun w => ¬ HasAdmin w c where
  stable := stable_noAdmin.also
  locks _ _ _ _ _ hs h h' := h ((hasAdmin_of_committed hs.committed).mp h')

theorem kept_noAdmin {t₀ : T} : AdminLocks.Kept (refusing T hash t₀) t fun w => ¬ HasAdmin w c where
  stable := stable_noAdmin.also
  aside _ _ _ _ hs h h' := h ((hasAdmin_of_committed (by rw [hs])).mp h')

theorem stable_excused {e : Exc} : K.Stable t (Excused t e) :=
  .or (.const _) (.or (.const _) .seen)

/-- Nobody is authorized in a channel without an admin. -/
theorem safe_authorizeAdmin_refused :
    (refusing T hash t).Safe t (authorizeAdmin c caller) (fun w => ¬ HasAdmin w c ∧ Clean t w)
      (fun a _ => a = .error .channelNotFound ∨ a = .error .zeroAdmin) (Excused t) := by
  have hanswer : (refusing T hash t).Safe t (authorizeAdmin c caller)
      (fun w => ¬ HasAdmin w c ∧ Clean t w)
      (fun a _ => a = .error .channelNotFound ∨ a = .error .zeroAdmin) fun _ _ => True := by
    have hkept : AdminLocks.Kept (refusing T hash t) t fun w => ¬ HasAdmin w c ∧ Clean t w :=
      kept_noAdmin.and kept_clean
    refine Contract.Safe.bind (hkept.perform aboutMembers_refusing trivial) fun channel => ?_
    match channel with
    | none => exact fun _ _ _ => .inl rfl
    | some channel =>
      refine Contract.Safe.bind (safe_lockChannelAdminIds aboutMembers_refusing lockKept_noAdmin
        lasting_none) fun ids => ?_
      show (refusing T hash t).Safe t (if _ then _ else (if _ then _ else _)) _ _ _
      split
      · exact fun _ _ _ => .inr rfl
      · rename_i hids
        refine (Contract.safe_false _).weaken fun w _ hw => ?_
        obtain ⟨⟨⟨hno, -⟩, -, hheld⟩, -⟩ := hw
        obtain ⟨x, hx⟩ := List.exists_mem_of_ne_nil ids hids
        exact hno ⟨x, ((hheld x).mpr hx).2⟩
  have hraised : (Contract.free (machine T hash)).Safe t (authorizeAdmin c caller) (fun _ => True)
      (fun _ _ => True) fun e w => Contract.Raised t e w ∨ False := by
    refine Contract.safe_propagates (P := fun _ => True) (X := fun _ => False) ?_ ?_ (.const True)
      fun _ _ _ _ _ h => h
    · refine (Prog.propagates_perform _).bind fun channel => ?_
      cases channel with
      | none => trivial
      | some channel =>
        refine Prog.Propagates.bind (propagates_selectForUpdate.bind fun _ => trivial) fun ids => ?_
        show Prog.Propagates _ (if _ then _ else (if _ then _ else _))
        split
        · trivial
        split <;> trivial
    · refine (Prog.only_perform trivial).bind fun channel => ?_
      cases channel with
      | none => trivial
      | some channel =>
        refine Prog.Only.bind ((only_selectForUpdate trivial fun _ => trivial).bind fun _ => trivial)
          fun ids => ?_
        show Prog.Only _ (if _ then _ else (if _ then _ else _))
        split
        · trivial
        split <;> trivial
  exact (hanswer.and_free hraised).mono (fun _ _ hw => ⟨hw, trivial⟩) (fun _ _ _ hw => hw.1)
    fun _ _ _ hw => .inr (.inr (hw.2.resolve_right id))

/-- What follows the authorization does not take place. -/
theorem safe_unauthorized {α : Type} {f : Except Refusal Channel → Py α} {refused : Refusal → α}
    (hf : ∀ refusal, f (.error refusal) = .ret (refused refusal)) :
    (refusing T hash t).Safe t ((authorizeAdmin c caller).bind f)
      (fun w => ¬ HasAdmin w c ∧ Clean t w)
      (fun b _ => b = refused .channelNotFound ∨ b = refused .zeroAdmin) (Excused t) := by
  refine Contract.Safe.bind safe_authorizeAdmin_refused fun a => ?_
  cases a with
  | error refusal =>
    rw [hf]
    exact fun _ _ hw => hw.imp (fun he => by cases he; rfl) (fun he => by cases he; rfl)
  | ok channel =>
    refine (Contract.safe_false _).weaken fun w _ hw => ?_
    rcases hw with he | he <;> cases he

theorem safe_rollback_excused {e : Exc} :
    (refusing T hash t).Safe t Py.rollback (Excused t e) (fun _ => Excused t e) (Excused t) := by
  refine Contract.Safe.perform (fun _ => stable_excused) (fun _ => stable_excused)
    fun w ch r s hi hw _ h => ?_
  have hs : (s.db .channelMembers).committed = (w.state.db .channelMembers).committed :=
    exec_committed_db (o := .sql .rollback) nofun h .channelMembers
  obtain ⟨hi', hg⟩ := aboutMembers_refusing t (.sql .rollback) r w s hi hs
  refine ⟨hi', hg, ?_⟩
  cases r with
  | ok a =>
    exact hw.imp_right (Or.imp_right fun ⟨x, hx, hproc⟩ => ⟨x, List.mem_cons_of_mem _ hx, hproc⟩)
  | error e' => exact .inr (.inr ⟨_, List.mem_cons_self, rfl, _, rfl⟩)

/-- The route raises what it was refused with. -/
theorem safe_refusedRoute {α β : Type} {body : Py α} {g : α → Py β} (refused : Refusal → α)
    (hbody : (refusing T hash t).Safe t body (fun w => ¬ HasAdmin w c ∧ Clean t w)
      (fun b _ => b = refused .channelNotFound ∨ b = refused .zeroAdmin) (Excused t))
    (hg : ∀ refusal, g (refused refusal) = .raise (.httpException refusal.status)) :
    (refusing T hash t).Safe t (Py.getDbSession (body.bind g))
      (fun w => ¬ HasAdmin w c ∧ Clean t w) (fun _ _ => False) (Excused t) := by
  refine Py.safe_getDbSession (Q := fun _ _ => False) (R := Excused t) ?_
    (fun _ => Contract.safe_false _) fun e => Py.safe_closeSession_raised fun _ =>
      safe_rollback_excused
  refine Contract.Safe.bind hbody fun b => ?_
  refine (Contract.Safe.const (A := fun _ => True) fun hb => ?_).weaken
    fun w _ hw => ⟨trivial, hw⟩
  rcases hb with rfl | rfl
  · rw [hg]
    exact fun _ _ _ => .inl rfl
  · rw [hg]
    exact fun _ _ _ => .inr (.inl rfl)

theorem safe_refused {task : Task} (hc : task.managed = some c) :
    (refusing T hash t).Safe t task.program (fun w => ¬ HasAdmin w c ∧ Clean t w)
      (fun _ _ => False) (Excused t) := by
  cases task with
  | add c' caller u role =>
    cases hc
    exact Contract.Safe.bind (safe_refusedRoute AddMemberOutcome.refused
      (safe_unauthorized fun _ => rfl) fun _ => rfl) fun _ => Contract.safe_false _
  | changeRole c' caller u role =>
    cases hc
    exact Contract.Safe.bind (safe_refusedRoute ChangeRoleOutcome.refused
      (safe_unauthorized fun _ => rfl) fun _ => rfl) fun _ => Contract.safe_false _
  | remove c' caller u =>
    cases hc
    exact safe_refusedRoute RemoveMemberOutcome.refused
      (safe_unauthorized fun _ => rfl) fun _ => rfl
  | join c' u => cases hc
  | leave c' u => cases hc
  | deactivate u => cases hc

/-! ### The result -/

abbrev MembershipPool (T : Type) : Type := Pool T Op Op.Res Exc Unit (State T)

/-- Before the first request: no transaction on the memberships. -/
structure Start (task : T → Task) (p : MembershipPool T) : Prop where
  prog : ∀ t, p.prog t = (task t).program
  hold : ∀ k, (p.world.state.db .channelMembers).hold k = none

omit [DecidableEq T] in
theorem Start.clean {p : MembershipPool T} (h : Start task p) (t : T) : Clean t p.world := by
  intro k v hv
  rw [h.hold] at hv
  cases hv

theorem Start.sound {p : MembershipPool T} (h : Start task p) (hash : RawToken → TokenHash) :
    (contract hash).Sound (fun _ _ _ => True) (fun _ _ _ => True) p where
  inv := trivial
  safe t := ⟨Clean t, stable_clean, h.clean t, by rw [h.prog]; exact safe_task (task t)⟩

/-- No run gives an admin to a channel without one. -/
theorem hasAdmin_of_run {Q : T → Unit → BackendWorld T → Prop} {R : T → Exc → BackendWorld T → Prop}
    {p q : MembershipPool T} {ls : List (Label T Choice Tick)} (h : (contract hash).Sound Q R p)
    (hr : (machine T hash).run p ls = some q) (hq : HasAdmin q.world c) : HasAdmin p.world c := by
  refine h.run_rel (S := fun w w' => HasAdmin w' c → HasAdmin w c) (fun _ => id)
    (fun _ _ _ h h' hq => h (h' hq)) (fun t o r w w' _ _ hg => ?_) (fun e w s hs => ?_) eventsOk
    (Machine.meets_always ls) hr hq
  · exact hg c
  · cases hs
    exact id

/-- **No admin, once and for all.** In every interleaving of joins, leaves, additions, changes of
role, removals and deactivations: when a channel has no admin it never has one again, and an
addition, a change of role or a removal on it that has not started by then does not return, raises
the 404 or 409 that it was refused with or an exception that an await raised, and changes no
committed membership in any of its steps. -/
theorem zero_admins_absorbing {p₀ p q : MembershipPool T} {ls ls' : List (Label T Choice Tick)}
    (h₀ : Start task p₀) (hp : (machine T hash).run p₀ ls = some p) (hc : ¬ HasAdmin p.world c)
    (hq : (machine T hash).run p ls' = some q) :
    ¬ HasAdmin q.world c ∧
      ∀ t, (task t).managed = some c → p.world.own t = [] →
        (∀ a, q.prog t ≠ .ret a) ∧ (∀ e, q.prog t = .raise e → Excused t e q.world) ∧
          ∀ ch q', (machine T hash).step q (.proc t ch) = some q' →
            SameMembers q.world q'.world := by
  have hmid := (h₀.sound hash).run eventsOk (Machine.meets_always ls) hp
  refine ⟨fun h => hc (hasAdmin_of_run hmid hq h), fun t ht hown => ?_⟩
  obtain ⟨hprog, hclean⟩ := (h₀.sound hash).unstarted eventsOk stable_clean (h₀.clean t)
    (Machine.meets_always ls) hp hown
  have hnow : (refusing T hash t).Safe t (p.prog t) (fun w => ¬ HasAdmin w c ∧ Clean t w)
      (fun _ _ => False) (Excused t) := by
    rw [hprog, h₀.prog]
    exact safe_refused ht
  have hstable : (contract hash).Stable t fun w => ¬ HasAdmin w c ∧ Clean t w :=
    stable_noAdmin.and stable_clean
  have hend := (hmid.focus_also hstable ⟨hc, hclean⟩ hnow).run (fun _ _ _ _ _ _ => trivial)
    (Machine.meets_always ls') hq
  refine ⟨fun a ha => ?_, fun e he => ?_, fun ch q' hs => ?_⟩
  · have hfalse := hend.ret ha
    rw [Function.update_self] at hfalse
    exact hfalse
  · have hexcused := hend.raise he
    rw [Function.update_self] at hexcused
    exact hexcused
  · obtain ⟨o, k, r, s, -, -, -, -, hsame⟩ := hend.guar (by intro _ _ _; trivial) hs
    exact hsame rfl

/-! ### The last admin leaves -/

def leaveThenAdd : Bool → Task
  | false => .leave 1 10
  | true => .add 1 10 20 .admin

/-- User 10, the only member and admin of channel 1, leaves, and then asks for user 20 to be made an
admin of it. -/
def lastAdminLeaves : MembershipPool Bool where
  world := ⟨State.ofRows fun
    | .channels => [(1, ⟨['a'], false, 10, 0⟩)]
    | .channelMembers => [((1, 10), ⟨.admin, 0⟩)]
    | _ => [], []⟩
  prog t := (leaveThenAdd t).program

theorem lastAdminLeaves_start : Start leaveThenAdd lastAdminLeaves where
  prog _ := rfl
  hold _ := rfl

/-- `k` awaits of request `t`. -/
def awaits (t : Bool) (k : ℕ) : List (Label Bool Choice Tick) :=
  List.replicate k (.proc t (.ok [] 1))

/-- The leave has committed; the addition is answered with 409. -/
theorem zero_admins_absorbing_left :
    ∃ p q, (machine Bool id).run lastAdminLeaves (awaits false 8) = some p ∧
      (machine Bool id).run p (awaits true 4) = some q ∧
      ¬ HasAdmin p.world 1 ∧ ¬ HasAdmin q.world 1 ∧
      q.prog true = .raise (.httpException 409) ∧ Excused true (.httpException 409) q.world := by
  obtain ⟨p, hp⟩ := Option.isSome_iff_exists.mp
    (show ((machine Bool id).run lastAdminLeaves (awaits false 8)).isSome = true by decide)
  have hleft : ((machine Bool id).run lastAdminLeaves (awaits false 8)).all (fun p =>
      (p.world.state.db .channelMembers).keys.all (fun k =>
        ((p.world.state.db .channelMembers).committed k).isNone) && (p.world.own true).isEmpty) =
      true := by decide
  rw [hp, Option.all_some, Bool.and_eq_true, List.all_eq_true, List.isEmpty_iff] at hleft
  obtain ⟨hnone, hown⟩ := hleft
  have hno : ¬ HasAdmin p.world 1 := by
    intro ⟨u, m, hm, _⟩
    have hkey := hnone (1, u) (Table.mem_keys_of_committed hm)
    rw [Option.isNone_iff_eq_none] at hkey
    exact nomatch hkey.symm.trans hm
  have hrun : ∃ q, (machine Bool id).run p (awaits true 4) = some q ∧
      q.prog true = .raise (.httpException 409) := by
    cases hp
    exact ⟨_, rfl, rfl⟩
  obtain ⟨q, hq, hraise⟩ := hrun
  obtain ⟨hlast, hrefused⟩ := zero_admins_absorbing lastAdminLeaves_start hp hno hq
  obtain ⟨-, hexcused, -⟩ := hrefused true rfl hown
  exact ⟨p, q, hp, hq, hno, hlast, hraise, hexcused _ hraise⟩

end Chatspace.ZeroAdmins
