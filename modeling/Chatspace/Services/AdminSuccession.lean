import Chatspace.Services.AdminLocks

/-!
# Departures of admins among other changes of membership

Joins, leaves, additions, removals and changes of role on any channels, step by step in any order.
A departure reads the role of the departing member, locks the admins, looks for a successor if
there is only one, and deletes the membership; the role is read, and the successor found, under no
lock.

* `undisturbed` — an admin's row is deleted under its lock only, and what the query for a successor
  found is still so when the departure commits;
* `admin_remains` — **then no commit but a demotion leaves a channel with members and no admin**;
* `admin_lost` — a member joins while the only member leaves.
-/

namespace Chatspace.AdminSuccession

open Interleave Store Channels AdminLocks

/-- One request. -/
inductive Task where
  | join (channelId : ChannelId) (userId : UserId)
  | leave (channelId : ChannelId) (userId : UserId)
  | add (channelId : ChannelId) (callerId userId : UserId) (role : ChannelMemberRole)
  | changeRole (channelId : ChannelId) (callerId userId : UserId) (role : ChannelMemberRole)
  | remove (channelId : ChannelId) (callerId userId : UserId)

def Task.program : Task → Py Unit
  | .join c u => (joinChannelRoute c u).bind fun _ => .ret ()
  | .leave c u => leaveChannelRoute c u
  | .add c caller u role => (addChannelMemberRoute c caller u role).bind fun _ => .ret ()
  | .changeRole c caller u role =>
    (updateChannelMemberRoleRoute c caller u role).bind fun _ => .ret ()
  | .remove c caller u => removeChannelMemberRoute c caller u

/-- The membership that a leave or a removal ends. -/
def Task.departing : Task → Option (ChannelId × UserId)
  | .leave c u => some (c, u)
  | .remove c _ u => some (c, u)
  | _ => none

/-- An explicit demotion. -/
def Task.demotes : Task → Bool
  | .changeRole _ _ _ .member => true
  | _ => false

variable {T : Type} [DecidableEq T] {hash : RawToken → TokenHash} {task : T → Task} {t : T}
  {w w' : BackendWorld T} {c : ChannelId} {u : UserId}

def HasAdmin (w : BackendWorld T) (c : ChannelId) : Prop := ∃ u, Admin w c u

def HasMember (w : BackendWorld T) (c : ChannelId) : Prop := ∃ u m, membership w c u = some m

/-- The rows that transaction `t` found when it looked for a successor of the departing user: the
query is the one that leaves the departing user out. -/
def successorsFound (t : T) (c : ChannelId) (u : UserId) :
    Entry T Op Op.Res Exc → Option (List ((ChannelId × UserId) × ChannelMember))
  | ⟨p, .sql (.select .channelMembers q), .ok rows⟩ =>
    if p = t ∧ q (c, u) ⟨.admin, 0⟩ = false then some rows else none
  | _ => none

/-- What a departure found when it looked for a successor is still so: there is nobody to promote,
or whoever was an admin already is one. -/
def StillFound (t : T) (c : ChannelId) (u : UserId) (w : BackendWorld T) : Prop :=
  ∀ e ∈ w.trace, ∀ rows ∈ successorsFound t c u e,
    (longestStanding rows = none →
      ∀ k ∈ (w.state.db .channelMembers).keys, k.1 = c → k.2 ≠ u → membership w k.1 k.2 = none) ∧
    ∀ v ∈ longestStanding rows, v.2.role = .admin → Admin w c v.1

instance : Decidable (StillFound t c u w) := by
  unfold StillFound
  infer_instance

/-- A departure deletes an admin's row only if it holds the row, and commits only while what it
found of a successor is still so. -/
abbrev undisturbed (task : T → Task) :
    Machine.Condition T Op Op.Res Exc Choice Tick (State T) where
  op t o _ w :=
    (∀ k ∈ o.deleted .channelMembers,
      Admin w k.1 k.2 → (w.state.db .channelMembers).Holds t k) ∧
    (o.isCommit = true → ∀ d ∈ (task t).departing, StillFound t d.1 d.2 w)
  event _ _ := True

/-- Nobody but a demotion leaves a channel that has an admin with members only. -/
def contract (hash : RawToken → TokenHash) (task : T → Task) : Contract (machine T hash) where
  inv _ := True
  pre := undisturbed task
  guar t _ _ w w' := (task t).demotes = false → ∀ c, HasAdmin w c → HasMember w' c → HasAdmin w' c

theorem aboutMembers : AboutMembers (contract hash task) := by
  intro t o r w s _ hs
  refine ⟨trivial, fun _ c ⟨u, m, hm, hrole⟩ _ => ⟨u, m, ?_, hrole⟩⟩
  exact (congrFun hs (c, u)).trans hm

/-! ### What a departure knows -/

/-- The transaction holds another row of the channel in which it sees an admin. -/
def Secured (t : T) (c : ChannelId) (u : UserId) (w : BackendWorld T) : Prop :=
  ∃ x, x ≠ u ∧ (w.state.db .channelMembers).Holds t (c, x) ∧
    ∃ m, (w.state.db .channelMembers).view t (c, x) = some m ∧ m.role = .admin

/-- The transaction looked for a successor, and found nobody who is not an admin already. -/
def Consulted (t : T) (c : ChannelId) (u : UserId) (w : BackendWorld T) : Prop :=
  ∃ e ∈ w.trace, ∃ rows ∈ successorsFound t c u e,
    ∀ v ∈ longestStanding rows, v.1 ≠ u ∧ v.2.role = .admin

def Decided (t : T) (c : ChannelId) (u : UserId) (w : BackendWorld T) : Prop :=
  Secured t c u w ∨ Consulted t c u w

/-- The transaction has written nothing but promotions of others in the channel, and if it holds
the departing member as an admin then the succession is decided. -/
structure Departing (t : T) (c : ChannelId) (u : UserId) (w : BackendWorld T) : Prop where
  promoted : ∀ k v, (w.state.db .channelMembers).hold k = some ⟨t, some v⟩ →
    k.1 = c ∧ k.2 ≠ u ∧ ∃ m, v = some m ∧ m.role = .admin
  decided : Held t c u w → Decided t c u w

/-- The same, with the departing member deleted. -/
structure Departed (t : T) (c : ChannelId) (u : UserId) (w : BackendWorld T) : Prop where
  promoted : ∀ k v, (w.state.db .channelMembers).hold k = some ⟨t, some v⟩ →
    k.1 = c ∧ ((k.2 = u ∧ v = none) ∨ ∃ m, v = some m ∧ m.role = .admin)
  decided : Held t c u w → Decided t c u w

/-- No version that the transaction has written demotes or deletes an admin. -/
def Harmless (t : T) (w : BackendWorld T) : Prop :=
  ∀ k v, (w.state.db .channelMembers).hold k = some ⟨t, some v⟩ →
    ∃ m, v = some m ∧ (m.role = .admin ∨ ¬ Admin w k.1 k.2)

/-- What a transaction may commit. -/
def Fit (task : T → Task) (t : T) (w : BackendWorld T) : Prop :=
  (∃ d, (task t).departing = some d ∧ Departed t d.1 d.2 w) ∨ Harmless t w

omit [DecidableEq T] in
theorem harmless_of_clean (h : Clean t w) : Harmless t w := fun k v hv => absurd hv (h k v)

variable {K : Contract (machine T hash)}

theorem stable_secured : K.Stable t (Secured t c u) := by
  rintro w w' - - ho ⟨x, hx, hh, m, hm, hr⟩
  have hkeeps := other_keeps ho .channelMembers
  exact ⟨x, hx, hkeeps.holds.mp hh, m, (hkeeps.view hh).trans hm, hr⟩

theorem stable_consulted : K.Stable t (Consulted t c u) := by
  rintro w w' - - ho ⟨e, he, h⟩
  cases ho with
  | proc hne hpre hexec hguar => exact ⟨e, List.mem_cons_of_mem _ he, h⟩
  | event hpre hexec => exact ⟨e, he, h⟩

theorem stable_decided : K.Stable t fun w => Held t c u w → Decided t c u w :=
  fun w w' hi hi' ho h hh => (stable_secured.or stable_consulted) w w' hi hi' ho
    (h ((held_other ho).mp hh))

theorem stable_departed : K.Stable t (Departed t c u) :=
  fun w w' hi hi' ho h => ⟨fun k v hv => h.promoted k v
    (((other_keeps ho .channelMembers).hold k _).mpr hv), stable_decided w w' hi hi' ho h.decided⟩

theorem stable_harmless : K.Stable t (Harmless t) := by
  intro w w' _ _ ho h k v hv
  have hkeeps := other_keeps ho .channelMembers
  have hv' := (hkeeps.hold k _).mpr hv
  obtain ⟨m, hm, hr | hn⟩ := h k v hv'
  · exact ⟨m, hm, .inl hr⟩
  · refine ⟨m, hm, .inr fun ha => hn ?_⟩
    exact ((held_other ho).mp ⟨⟨_, hv⟩, ha⟩).2

theorem stable_fit : K.Stable t (Fit task t) :=
  (Contract.Stable.exists fun _ => (Contract.Stable.const _).and stable_departed).or stable_harmless

/-! ### Commits -/

theorem clean_release {s : State T} {o : Op} {r : Except Exc o.Res}
    (h : (s.db .channelMembers).hold = (w.state.db .channelMembers).release t) :
    Clean t (w.after t o r s) :=
  fun _ v hv => Table.not_holds_release h ⟨some v, hv⟩

/-- A transaction that demotes nobody leaves the admins there are. -/
theorem admin_of_harmless (h : Harmless t w) (ha : Admin w c u) :
    ∃ m, (w.state.db .channelMembers).view t (c, u) = some m ∧ m.role = .admin := by
  obtain hv | ⟨v, hhold, hv⟩ := (w.state.db .channelMembers).view_cases t (c, u)
  · obtain ⟨m, hm, hr⟩ := ha
    exact ⟨m, hv.trans hm, hr⟩
  · obtain ⟨m, rfl, hr | hn⟩ := h _ v hhold
    · exact ⟨m, hv, hr⟩
    · exact absurd ha hn

/-- A departure that commits while what it found is still so leaves an admin, or nobody. -/
theorem admin_of_departed {c' : ChannelId} (h : Departed t c u w) (hfound : StillFound t c u w)
    (ha : HasAdmin w c')
    (hm : ∃ x m, (w.state.db .channelMembers).view t (c', x) = some m) :
    ∃ x m, (w.state.db .channelMembers).view t (c', x) = some m ∧ m.role = .admin := by
  obtain ⟨y, m, hy, hr⟩ := ha
  obtain hv | ⟨v, hhold, hv⟩ := (w.state.db .channelMembers).view_cases t (c', y)
  · exact ⟨y, m, hv.trans hy, hr⟩
  obtain ⟨rfl, ⟨rfl, rfl⟩ | ⟨m', rfl, hr'⟩⟩ := h.promoted _ v hhold
  · -- the departing member is an admin
    obtain ⟨x, -, -, hsec⟩ | ⟨e, he, rows, hrows, hcons⟩ := h.decided ⟨⟨_, hhold⟩, m, hy, hr⟩
    · exact ⟨x, hsec⟩
    obtain ⟨hnobody, hadmin⟩ := hfound e he rows hrows
    cases hfirst : longestStanding rows with
    | none =>
      obtain ⟨z, mz, hz⟩ := hm
      obtain hzv | ⟨vz, hzhold, hzv⟩ := (w.state.db .channelMembers).view_cases t (c', z)
      · have hzy : z ≠ y := by
          rintro rfl
          rw [hv] at hz
          cases hz
        have hkey : (c', z) ∈ (w.state.db .channelMembers).keys := Table.mem_keys_of_view hz
        have hnone := hnobody hfirst _ hkey rfl hzy
        exact nomatch hnone.symm.trans (hzv.symm.trans hz)
      · obtain ⟨-, ⟨rfl, rfl⟩ | ⟨m', rfl, hr'⟩⟩ := h.promoted _ vz hzhold
        · exact nomatch hzv.symm.trans hz
        · exact ⟨z, m', hzv, hr'⟩
    | some v =>
      obtain ⟨hne, hrole⟩ := hcons v hfirst
      obtain ⟨mv, hmv, hrv⟩ := hadmin v hfirst hrole
      obtain hvv | ⟨pv, hvhold, hvv⟩ := (w.state.db .channelMembers).view_cases t (c', v.1)
      · exact ⟨v.1, mv, hvv.trans hmv, hrv⟩
      · obtain ⟨-, ⟨he, -⟩ | ⟨m', rfl, hr'⟩⟩ := h.promoted _ pv hvhold
        · exact absurd he hne
        · exact ⟨v.1, m', hvv, hr'⟩
  · exact ⟨y, m', hv, hr'⟩

theorem safe_commit :
    (contract hash task).Safe t Py.commit (Fit task t) (fun _ => Fit task t) fun _ _ => True := by
  refine Contract.Safe.perform (fun _ => stable_fit) (fun _ => .const True)
    fun w ch r s hi hw hp h => ?_
  obtain ⟨d, hd, rfl⟩ := exec_sql h
  obtain ⟨rfl, hr⟩ | ⟨rfl, rfl⟩ := exec_commit hd
  · obtain ⟨hi', hg⟩ := aboutMembers t (.sql .commit) r w w.state hi rfl
    refine ⟨hi', hg, ?_⟩
    cases r with
    | ok a => exact absurd rfl hr
    | error e => trivial
  refine ⟨trivial, fun _ c' ha hm => ?_, .inr (harmless_of_clean (clean_release rfl))⟩
  obtain ⟨⟨c, u⟩, hdep, hdeparted⟩ | hharm := hw
  · exact admin_of_departed hdeparted (hp.2 rfl (c, u) hdep) ha hm
  · obtain ⟨x, hx⟩ := ha
    exact ⟨x, admin_of_harmless hharm hx⟩

theorem safe_rollback : (contract hash task).Safe t Py.rollback (fun _ => True)
    (fun _ => Clean t) fun _ _ => True := by
  refine Contract.Safe.perform (fun _ => stable_clean) (fun _ => .const True)
    fun w ch r s hi _ _ h => ?_
  obtain ⟨d, hd, rfl⟩ := exec_sql h
  obtain ⟨rfl, hr⟩ | ⟨rfl, rfl⟩ := exec_rollback hd
  · obtain ⟨hi', hg⟩ := aboutMembers t (.sql .rollback) r w w.state hi rfl
    refine ⟨hi', hg, ?_⟩
    cases r with
    | ok a => exact absurd rfl hr
    | error e => trivial
  · obtain ⟨hi', hg⟩ := aboutMembers t (.sql .rollback) (.ok ()) w
      { w.state with db := w.state.db.rollback t } hi rfl
    exact ⟨hi', hg, clean_release rfl⟩

theorem safe_request {α : Type} {body : Py α} {A : BackendWorld T → Prop}
    (h : (contract hash task).Safe t body A (fun _ => Fit task t) fun _ _ => True) :
    (contract hash task).Safe t (Py.getDbSession body) A (fun _ _ => True) fun _ _ => True :=
  Chatspace.safe_request safe_commit
    (safe_rollback.mono (fun _ _ _ => trivial) (fun _ _ _ hw => .inr (harmless_of_clean hw))
      fun _ _ _ hw => hw)
    (safe_rollback.mono (fun _ _ hw => hw) (fun _ _ _ _ => trivial) fun _ _ _ hw => hw) h

/-! ### The succession -/

theorem departing_of_clean (h : Clean t w) (hd : Held t c u w → Decided t c u w) :
    Departing t c u w := ⟨fun k v hv => absurd hv (h k v), hd⟩

/-- The role read without a lock: if the row was not an admin's then it is not held as one. -/
theorem safe_getMembership :
    (contract hash task).Safe t (getMembership c u) (Clean t)
      (fun found w => Clean t w ∧ ∀ m ∈ found, m.role ≠ .admin → ¬ Held t c u w)
      fun _ _ => True := by
  refine Contract.Safe.perform (fun found => stable_clean.and ?_) (fun _ => .const True)
    fun w ch r s hi hw _ h => ?_
  · exact fun w w' _ _ ho h m hm hr hh => h m hm hr ((held_other ho).mp hh)
  obtain ⟨d, hd, rfl⟩ := exec_sql h
  obtain ⟨rfl, hr⟩ := exec_get hd
  obtain ⟨hi', hg⟩ := aboutMembers t (.sql (.get .channelMembers (c, u))) r w w.state hi rfl
  refine ⟨hi', hg, ?_⟩
  cases r with
  | error e => trivial
  | ok found =>
    refine ⟨hw, fun m hm hrole ⟨_, m', hm', hrole'⟩ => hrole ?_⟩
    have hview := hr found rfl
    rw [view_of_clean hw] at hview
    have hmm : some m = some m' := (hm.symm.trans hview).trans hm'
    exact Option.some.inj hmm ▸ hrole'

theorem secured_of_held {x : UserId} (h : Clean t w) (hx : x ≠ u) (hh : Held t c x w) :
    Secured t c u w := by
  obtain ⟨hholds, m, hm, hr⟩ := hh
  exact ⟨x, hx, hholds, m, (view_of_clean h _).trans hm, hr⟩

/-- A successor was found and is about to be promoted, or the succession is decided. -/
def Found (t : T) (c : ChannelId) (u : UserId)
    (found : Option (ChannelId × UserId × ChannelMember)) (w : BackendWorld T) : Prop :=
  Clean t w ∧ (∀ s ∈ found, s.1 = c ∧ s.2.1 ≠ u) ∧
    (Held t c u w → Decided t c u w ∨ ∃ s ∈ found, s.2.2.role ≠ .admin)

theorem stable_found {found : Option (ChannelId × UserId × ChannelMember)} :
    K.Stable t (Found t c u found) := by
  refine stable_clean.and ((Contract.Stable.const _).and fun w w' hi hi' ho h hh => ?_)
  exact (h ((held_other ho).mp hh)).imp_left
    ((stable_secured.or stable_consulted) w w' hi hi' ho)

theorem safe_successorIn :
    (contract hash task).Safe t (successorIn u c) (Clean t) (Found t c u) fun _ _ => True := by
  refine Contract.Safe.bind ((safe_lockChannelAdminIds aboutMembers lockKept_true
    lasting_none).weaken fun _ _ hw => ⟨trivial, hw⟩) fun ids => ?_
  show (contract hash task).Safe t (if _ then _ else _) _ _ _
  split
  · rename_i hlen
    rintro w - ⟨⟨⟨-, hclean⟩, hdistinct, hheld⟩, -⟩
    refine ⟨hclean, nofun, fun hh => .inl (.inl ?_)⟩
    -- the departing admin is among the locked ones, and there is another
    have hu : u ∈ ids := (hheld u).mp hh
    obtain ⟨x, hx, hxu⟩ := exists_ne_of_mem hdistinct hu hlen
    exact secured_of_held hclean hxu ((hheld x).mpr hx)
  · refine Contract.Safe.weaken (A := fun w => True ∧ Clean t w) ?_ fun w _ hw => ⟨trivial, hw.1.1.2⟩
    refine Contract.Safe.bind (safe_findSuccessor aboutMembers
      (B := fun found w => Found t c u (found.map fun s => (c, s)) w) (fun _ => stable_found)
      fun w rows _ hclean hrows => ?_) fun found _ _ hw => hw
    have hquery : rows ∈ successorsFound t c u (⟨t, .sql (.select .channelMembers
        fun k _ => decide (k.1 = c) && decide (k.2 ≠ u)), .ok rows⟩ : Entry T Op Op.Res Exc) := by
      simp [successorsFound]
    refine ⟨hclean, fun s hs => ?_, fun _ => ?_⟩
    · obtain ⟨v, hv, rfl⟩ := Option.map_eq_some_iff.mp hs
      obtain ⟨k, hk, hkv, -⟩ := longestStanding_eq_some hv
      exact ⟨rfl, hkv ▸ ((hrows k v.2).mp hk).2.2⟩
    · by_cases hrole : ∀ v ∈ longestStanding rows, v.2.role = .admin
      · refine .inl (.inr ⟨_, List.mem_cons_self, rows, hquery, fun v hv => ⟨?_, hrole v hv⟩⟩)
        obtain ⟨k, hk, hkv, -⟩ := longestStanding_eq_some hv
        exact hkv ▸ ((hrows k v.2).mp hk).2.2
      · push Not at hrole
        obtain ⟨v, hv, hne⟩ := hrole
        exact .inr ⟨(c, v), Option.map_eq_some_iff.mpr ⟨v, hv, rfl⟩, hne⟩

/-- The flush of the promotions. -/
def Flushing (t : T) (c : ChannelId) (u : UserId) (ks : List (ChannelId × UserId))
    (w : BackendWorld T) : Prop :=
  (∀ k v, (w.state.db .channelMembers).hold k = some ⟨t, some v⟩ →
    k.1 = c ∧ k.2 ≠ u ∧ ∃ m, v = some m ∧ m.role = .admin) ∧
  (∀ k ∈ ks, k.1 = c ∧ k.2 ≠ u) ∧ (Held t c u w → Decided t c u w ∨ ks ≠ [])

theorem stable_flushing {ks : List (ChannelId × UserId)} : K.Stable t (Flushing t c u ks) :=
  fun w w' hi hi' ho h => ⟨fun k v hv => h.1 k v (((other_keeps ho .channelMembers).hold k _).mpr hv),
    h.2.1, fun hh => (h.2.2 ((held_other ho).mp hh)).imp_left
      ((stable_secured.or stable_consulted) w w' hi hi' ho)⟩

theorem safe_flushSuccessor {k : ChannelId × UserId} {ks : List (ChannelId × UserId)} :
    (contract hash task).Safe t (Py.flushUpdate .channelMembers k promote)
      (Flushing t c u (k :: ks)) (fun _ => Flushing t c u ks) fun _ _ => True := by
  refine Contract.Safe.await (fun matched w => matched = true → Flushing t c u ks w)
    (fun _ => .imp fun _ => stable_flushing) (fun _ => .const True)
    (fun w ch r s hi hw _ h => ?_) fun matched => ?_
  · obtain ⟨d, hd, rfl⟩ := exec_sql h
    obtain ⟨rfl, hr⟩ | ⟨m, -, -, -, hset, rfl⟩ := exec_update hd
    · obtain ⟨hi', hg⟩ := aboutMembers t (.sql (.update .channelMembers k (fun _ => true) promote)) r
        w w.state hi rfl
      refine ⟨hi', hg, ?_⟩
      cases r with
      | ok a => exact fun ha => absurd (ha ▸ rfl) hr
      | error e => trivial
    have hwrite : d .channelMembers =
        (w.state.db .channelMembers).write t k (some (promote m)) := by
      rw [hset]
      exact Db.set_self ..
    obtain ⟨hpromoted, hks, hdecided⟩ := hw
    obtain ⟨rfl, hku⟩ := hks k List.mem_cons_self
    obtain ⟨hi', hg⟩ := aboutMembers t (.sql (.update .channelMembers k (fun _ => true) promote))
      (.ok true) w { w.state with db := d } hi (by
        show (d .channelMembers).committed = _
        rw [hwrite]
        rfl)
    refine ⟨hi', hg, fun _ => ⟨fun j v hv => ?_, fun j hj => hks j (List.mem_cons_of_mem _ hj),
      fun _ => .inl (.inl ⟨k.2, hku, ?_⟩)⟩⟩
    · change (d .channelMembers).hold j = _ at hv
      rw [hwrite] at hv
      by_cases hj : j = k
      · subst hj
        rw [Table.hold_write_self] at hv
        cases hv
        exact ⟨rfl, hku, promote m, rfl, rfl⟩
      · rw [Table.hold_write_of_ne hj] at hv
        exact hpromoted j v hv
    · show (d .channelMembers).Holds t k ∧ ∃ m', (d .channelMembers).view t k = some m' ∧ _
      rw [hwrite]
      exact ⟨Table.holds_put_self, promote m, Table.view_write_self, rfl⟩
  · cases matched with
    | true => exact fun _ _ hw => hw rfl
    | false => exact fun _ _ _ => trivial

theorem safe_flushSuccessors {found : Option (ChannelId × UserId × ChannelMember)} :
    (contract hash task).Safe t (flushSuccessors found.toList) (Found t c u found)
      (fun _ => Departing t c u) fun _ _ => True := by
  refine Contract.Safe.bind ((Contract.Safe.forEach (I := fun ks (_ : List Unit) =>
    Flushing t c u ks) (fun k ks bs => safe_flushSuccessor) _ []).weaken
      fun w _ hw => ?_) fun _ w _ hw => ?_
  · obtain ⟨hclean, hfound, hdecided⟩ := hw
    refine ⟨fun k v hv => absurd hv (hclean k v), fun k hk => ?_, fun hh => ?_⟩
    · rw [List.mem_insertionSort] at hk
      obtain ⟨s, hs, rfl⟩ := List.mem_map.mp hk
      exact hfound s (Option.mem_toList.mp (List.mem_of_mem_filter hs))
    · refine (hdecided hh).imp_right fun ⟨s, hs, hrole⟩ hnil => ?_
      have hmem : (s.1, s.2.1) ∈ ((found.toList.filter fun s => s.2.2.role ≠ .admin).map
          fun s => (s.1, s.2.1)).insertionSort fun j k => j.1 < k.1 ∨ (j.1 = k.1 ∧ j.2 ≤ k.2) := by
        rw [List.mem_insertionSort]
        refine List.mem_map.mpr ⟨s, List.mem_filter.mpr ⟨Option.mem_toList.mpr hs, ?_⟩, rfl⟩
        simpa using hrole
      rw [hnil] at hmem
      cases hmem
  · exact ⟨hw.1, fun hh => (hw.2.2 hh).resolve_right fun h => h rfl⟩

/-- The succession in the channel of the departure: its query finds the membership or nothing. -/
theorem safe_runSoleAdminSuccession :
    (contract hash task).Safe t (runSoleAdminSuccession u (some c)) (Clean t)
      (fun _ => Departing t c u) fun _ _ => True := by
  refine Contract.Safe.await (fun rows w => (Clean t w ∧ (Held t c u w → rows ≠ [])) ∧
    (rows.map Prod.fst = [] ∨ rows.map Prod.fst = [(c, u)]))
    (fun rows => (stable_clean.and stable_held).and (.const _))
    (fun _ => .const True) (fun w ch r s hi hw _ h => ?_) fun rows => ?_
  · obtain ⟨d, hd, rfl⟩ := exec_sql h
    obtain ⟨rfl, hperm⟩ := exec_select hd
    obtain ⟨hi', hg⟩ := aboutMembers t _ r w w.state hi rfl
    refine ⟨hi', hg, ?_⟩
    cases r with
    | error e => trivial
    | ok rows =>
      have hrows := hperm rows rfl
      have hmem : ∀ k m, (k, m) ∈ rows ↔ (w.state.db .channelMembers).committed k = some m ∧
          (k.2 = u ∧ m.role = .admin) ∧ k.1 = c := by
        intro k m
        rw [hrows.mem_iff, Table.mem_scan, view_of_clean hw]
        simp only [Bool.and_eq_true, decide_eq_true_eq, Option.all_some]
      refine ⟨⟨hw, fun ⟨_, m, hm, hr⟩ hnil => ?_⟩, ?_⟩
      · have := (hmem (c, u) m).mpr ⟨hm, ⟨rfl, hr⟩, rfl⟩
        rw [hnil] at this
        cases this
      · have hall : ∀ k ∈ rows.map Prod.fst, k = (c, u) := by
          intro k hk
          obtain ⟨⟨k', m⟩, hkm, rfl⟩ := List.mem_map.mp hk
          obtain ⟨-, ⟨h₂, -⟩, h₁⟩ := (hmem k' m).mp hkm
          exact Prod.ext h₁ h₂
        have hnodup : (rows.map Prod.fst).Nodup :=
          ((hrows.map Prod.fst).nodup_iff).mpr (Table.nodup_scan _)
        match hks : rows.map Prod.fst with
        | [] => exact .inl rfl
        | [k] =>
          rw [hks] at hall
          exact .inr (by rw [hall k List.mem_cons_self])
        | k :: k' :: ks =>
          rw [hks] at hall hnodup
          have hkk' : k = k' := (hall k List.mem_cons_self).trans
            (hall k' (List.mem_cons_of_mem _ List.mem_cons_self)).symm
          exact absurd (hkk' ▸ List.mem_cons_self) (List.nodup_cons.mp hnodup).1
  · refine Contract.Safe.const fun hkeys => ?_
    obtain hkeys | hkeys := hkeys
    · obtain rfl := List.map_eq_nil_iff.mp hkeys
      refine Contract.Safe.weaken (A := Found t c u none) ?_
        fun w _ hw => ⟨hw.1, nofun, fun hh => absurd rfl (hw.2 hh)⟩
      show (contract hash task).Safe t
        ((flushSuccessors (Option.toList none)).bind fun _ => .ret _) _ _ _
      exact Contract.Safe.bind safe_flushSuccessors fun _ _ _ hw => hw
    · have hchannels : rows.map (fun r => r.1.1) = [c] := by
        have := congrArg (List.map Prod.fst) hkeys
        simpa using this
      rw [hchannels]
      refine Contract.Safe.weaken (A := Clean t) ?_ fun w _ hw => hw.1
      refine Contract.Safe.bind (Q := fun found w => Found t c u (found.filterMap id).head? w ∧
        found.filterMap id = (found.filterMap id).head?.toList) ?_ fun found => ?_
      · refine Contract.Safe.bind safe_successorIn fun b w _ hw => ?_
        cases b <;> exact ⟨hw, rfl⟩
      · refine Contract.Safe.const fun hfound => ?_
        refine Contract.Safe.bind (Q := fun _ => Departing t c u) ?_ fun _ _ _ hw => hw
        rw [hfound]
        exact safe_flushSuccessors.weaken fun w _ hw => by simpa using hw

/-! ### The departure -/

/-- Deleting the departing member: an admin is deleted under its lock. -/
theorem safe_flushDelete :
    (contract hash task).Safe t (Py.flushDelete .channelMembers (c, u)) (Departing t c u)
      (fun _ => Departed t c u) fun _ _ => True := by
  refine Contract.Safe.await (fun _ => Departed t c u) (fun _ => stable_departed)
    (fun _ => .const True) (fun w ch r s hi hw hp h => ?_) fun _ _ _ hw => hw
  have hsame : Departed t c u (w.after t (.sql (.delete .channelMembers (c, u))) r w.state) := by
    refine ⟨fun k v hv => ?_, fun hh => ?_⟩
    · obtain ⟨hk, -, hm⟩ := hw.promoted k v hv
      exact ⟨hk, .inr hm⟩
    · obtain hs | ⟨e, he, hc⟩ := hw.decided hh
      · exact .inl hs
      · exact .inr ⟨e, List.mem_cons_of_mem _ he, hc⟩
  obtain ⟨d, hd, rfl⟩ := exec_sql h
  obtain ⟨rfl, -⟩ | ⟨m, -, -, hset, rfl⟩ := exec_delete hd
  · obtain ⟨hi', hg⟩ := aboutMembers t (.sql (.delete .channelMembers (c, u))) r w w.state hi rfl
    refine ⟨hi', hg, ?_⟩
    cases r with
    | ok a => exact hsame
    | error e => trivial
  have hwrite : d .channelMembers = (w.state.db .channelMembers).write t (c, u) none := by
    rw [hset]
    exact Db.set_self ..
  have hcommitted : (d .channelMembers).committed = (w.state.db .channelMembers).committed := by
    rw [hwrite]
    rfl
  obtain ⟨hi', hg⟩ := aboutMembers t (.sql (.delete .channelMembers (c, u))) (.ok true) w
    { w.state with db := d } hi hcommitted
  refine ⟨hi', hg, fun k v hv => ?_, fun ⟨_, ha⟩ => ?_⟩
  · change (d .channelMembers).hold k = _ at hv
    rw [hwrite] at hv
    by_cases hk : k = (c, u)
    · subst hk
      rw [Table.hold_write_self] at hv
      cases hv
      exact ⟨rfl, .inl ⟨rfl, rfl⟩⟩
    · rw [Table.hold_write_of_ne hk] at hv
      exact hsame.promoted k v hv
  · have hadmin : Admin w c u := by
      obtain ⟨m', hm', hr'⟩ := ha
      exact ⟨m', (congrFun hcommitted (c, u)).symm.trans hm', hr'⟩
    obtain ⟨x, hx, hh, m', hm', hr'⟩ | ⟨e, he, hc⟩ := hw.decided ⟨hp.1 (c, u) rfl hadmin, hadmin⟩
    · refine .inl ⟨x, hx, ?_, m', ?_, hr'⟩
      · show (d .channelMembers).Holds t (c, x)
        obtain ⟨p, hp⟩ := hh
        refine ⟨p, ?_⟩
        rw [hwrite, Table.hold_write_of_ne (fun he => hx (Prod.mk.inj he).2)]
        exact hp
      · show (d .channelMembers).view t (c, x) = _
        rw [hwrite, Table.view_write_of_ne (fun he => hx (Prod.mk.inj he).2)]
        exact hm'
    · exact .inr ⟨e, List.mem_cons_of_mem _ he, hc⟩

theorem safe_departMember {m : ChannelMember} :
    (contract hash task).Safe t (departMember c u m)
      (fun w => Clean t w ∧ (m.role ≠ .admin → ¬ Held t c u w)) (fun _ => Departed t c u)
      fun _ _ => True := by
  show (contract hash task).Safe t (if _ then _ else _) _ _ _
  split
  · exact Contract.Safe.bind (safe_runSoleAdminSuccession.weaken fun w _ hw => hw.1)
      fun _ => safe_flushDelete
  · rename_i hrole
    exact safe_flushDelete.weaken fun w _ hw => departing_of_clean hw.1 fun hh =>
      absurd hh (hw.2 hrole)

/-! ### The requests -/

theorem fit_of_clean (h : Clean t w) : Fit task t w := .inr (harmless_of_clean h)

theorem kept_fit : AdminLocks.Kept K t (Fit task t) where
  stable := stable_fit
  aside w o r s hs hw := by
    have hadmin : ∀ c u, Admin (w.after t o r s) c u ↔ Admin w c u := by
      intro c u
      unfold Admin AdminLocks.membership
      rw [World.after_state, hs]
    obtain ⟨d, hd, hdep⟩ | hharm := hw
    · refine .inl ⟨d, hd, fun k v hv => hdep.promoted k v (hs ▸ hv), fun hh => ?_⟩
      have hheld : Held t d.1 d.2 w := ⟨hs ▸ hh.1, (hadmin _ _).mp hh.2⟩
      obtain ⟨x, hx, hholds, m, hm, hr⟩ | ⟨e, he, hc⟩ := hdep.decided hheld
      · refine .inl ⟨x, hx, ?_, m, ?_, hr⟩
        · rw [World.after_state, hs]
          exact hholds
        · rw [World.after_state, hs]
          exact hm
      · exact .inr ⟨e, List.mem_cons_of_mem _ he, hc⟩
    · refine .inr fun k v hv => ?_
      obtain ⟨m, hm, h⟩ := hharm k v (hs ▸ hv)
      exact ⟨m, hm, h.imp_right fun hn ha => hn ((hadmin _ _).mp ha)⟩

theorem only_publish {event : Event} {topic : Topic} :
    (publishChannelEvent event topic).Only Aside :=
  (Prog.only_perform trivial).handle fun e => by split <;> trivial

/-- Commit, and publish. -/
theorem safe_commitPublish {event : Event} {topic : Topic} :
    (contract hash task).Safe t (Py.commit.bind fun _ => publishChannelEvent event topic)
      (Fit task t) (fun _ => Fit task t) fun _ _ => True :=
  Contract.Safe.bind safe_commit fun _ => kept_fit.only aboutMembers only_publish

theorem safe_leave (hd : (task t).departing = some (c, u)) :
    (contract hash task).Safe t (leaveChannelRoute c u) (Clean t) (fun _ _ => True)
      fun _ _ => True := by
  refine safe_request (Contract.Safe.bind (Q := fun _ => Fit task t) ?_ fun outcome => ?_)
  · refine Contract.Safe.bind (kept_clean.perform aboutMembers trivial) fun channel => ?_
    match channel with
    | none => exact fun _ _ hw => fit_of_clean hw
    | some channel =>
      refine Contract.Safe.bind safe_getMembership fun found => ?_
      match found with
      | none => exact fun _ _ hw => fit_of_clean hw.1
      | some m =>
        refine Contract.Safe.bind (safe_departMember.weaken fun w _ hw => ⟨hw.1, hw.2 m rfl⟩)
          fun _ w _ hw => .inl ⟨(c, u), hd, hw⟩
  · cases outcome with
    | notMember => exact fun _ _ hw => hw
    | left => exact safe_commitPublish

theorem safe_authorizeAdmin {caller : UserId} :
    (contract hash task).Safe t (authorizeAdmin c caller) (Clean t) (fun _ => Clean t)
      fun _ _ => True := by
  refine Contract.Safe.bind (kept_clean.perform aboutMembers trivial) fun channel => ?_
  match channel with
  | none => exact fun _ _ hw => hw
  | some channel =>
    refine Contract.Safe.bind ((safe_lockChannelAdminIds aboutMembers lockKept_true
      lasting_none).weaken fun _ _ hw => ⟨trivial, hw⟩) fun ids => ?_
    show (contract hash task).Safe t (if _ then _ else (if _ then _ else _)) _ _ _
    split
    · exact fun _ _ hw => hw.1.1.2
    split
    · exact fun _ _ hw => hw.1.1.2
    · exact fun _ _ hw => hw.1.1.2

theorem safe_remove {caller : UserId} (hd : (task t).departing = some (c, u)) :
    (contract hash task).Safe t (removeChannelMemberRoute c caller u) (Clean t) (fun _ _ => True)
      fun _ _ => True := by
  refine safe_request (Contract.Safe.bind (Q := fun _ => Fit task t) ?_ fun outcome => ?_)
  · refine Contract.Safe.bind safe_authorizeAdmin fun authorized => ?_
    match authorized with
    | .error refusal => exact fun _ _ hw => fit_of_clean hw
    | .ok channel =>
      refine Contract.Safe.bind (kept_clean.perform aboutMembers trivial) fun user => ?_
      match user with
      | none => exact fun _ _ hw => fit_of_clean hw
      | some user =>
        refine Contract.Safe.bind safe_getMembership fun found => ?_
        match found with
        | none => exact fun _ _ hw => fit_of_clean hw.1
        | some m =>
          refine Contract.Safe.bind (safe_departMember.weaken fun w _ hw => ⟨hw.1, hw.2 m rfl⟩)
            fun _ w _ hw => .inl ⟨(c, u), hd, hw⟩
  · cases outcome with
    | refused refusal => exact fun _ _ _ => trivial
    | notMember => exact safe_commit
    | removed => exact safe_commitPublish

/-- A new member is no admin that could be lost. -/
theorem safe_flushMembership {role : ChannelMemberRole} :
    (contract hash task).Safe t (Py.flushInsert .channelMembers (c, u) fun now => ⟨role, now⟩)
      (Clean t) (fun _ => Harmless t) fun _ _ => True := by
  refine Contract.Safe.await (fun _ => Harmless t) (fun _ => stable_harmless) (fun _ => .const True)
    (fun w ch r s hi hw _ h => ?_) fun row => ?_
  · obtain ⟨d, hd, rfl⟩ := exec_sql h
    obtain ⟨rfl, -⟩ | ⟨now, -, hnone, hset, rfl⟩ := exec_insert hd
    · obtain ⟨hi', hg⟩ := aboutMembers t (.sql (.insert .channelMembers (c, u) fun now => ⟨role, now⟩))
        r w w.state hi rfl
      refine ⟨hi', hg, ?_⟩
      cases r with
      | ok a => exact harmless_of_clean hw
      | error e => trivial
    have hwrite : d .channelMembers =
        (w.state.db .channelMembers).write t (c, u) (some ⟨role, now⟩) := by
      rw [hset]
      exact Db.set_self ..
    obtain ⟨hi', hg⟩ := aboutMembers t (.sql (.insert .channelMembers (c, u) fun now => ⟨role, now⟩))
      (.ok (some ⟨role, now⟩)) w { w.state with db := d } hi (by
        show (d .channelMembers).committed = _
        rw [hwrite]
        rfl)
    refine ⟨hi', hg, fun k v hv => ?_⟩
    change (d .channelMembers).hold k = _ at hv
    rw [hwrite] at hv
    by_cases hk : k = (c, u)
    · subst hk
      rw [Table.hold_write_self] at hv
      cases hv
      refine ⟨_, rfl, .inr fun ⟨m, hm, _⟩ => ?_⟩
      change (d .channelMembers).committed (c, u) = some m at hm
      rw [hwrite, Table.committed_write, ← view_of_clean hw] at hm
      exact nomatch hnone.symm.trans hm
    · rw [Table.hold_write_of_ne hk] at hv
      exact absurd hv (hw k v)
  · cases row with
    | none => exact fun _ _ _ => trivial
    | some row => exact fun _ _ hw => hw

theorem safe_insertMembership {role : ChannelMemberRole} :
    (contract hash task).Safe t (insertMembership c u role) (Clean t) (fun _ => Harmless t)
      fun _ _ => True := by
  refine Contract.Safe.handle (R := fun _ _ => True)
    (Contract.Safe.bind safe_flushMembership fun _ _ _ hw => hw) fun e => ?_
  split
  · refine Contract.Safe.bind safe_rollback fun _ => ?_
    refine Contract.Safe.bind safe_getMembership fun found => ?_
    match found with
    | none => exact fun _ _ _ => trivial
    | some m => exact fun _ _ hw => harmless_of_clean hw.1
  · exact fun _ _ _ => trivial

theorem kept_harmless : AdminLocks.Kept K t (Harmless t) where
  stable := stable_harmless
  aside w o r s hs hw k v hv := by
    obtain ⟨m, hm, h⟩ := hw k v (hs ▸ hv)
    refine ⟨m, hm, h.imp_right fun hn ha => hn ?_⟩
    unfold Admin AdminLocks.membership at ha
    rw [World.after_state, hs] at ha
    exact ha

theorem safe_countChannelMembers : (contract hash task).Safe t (countChannelMembers c) (Harmless t)
    (fun _ => Harmless t) fun _ _ => True :=
  kept_harmless.only aboutMembers ((Prog.only_perform trivial).bind fun _ => trivial)

theorem safe_join : (contract hash task).Safe t (joinChannelRoute c u) (Clean t) (fun _ _ => True)
    fun _ _ => True := by
  refine safe_request (Contract.Safe.bind (Q := fun _ => Fit task t) ?_ fun outcome => ?_)
  · refine Contract.Safe.bind (kept_clean.perform aboutMembers trivial) fun channel => ?_
    match channel with
    | none => exact fun _ _ hw => fit_of_clean hw
    | some channel =>
      refine Contract.Safe.bind safe_getMembership fun found => ?_
      match found with
      | some m => exact fun _ _ hw => fit_of_clean hw.1
      | none =>
        show (contract hash task).Safe t (if _ then _ else _) _ _ _
        split
        · exact fun _ _ hw => fit_of_clean hw.1
        refine Contract.Safe.bind (safe_insertMembership.weaken fun _ _ hw => hw.1) fun row => ?_
        match row with
        | .inr existing => exact fun _ _ hw => .inr hw
        | .inl m => exact Contract.Safe.bind safe_countChannelMembers fun _ _ _ hw => .inr hw
  · cases outcome with
    | notFound => exact fun _ _ _ => trivial
    | isPrivate channel => exact fun _ _ _ => trivial
    | alreadyMember m channel => exact Contract.Safe.bind safe_commit fun _ _ _ hw => hw
    | joined m channel count =>
      refine Contract.Safe.bind safe_commit fun _ => ?_
      exact Contract.Safe.bind (kept_fit.only aboutMembers only_publish) fun _ _ _ hw => hw

theorem safe_add {caller : UserId} {role : ChannelMemberRole} :
    (contract hash task).Safe t (addChannelMemberRoute c caller u role) (Clean t) (fun _ _ => True)
      fun _ _ => True := by
  refine safe_request (Contract.Safe.bind (Q := fun _ => Fit task t) ?_ fun outcome => ?_)
  · refine Contract.Safe.bind safe_authorizeAdmin fun authorized => ?_
    match authorized with
    | .error refusal => exact fun _ _ hw => fit_of_clean hw
    | .ok channel =>
      refine Contract.Safe.bind (kept_clean.perform aboutMembers trivial) fun user => ?_
      match user with
      | none => exact fun _ _ hw => fit_of_clean hw
      | some user =>
        refine Contract.Safe.bind safe_getMembership fun found => ?_
        match found with
        | some m => exact fun _ _ hw => fit_of_clean hw.1
        | none =>
          refine Contract.Safe.bind (safe_insertMembership.weaken fun _ _ hw => hw.1) fun row => ?_
          match row with
          | .inr existing => exact fun _ _ hw => .inr hw
          | .inl m => exact Contract.Safe.bind safe_countChannelMembers fun _ _ _ hw => .inr hw
  · cases outcome with
    | refused refusal => exact fun _ _ _ => trivial
    | alreadyMember m channel => exact Contract.Safe.bind safe_commit fun _ _ _ hw => hw
    | added m channel count =>
      refine Contract.Safe.bind safe_commit fun _ => ?_
      exact Contract.Safe.bind (kept_fit.only aboutMembers only_publish) fun _ _ _ hw => hw

/-- The flush of a promotion by hand. -/
theorem safe_flushAdmin :
    (contract hash task).Safe t (Py.flushUpdate .channelMembers (c, u) (setRole .admin)) (Clean t)
      (fun _ => Harmless t) fun _ _ => True := by
  refine Contract.Safe.await (fun _ => Harmless t) (fun _ => stable_harmless) (fun _ => .const True)
    (fun w ch r s hi hw _ h => ?_) fun matched => ?_
  · obtain ⟨d, hd, rfl⟩ := exec_sql h
    obtain ⟨rfl, -⟩ | ⟨m, -, -, -, hset, rfl⟩ := exec_update hd
    · obtain ⟨hi', hg⟩ := aboutMembers t
        (.sql (.update .channelMembers (c, u) (fun _ => true) (setRole .admin))) r w w.state hi rfl
      refine ⟨hi', hg, ?_⟩
      cases r with
      | ok a => exact harmless_of_clean hw
      | error e => trivial
    have hwrite : d .channelMembers =
        (w.state.db .channelMembers).write t (c, u) (some (setRole .admin m)) := by
      rw [hset]
      exact Db.set_self ..
    obtain ⟨hi', hg⟩ := aboutMembers t
      (.sql (.update .channelMembers (c, u) (fun _ => true) (setRole .admin))) (.ok true) w
      { w.state with db := d } hi (by
        show (d .channelMembers).committed = _
        rw [hwrite]
        rfl)
    refine ⟨hi', hg, fun k v hv => ?_⟩
    change (d .channelMembers).hold k = _ at hv
    rw [hwrite] at hv
    by_cases hk : k = (c, u)
    · subst hk
      rw [Table.hold_write_self] at hv
      cases hv
      exact ⟨_, rfl, .inl rfl⟩
    · rw [Table.hold_write_of_ne hk] at hv
      exact absurd hv (hw k v)
  · cases matched with
    | true => exact fun _ _ hw => hw
    | false => exact fun _ _ _ => trivial

theorem safe_changeRole {caller : UserId} :
    (contract hash task).Safe t (updateChannelMemberRoleRoute c caller u .admin) (Clean t)
      (fun _ _ => True) fun _ _ => True := by
  refine safe_request (Contract.Safe.bind (Q := fun _ => Fit task t) ?_ fun outcome => ?_)
  · refine Contract.Safe.bind safe_authorizeAdmin fun authorized => ?_
    match authorized with
    | .error refusal => exact fun _ _ hw => fit_of_clean hw
    | .ok channel =>
      refine Contract.Safe.bind safe_getMembership fun found => ?_
      match found with
      | none => exact fun _ _ hw => fit_of_clean hw.1
      | some m =>
        show (contract hash task).Safe t (if _ then _ else _) _ _ _
        split
        · exact fun _ _ hw => fit_of_clean hw.1
        · exact Contract.Safe.bind (safe_flushAdmin.weaken fun _ _ hw => hw.1)
            fun _ _ _ hw => .inr hw
  · cases outcome with
    | refused refusal => exact fun _ _ _ => trivial
    | updated m => exact Contract.Safe.bind safe_commit fun _ _ _ hw => hw
    | noOp m => exact Contract.Safe.bind safe_commit fun _ _ _ hw => hw

/-- Every request keeps to the contract. -/
theorem safe_task :
    (contract hash task).Safe t (task t).program (Clean t) (fun _ _ => True) fun _ _ => True := by
  cases ht : task t with
  | join c u => exact Contract.Safe.bind safe_join fun _ _ _ _ => trivial
  | leave c u => exact safe_leave (by rw [ht]; rfl)
  | add c caller u role => exact Contract.Safe.bind safe_add fun _ _ _ _ => trivial
  | remove c caller u => exact safe_remove (by rw [ht]; rfl)
  | changeRole c caller u role =>
    cases role with
    | admin => exact Contract.Safe.bind safe_changeRole fun _ _ _ _ => trivial
    | member =>
      have hfree : ∀ o, (contract hash task).StepOk t (fun _ => True) o fun _ _ => True := by
        intro o w ch r s _ _ _ _
        refine ⟨trivial, fun hno => ?_, trivial⟩
        rw [ht] at hno
        cases hno
      exact (Contract.safe_free hfree _).weaken fun _ _ _ => trivial

/-! ### The result -/

abbrev MembershipPool (T : Type) : Type := Pool T Op Op.Res Exc Unit (State T)

/-- Before the first request: no transaction on the memberships. -/
structure Start (task : T → Task) (p : MembershipPool T) : Prop where
  prog : ∀ t, p.prog t = (task t).program
  hold : ∀ k, (p.world.state.db .channelMembers).hold k = none

theorem Start.sound {p : MembershipPool T} (h : Start task p) :
    (contract hash task).Sound (fun _ _ _ => True) (fun _ _ _ => True) p where
  inv := trivial
  safe t := by
    refine ⟨Clean t, stable_clean, fun k v hv => ?_, ?_⟩
    · rw [h.hold] at hv
      cases hv
    · rw [h.prog]
      exact safe_task

theorem eventsOk : (contract (T := T) hash task).EventsOk := fun _ _ _ _ _ _ => trivial

/-- **An admin remains.** In every interleaving of joins, leaves, additions, removals and changes of
role in which an admin's row is deleted only by a departure that holds it, and what a departure
found of a successor is still so when it commits: a channel that had an admin before a step, and has
a member after it, has an admin after it, unless the step is one of an explicit demotion. -/
theorem admin_remains {p₀ p q : MembershipPool T} {ls : List (Label T Choice Tick)} {ch : Choice}
    (h₀ : Start task p₀)
    (hC : (machine T hash).Meets (undisturbed task) p₀ (ls ++ [.proc t ch]))
    (hp : (machine T hash).run p₀ ls = some p) (hq : (machine T hash).step p (.proc t ch) = some q)
    (ht : (task t).demotes = false) (c : ChannelId) (ha : HasAdmin p.world c)
    (hm : HasMember q.world c) : HasAdmin q.world c := by
  obtain ⟨hC₁, hC₂⟩ := Machine.meets_append hC
  have hmid := h₀.sound.run eventsOk hC₁ hp
  obtain ⟨o, k, r, s, -, -, -, hg⟩ := hmid.guar (hC₂ p hp).1 hq
  exact hg ht c ha hm

/-! ### A leave and a join -/

def leaveAndJoin : Bool → Task
  | false => .leave 1 10
  | true => .join 1 20

/-- User 10, the only member and admin of the public channel 1, leaves; user 20 joins. -/
def lastMemberLeaves : MembershipPool Bool where
  world := ⟨State.ofRows fun
    | .channels => [(1, ⟨['a'], false, 10, 0⟩)]
    | .channelMembers => [((1, 10), ⟨.admin, 0⟩)]
    | _ => [], []⟩
  prog t := (leaveAndJoin t).program

theorem lastMemberLeaves_start : Start leaveAndJoin lastMemberLeaves where
  prog _ := rfl
  hold _ := rfl

/-- `k` awaits of request `t`. -/
def awaits (t : Bool) (k : ℕ) : List (Label Bool Choice Tick) :=
  List.replicate k (.proc t (.ok [] 1))

/-- **An admin lost.** The leave has found nobody to promote, the join is committed, and the leave
commits. -/
theorem admin_lost :
    Start leaveAndJoin lastMemberLeaves ∧
      ∃ p q, (machine Bool id).run lastMemberLeaves
          (awaits false 6 ++ awaits true 5 ++ awaits false 1) = some p ∧
        (machine Bool id).step p (.proc false (.ok [] 1)) = some q ∧
        HasAdmin p.world 1 ∧ HasMember q.world 1 ∧ ¬ HasAdmin q.world 1 := by
  refine ⟨lastMemberLeaves_start, _, _, rfl, rfl, ⟨10, _, rfl, rfl⟩, ⟨20, _, rfl⟩, ?_⟩
  rintro ⟨u, m, hm, hr⟩
  have hkey : (1, u) ∈ [(1, 20), (1, 10)] := Table.mem_keys_of_committed hm
  obtain rfl | rfl : u = 20 ∨ u = 10 := by simpa using hkey
  · cases hm
    cases hr
  · cases hm

/-- A leave that starts when the join is committed promotes the new member. -/
theorem admin_remains_after_join :
    ∃ p q, (machine Bool id).run lastMemberLeaves
        (awaits true 8 ++ awaits false 8) = some p ∧
      (machine Bool id).step p (.proc false (.ok [] 1)) = some q ∧
      HasAdmin q.world 1 := by
  obtain ⟨p, hp⟩ := Option.isSome_iff_exists.mp
    (show ((machine Bool id).run lastMemberLeaves
      (awaits true 8 ++ awaits false 8)).isSome = true by decide)
  have hend : HasAdmin p.world 1 ∧ ∃ q, (machine Bool id).step p (.proc false (.ok [] 1)) =
      some q ∧ HasMember q.world 1 := by
    cases hp
    exact ⟨⟨10, _, rfl, rfl⟩, _, rfl, 20, _, rfl⟩
  obtain ⟨ha, q, hq, hm⟩ := hend
  exact ⟨p, q, hp, hq, admin_remains lastMemberLeaves_start (by decide) hp hq rfl 1 ha hm⟩

end Chatspace.AdminSuccession
