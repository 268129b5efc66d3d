import Chatspace.Interleave.Moments
import Chatspace.Services.SoloMembership
import Chatspace.Services.ZeroAdmins

/-!
# Promotions by a succession

Leaves, removals, changes of role and deactivations, step by step in any order. The channels in
which the departing user is an admin are read under no lock, and the succession then counts the
admin rows it has locked, whoever they are of. In between another request may commit.

* `Version` — what a transaction may have written: an admin is new only with an admin of the
  channel held, and in a departure only with the departing user held as the only admin;
* `undisturbed` — until a departure has locked the admins of a channel in which it has found the
  departing user an admin, no commit takes that one away and none makes another;
* `warranted_promotion` — **then whoever a departure makes an admin, the departing user is the only
  admin at that moment, and the promoted member is the remaining one who joined first**;
* `unwarranted_promotion` — the same leave twice, in a channel with another admin.
-/

namespace Chatspace.Promotions

open Interleave Store Channels AdminLocks AdminUsers Sessions
open ZeroAdmins (Anchored stable_anchored anchored_write aside_flushUpdate aside_revokeSessions
  aside_invalidate)
open SoloMembership (Members IsAdmin OnlyAdmin Longest isAdminRow)

/-- One request. -/
inductive Task where
  | leave (channelId : ChannelId) (userId : UserId)
  | remove (channelId : ChannelId) (callerId userId : UserId)
  | changeRole (channelId : ChannelId) (callerId userId : UserId) (role : ChannelMemberRole)
  | deactivate (userId : UserId)

def Task.program : Task → Py Unit
  | .leave c u => leaveChannelRoute c u
  | .remove c caller u => removeChannelMemberRoute c caller u
  | .changeRole c caller u role =>
    (updateChannelMemberRoleRoute c caller u role).bind fun _ => .ret ()
  | .deactivate u => (deactivateUserRoute u).bind fun _ => .ret ()

/-- The user whose departure the request is. -/
def Task.departing : Task → Option UserId
  | .leave _ u => some u
  | .remove _ _ u => some u
  | .changeRole .. => none
  | .deactivate u => some u

/-! ### Memberships -/

/-- Every membership was one before, and began when it began. -/
def NoneJoined (m m' : Members) : Prop :=
  ∀ k x, m' k = some x → ∃ y, m k = some y ∧ y.joinedAt = x.joinedAt

/-- Another one than `u`, before whom no other joined. -/
def First (m : Members) (c : ChannelId) (u v : UserId) : Prop :=
  v ≠ u ∧ ∀ x v' y, m (c, v) = some x → v' ≠ u → m (c, v') = some y → x.joinedAt ≤ y.joinedAt

theorem NoneJoined.refl (m : Members) : NoneJoined m m := fun _ x hx => ⟨x, hx, rfl⟩

theorem First.mono {m m' : Members} {c : ChannelId} {u v : UserId} (h : First m c u v)
    (hm : NoneJoined m m') : First m' c u v := by
  refine ⟨h.1, fun x v' y hx hv' hy => ?_⟩
  obtain ⟨x₀, hx₀, hjx⟩ := hm _ x hx
  obtain ⟨y₀, hy₀, hjy⟩ := hm _ y hy
  have hle := h.2 x₀ v' y₀ hx₀ hv' hy₀
  rwa [hjx, hjy] at hle

theorem First.longest {m : Members} {c : ChannelId} {u v : UserId} {x : ChannelMember}
    (h : First m c u v) (hx : m (c, v) = some x) : Longest m c u v :=
  ⟨h.1, x, hx, fun v' y hv' hy => h.2 x v' y hx hv' hy⟩

variable {T : Type} {hash : RawToken → TokenHash} {task : T → Task} {t t' : T}
  {w w' : BackendWorld T} {c : ChannelId} {u v caller : UserId} {k : ChannelId × UserId}
  {m : ChannelMember} {s : State T} {o : Op} {r : Except Exc o.Res}

/-- The committed memberships. -/
def members (w : BackendWorld T) : Members := (w.state.db .channelMembers).committed

theorem admin_iff : Admin w c u ↔ IsAdmin (members w) c u := Iff.rfl

theorem onlyAdmin_iff : OnlyAdmin (members w) c u ↔
    Admin w c u ∧ ∀ k ∈ (w.state.db .channelMembers).keys, k.1 = c → Admin w k.1 k.2 → k.2 = u := by
  constructor
  · intro h
    refine ⟨(h u).mpr rfl, fun k _ hk ha => ?_⟩
    subst hk
    exact (h k.2).mp ha
  · intro h x
    constructor
    · intro hx
      obtain ⟨y, hy, hrole⟩ := hx
      exact h.2 (c, x) (Table.mem_keys_of_committed hy) rfl ⟨y, hy, hrole⟩
    · intro hx
      subst hx
      exact h.1

instance : Decidable (OnlyAdmin (members w) c u) := decidable_of_iff' _ onlyAdmin_iff

/-! ### What a transaction may write -/

/-- The transaction holds the row of the channel's only admin. -/
def Sole (t : T) (c : ChannelId) (u : UserId) (w : BackendWorld T) : Prop :=
  (w.state.db .channelMembers).Holds t (c, u) ∧ OnlyAdmin (members w) c u

/-- One admin counted, the departing user an admin: the only one. -/
theorem sole_of_count {ids : List UserId} (hlen : ids.length = 1) (hu : Admin w c u)
    (hall : ∀ x, Admin w c x → x ∈ ids) (hheld : Held t c u w) : Sole t c u w := by
  obtain ⟨x, rfl⟩ := List.length_eq_one_iff.mp hlen
  obtain rfl := List.mem_singleton.mp (hall u hu)
  refine ⟨hheld.1, fun y => ⟨fun hy => List.mem_singleton.mp (hall y hy), ?_⟩⟩
  rintro rfl
  exact hu

/-- What a promotion of `k` rests on. -/
structure Warrant (task : T → Task) (t : T) (k : ChannelId × UserId) (w : BackendWorld T) :
    Prop where
  anchored : Anchored t k.1 w
  departing : ∀ u ∈ (task t).departing, Sole t k.1 u w ∧ First (members w) k.1 u k.2

/-- What a version of a row that is written is. -/
structure Version (task : T → Task) (t : T) (k : ChannelId × UserId) (m : ChannelMember)
    (w : BackendWorld T) : Prop where
  before : ∃ y, members w k = some y ∧ y.joinedAt = m.joinedAt
  promoted : m.role = .admin → ¬ Admin w k.1 k.2 → Warrant task t k w

/-- What a transaction may commit. -/
def Fit (task : T → Task) (t : T) (w : BackendWorld T) : Prop :=
  ∀ k m, (w.state.db .channelMembers).hold k = some ⟨t, some (some m)⟩ → Version task t k m w

theorem fit_of_clean (h : Clean t w) : Fit task t w := fun k _ hk => absurd hk (h k _)

/-- The memberships are the same, and what is held in the channel is still held. -/
structure Grows (t : T) (c : ChannelId) (w w' : BackendWorld T) : Prop where
  members : members w' = members w
  holds : ∀ x, (w.state.db .channelMembers).Holds t (c, x) →
    (w'.state.db .channelMembers).Holds t (c, x)

theorem Grows.anchored (h : Grows t c w w') (ha : Anchored t c w) : Anchored t c w' := by
  obtain ⟨x, hx, hadmin⟩ := ha
  refine ⟨x, h.holds x hx, ?_⟩
  rw [admin_iff, h.members]
  exact hadmin

theorem Grows.sole (h : Grows t c w w') (hs : Sole t c u w) : Sole t c u w' := by
  refine ⟨h.holds u hs.1, ?_⟩
  rw [h.members]
  exact hs.2

theorem Warrant.grows (h : Warrant task t k w) (hw : Grows t k.1 w w') : Warrant task t k w' := by
  refine ⟨hw.anchored h.anchored, fun u hu => ⟨hw.sole (h.departing u hu).1, ?_⟩⟩
  rw [hw.members]
  exact (h.departing u hu).2

theorem Version.grows (h : Version task t k m w) (hw : Grows t k.1 w w') :
    Version task t k m w' := by
  refine ⟨?_, fun hrole hadmin => (h.promoted hrole ?_).grows hw⟩
  · rw [hw.members]
    exact h.before
  · rwa [admin_iff, hw.members] at hadmin

theorem grows_of_eq (h : s.db .channelMembers = w.state.db .channelMembers) :
    Grows t c w (w.after t o r s) := by
  constructor
  · unfold members
    rw [World.after_state, h]
  · intro x hx
    rw [World.after_state, h]
    exact hx

theorem members_write {v : Option ChannelMember} :
    members (w.after t o r (w.state.set .channelMembers
      ((w.state.db .channelMembers).write t k v))) = members w := by
  unfold members
  rw [World.after_state, State.set_db, Table.committed_write]

theorem grows_write {v : Option ChannelMember} :
    Grows t c w (w.after t o r (w.state.set .channelMembers
      ((w.state.db .channelMembers).write t k v))) := by
  refine ⟨members_write, fun x hx => ?_⟩
  rw [World.after_state, State.set_db]
  exact Table.holds_put hx

theorem Fit.aside (h : Fit task t w) (hs : s.db .channelMembers = w.state.db .channelMembers) :
    Fit task t (w.after t o r s) := by
  intro k m hk
  rw [World.after_state, hs] at hk
  exact (h k m hk).grows (grows_of_eq hs)

/-- A version of a row is written. -/
theorem fit_write {v : Option ChannelMember} (h : Fit task t w)
    (hv : ∀ m, v = some m → Version task t k m w) :
    Fit task t (w.after t o r (w.state.set .channelMembers
      ((w.state.db .channelMembers).write t k v))) := by
  intro j m hj
  rw [World.after_state, State.set_db] at hj
  by_cases hjk : j = k
  · subst hjk
    rw [Table.hold_write_self] at hj
    cases hj
    exact (hv m rfl).grows grows_write
  · rw [Table.hold_write_of_ne hjk] at hj
    exact (h j m hj).grows grows_write

/-- Fit so far, and the promotions of these rows are warranted. -/
def Flushing (task : T → Task) (t : T) (ks : List (ChannelId × UserId)) (w : BackendWorld T) :
    Prop :=
  Fit task t w ∧ ∀ k ∈ ks, Warrant task t k w

theorem Flushing.grows {ks : List (ChannelId × UserId)} (hfit : Fit task t w')
    (h : Flushing task t ks w) (hw : ∀ c, Grows t c w w') : Flushing task t ks w' :=
  ⟨hfit, fun k hk => (h.2 k hk).grows (hw k.1)⟩

/-! ### What a step does -/

/-- What a step of `t` does to the memberships: the admins of a channel that another transaction all
holds stay the admins, nobody joins, and a departure promotes nobody but for its only admin. -/
structure Allowed (task : T → Task) (t : T) (w w' : BackendWorld T) : Prop where
  others : ∀ t', t' ≠ t → ∀ c,
    (∀ x, Admin w c x → (w.state.db .channelMembers).Holds t' (c, x)) →
    ∀ x, Admin w' c x ↔ Admin w c x
  joined : NoneJoined (members w) (members w')
  promoted : ∀ u ∈ (task t).departing, ∀ c v, ¬ Admin w c v → Admin w' c v →
    OnlyAdmin (members w) c u ∧ Longest (members w) c u v

theorem allowed_of_members (h : members w' = members w) : Allowed task t w w' where
  others _ _ _ _ _ := by rw [admin_iff, admin_iff, h]
  joined := by
    rw [h]
    exact .refl _
  promoted u _ c v hv hv' := by
    rw [admin_iff, h] at hv'
    exact absurd hv' hv

variable [DecidableEq T]

/-- In its transaction, which has this history, `t` has found that `u` is an admin of the channel. -/
def AskedIn (t : T) (u : UserId) (c : ChannelId) (own : List (Entry T Op Op.Res Exc)) : Prop :=
  ∃ newer older channelId rows, own =
      newer ++ ⟨t, .sql (.select .channelMembers (isAdminRow u channelId)), .ok rows⟩ :: older ∧
    c ∈ rows.map (fun r => r.1.1) ∧ ∀ e ∈ newer, e.op ≠ .sql .commit ∧ e.op ≠ .sql .rollback

def Asked (t : T) (u : UserId) (c : ChannelId) (w : BackendWorld T) : Prop :=
  AskedIn t u c (w.own t)

/-- And has not locked all the admins there are. -/
def Counting (t : T) (u : UserId) (c : ChannelId) (w : BackendWorld T) : Prop :=
  Asked t u c w ∧ ∃ x, Admin w c x ∧ ¬ (w.state.db .channelMembers).Holds t (c, x)

/-- While a departure is counting the admins of a channel, whoever else commits leaves the departing
user an admin of it, and makes nobody one. -/
def undisturbed (task : T → Task) : Machine.Condition T Op Op.Res Exc Choice Tick (State T) where
  op t o _ w := o = .sql .commit → ∀ t', t' ≠ t → ∀ u ∈ (task t').departing, ∀ c,
    Counting t' u c w → IsAdmin ((w.state.db .channelMembers).view t) c u ∧
      ∀ x, IsAdmin ((w.state.db .channelMembers).view t) c x → Admin w c x
  event _ _ := True

def contract (hash : RawToken → TokenHash) (task : T → Task) : Contract (machine T hash) where
  inv _ := True
  pre := undisturbed task
  guar t _ _ w w' := Allowed task t w w'

theorem aboutMembers : AboutMembers (contract hash task) :=
  fun _ _ _ _ _ _ hs => ⟨trivial, allowed_of_members hs⟩

theorem eventsOk : (contract (T := T) hash task).EventsOk := fun _ _ _ _ _ _ => trivial

/-! ### What the others keep -/

theorem noneJoined_other (ho : (contract hash task).Other t w w') :
    NoneJoined (members w) (members w') := by
  cases ho with
  | proc hne hpre hexec hguar => exact hguar.joined
  | event hpre hexec =>
    cases hexec
    exact .refl _

theorem stable_sole : (contract hash task).Stable t (Sole t c u) := by
  intro w w' _ _ ho h
  refine ⟨(other_keeps ho .channelMembers).holds.mp h.1, ?_⟩
  cases ho with
  | proc hne hpre hexec hguar =>
    have hheld : ∀ x, Admin w c x → (w.state.db .channelMembers).Holds t (c, x) := by
      intro x hx
      rw [(h.2 x).mp hx]
      exact h.1
    exact fun x => (hguar.others t (Ne.symm hne) c hheld x).trans (h.2 x)
  | event hpre hexec =>
    cases hexec
    exact h.2

theorem stable_first : (contract hash task).Stable t fun w => First (members w) c u v :=
  fun _ _ _ _ ho h => h.mono (noneJoined_other ho)

theorem stable_warrant : (contract hash task).Stable t (Warrant task t k) := fun w w' hi hi' ho h =>
  ⟨stable_anchored w w' hi hi' ho h.anchored, fun u hu =>
    ⟨stable_sole w w' hi hi' ho (h.departing u hu).1,
      stable_first w w' hi hi' ho (h.departing u hu).2⟩⟩

/-- Who has asked has asked, until the transaction ends. -/
theorem Asked.after (h : Asked t u c w) (ho : o ≠ .sql .commit ∧ o ≠ .sql .rollback) :
    Asked t u c (w.after t o r s) := by
  obtain ⟨newer, older, channelId, rows, hown, hc, hnewer⟩ := h
  refine ⟨⟨t, o, r⟩ :: newer, older, channelId, rows, ?_, hc, fun e he => ?_⟩
  · rw [World.own_after, hown, List.cons_append]
  · obtain rfl | he := List.mem_cons.mp he
    · exact ho
    · exact hnewer e he

/-- `t` has found that `u` is an admin of the channel, and `u` is one. -/
def Told (t : T) (u : UserId) (c : ChannelId) (w : BackendWorld T) : Prop :=
  Asked t u c w ∧ Admin w c u

/-- Whoever else moves, the departing user stays an admin, and no other becomes one: before the
departure holds all admins by the condition on commits, and then by its locks. -/
theorem admins_other (hu : (task t).departing = some u) (ho : (contract hash task).Other t w w')
    (h : Told t u c w) : Admin w' c u ∧ ∀ x, Admin w' c x → Admin w c x := by
  cases ho with
  | event hpre hexec =>
    cases hexec
    exact ⟨h.2, fun _ hx => hx⟩
  | proc hne hpre hexec hguar =>
    rename_i t' o ch r s
    by_cases hall : ∀ x, Admin w c x → (w.state.db .channelMembers).Holds t (c, x)
    · have hsame := hguar.others t (Ne.symm hne) c hall
      exact ⟨(hsame u).mpr h.2, fun x hx => (hsame x).mp hx⟩
    push Not at hall
    by_cases ho : o = .sql .commit
    · subst ho
      obtain ⟨rfl, e, rfl⟩ | ⟨rfl, rfl⟩ := exec_commitAll hexec
      · exact ⟨h.2, fun _ hx => hx⟩
      · exact hpre rfl t (Ne.symm hne) u hu c ⟨h.1, hall⟩
    · have hsame : members (w.after t' o r s) = members w :=
        exec_committed_db ho hexec .channelMembers
      simp only [admin_iff, hsame]
      exact ⟨h.2, fun _ hx => hx⟩

theorem stable_told (hu : (task t).departing = some u) :
    (contract hash task).Stable t (Told t u c) := by
  intro w w' hi hi' ho h
  exact ⟨Contract.Stable.history (AskedIn t u c) w w' hi hi' ho h.1, (admins_other hu ho h).1⟩

theorem stable_fit : (contract hash task).Stable t (Fit task t) := by
  intro w w' hi hi' ho h k m hk
  have hkeeps := other_keeps ho .channelMembers
  have hold := (hkeeps.hold k _).mpr hk
  have hcommitted : members w' k = members w k := hkeeps.committed k ⟨_, hold⟩
  refine ⟨?_, fun hrole hadmin => ?_⟩
  · rw [hcommitted]
    exact (h k m hold).before
  · refine stable_warrant w w' hi hi' ho ((h k m hold).promoted hrole fun ha => hadmin ?_)
    obtain ⟨y, hy, hyrole⟩ := ha
    exact ⟨y, hcommitted.trans hy, hyrole⟩

theorem kept_fit : AdminLocks.Kept (contract hash task) t (Fit task t) :=
  ⟨stable_fit, fun _ _ _ _ hs h => h.aside hs⟩

/-! ### Commits -/

/-- Nobody joins when what is fit is committed. -/
theorem Fit.joined (h : Fit task t w) :
    NoneJoined (members w) ((w.state.db .channelMembers).view t) := by
  intro k x hx
  obtain hv | ⟨v, hhold, hv⟩ := (w.state.db .channelMembers).view_cases t k
  · exact ⟨x, hv.symm.trans hx, rfl⟩
  · obtain rfl : v = some x := hv.symm.trans hx
    exact (h k x hhold).before

/-- A new admin is one that the transaction has made. -/
theorem Fit.promoted (h : Fit task t w)
    (hafter : IsAdmin ((w.state.db .channelMembers).view t) c v) (hbefore : ¬ Admin w c v) :
    Warrant task t (c, v) w := by
  obtain ⟨x, hx, hrole⟩ := hafter
  obtain hv | ⟨y, hhold, hv⟩ := (w.state.db .channelMembers).view_cases t (c, v)
  · exact absurd ⟨x, hv.symm.trans hx, hrole⟩ hbefore
  · obtain rfl : y = some x := hv.symm.trans hx
    exact (h (c, v) x hhold).promoted hrole hbefore

/-- **What is fit may be committed.** -/
theorem Fit.allowed (h : Fit task t w)
    (hw : members w' = (w.state.db .channelMembers).view t) : Allowed task t w w' where
  others t' hne c hall x := by
    rw [admin_iff, hw]
    constructor
    · intro hx
      by_contra hbefore
      -- a new admin rests on an admin held by `t`, and those are held by `t'`
      obtain ⟨z, hz, hadmin⟩ := (h.promoted hx hbefore).anchored
      exact hne (Table.holds_inj (hall z hadmin) hz)
    · intro hx
      obtain ⟨z, hz, hrole⟩ := hx
      refine ⟨z, ?_, hrole⟩
      rw [Table.view_of_not_holds fun hholds => hne (Table.holds_inj (hall x ⟨z, hz, hrole⟩) hholds)]
      exact hz
  joined := by
    rw [hw]
    exact h.joined
  promoted u hu c v hbefore hafter := by
    rw [admin_iff, hw] at hafter
    obtain ⟨hsole, hfirst⟩ := (h.promoted hafter hbefore).departing u hu
    obtain ⟨x, hx, -⟩ := hafter
    obtain ⟨y, hy, -⟩ := h.joined (c, v) x hx
    exact ⟨hsole.2, hfirst.longest hy⟩

theorem safe_commit :
    (contract hash task).Safe t Py.commit (Fit task t) (fun _ => Clean t) fun _ _ => True := by
  refine Contract.Safe.perform (fun _ => stable_clean) (fun _ => .const True)
    fun w ch r s hi hw _ h => ?_
  obtain ⟨rfl, e, rfl⟩ | ⟨rfl, rfl⟩ := exec_commitAll h
  · exact ⟨trivial, allowed_of_members rfl, trivial⟩
  · exact ⟨trivial, hw.allowed rfl, AdminSuccession.clean_release rfl⟩

theorem safe_rollback {A : BackendWorld T → Prop} :
    (contract hash task).Safe t Py.rollback A (fun _ => Clean t) fun _ _ => True := by
  refine Contract.Safe.perform (fun _ => stable_clean) (fun _ => .const True)
    fun w ch r s hi _ _ h => ?_
  obtain ⟨rfl, e, rfl⟩ | ⟨rfl, rfl⟩ := exec_rollbackAll h
  · exact ⟨trivial, allowed_of_members rfl, trivial⟩
  · exact ⟨trivial, allowed_of_members rfl, AdminSuccession.clean_release rfl⟩

theorem safe_request {α : Type} {body : Py α} {A : BackendWorld T → Prop}
    (h : (contract hash task).Safe t body A (fun _ => Fit task t) fun _ _ => True) :
    (contract hash task).Safe t (Py.getDbSession body) A (fun _ _ => True) fun _ _ => True :=
  Chatspace.safe_request safe_commit safe_rollback
    (safe_rollback.mono (fun _ _ hw => hw) (fun _ _ _ _ => trivial) fun _ _ _ hw => hw) h

/-! ### Writes -/

theorem stable_flushing {ks : List (ChannelId × UserId)} :
    (contract hash task).Stable t (Flushing task t ks) :=
  stable_fit.and (.forall fun _ => .imp fun _ => stable_warrant)

/-- A change of roles that keeps the dates, where the promotion it makes is warranted. -/
theorem safe_flushUpdate (ks : List (ChannelId × UserId)) {f : ChannelMember → ChannelMember}
    {A : BackendWorld T → Prop} (hf : ∀ x, (f x).joinedAt = x.joinedAt)
    (hA : ∀ w, A w → Flushing task t ks w) (hwarrant : ∀ w, A w → Warrant task t k w) :
    (contract hash task).Safe t (Py.flushUpdate .channelMembers k f) A
      (fun _ => Flushing task t ks) fun _ _ => True := by
  refine Contract.Safe.await (fun _ => Flushing task t ks) (fun _ => stable_flushing)
    (fun _ => .const True) (fun w ch r s hi hw _ h => ?_) fun matched => ?_
  · have hbefore := hA w hw
    obtain ⟨rfl, -⟩ | ⟨x, -, hx, -, rfl, rfl⟩ := exec_updateTable h
    · refine ⟨trivial, allowed_of_members rfl, ?_⟩
      cases r with
      | ok a =>
        exact hbefore.grows (hbefore.1.aside rfl) fun c => grows_of_eq rfl
      | error e => trivial
    · refine ⟨trivial, allowed_of_members members_write, ?_⟩
      refine hbefore.grows (fit_write hbefore.1 fun m hm => ?_) fun c => grows_write
      cases hm
      refine ⟨?_, fun _ _ => hwarrant w hw⟩
      rw [hf]
      exact hbefore.1.joined k x hx
  · cases matched with
    | true => exact fun _ _ hw => hw
    | false => exact fun _ _ _ => trivial

theorem safe_flushDelete :
    (contract hash task).Safe t (Py.flushDelete .channelMembers k) (Fit task t)
      (fun _ => Fit task t) fun _ _ => True := by
  refine Contract.Safe.await (fun _ => Fit task t) (fun _ => stable_fit) (fun _ => .const True)
    (fun w ch r s hi hw _ h => ?_) fun _ _ _ hw => hw
  obtain ⟨rfl, -⟩ | ⟨x, -, -, rfl, rfl⟩ := exec_deleteTable h
  · refine ⟨trivial, allowed_of_members rfl, ?_⟩
    cases r with
    | ok a => exact hw.aside rfl
    | error e => trivial
  · exact ⟨trivial, allowed_of_members members_write, fit_write hw nofun⟩

/-! ### The succession -/

/-- The successors known are of channels whose only admin departs, and joined first; in those still
to come the departing user has been found an admin. -/
def Known (t : T) (u : UserId) (cs : List ChannelId)
    (found : List (ChannelId × UserId × ChannelMember)) (w : BackendWorld T) : Prop :=
  (∀ s ∈ found, s.1 ∉ cs ∧ Sole t s.1 u w ∧ First (members w) s.1 u s.2.1) ∧ ∀ c ∈ cs, Told t u c w

theorem stable_known (hu : (task t).departing = some u) {cs : List ChannelId}
    {found : List (ChannelId × UserId × ChannelMember)} :
    (contract hash task).Stable t (Known t u cs found) :=
  Contract.Stable.and (.forall fun _ => .imp fun _ => (Contract.Stable.const _).and
    (stable_sole.and stable_first)) (.forall fun _ => .imp fun _ => stable_told hu)

/-- Locking in one channel keeps what is known of the successors in the others. -/
theorem lockKept_known (hu : (task t).departing = some u) (cs : List ChannelId)
    (found : List (ChannelId × UserId × ChannelMember)) :
    LockKept (contract hash task) t c (Known t u (c :: cs) found) where
  stable := stable_known hu
  locks w o r s ho hs h := by
    have hended : o ≠ .sql .commit ∧ o ≠ .sql .rollback := by
      constructor <;>
      · rintro rfl
        exact ho
    refine ⟨fun x hx => ?_, fun c' hc' => ⟨(h.2 c' hc').1.after hended, ?_⟩⟩
    · obtain ⟨hne, hsole, hfirst⟩ := h.1 x hx
      have hgrows : Grows t x.1 w (w.after t o r s) := by
        refine ⟨hs.committed, fun y hy => ?_⟩
        obtain ⟨p, hp⟩ := hy
        refine ⟨p, ?_⟩
        rw [World.after_state, hs.elsewhere (x.1, y) (List.ne_of_not_mem_cons hne)]
        exact hp
      refine ⟨hne, hgrows.sole hsole, ?_⟩
      rw [hgrows.members]
      exact hfirst
    · unfold Admin
      rw [hs.membership]
      exact (h.2 c' hc').2

/-- Nobody becomes an admin of the channel whose admins are counted. -/
theorem lasting_admin (hu : (task t).departing = some u) {cs : List ChannelId}
    {found : List (ChannelId × UserId × ChannelMember)} :
    Lasting (contract hash task) t c (Known t u (c :: cs) found) fun w x => Admin w c x where
  admin _ _ _ h := h
  other _ _ x _ _ ho h hx := (admins_other hu ho (h.2 c List.mem_cons_self)).2 x hx
  locks w o r s x _ hs hx := by
    unfold Admin at hx ⊢
    rwa [hs.membership] at hx

/-- What is found is known, and nothing has been written. -/
def Found (t : T) (u : UserId) (cs : List ChannelId)
    (found : List (Option (ChannelId × UserId × ChannelMember))) (w : BackendWorld T) : Prop :=
  Clean t w ∧ Known t u cs (found.filterMap id) w

theorem stable_found (hu : (task t).departing = some u) {cs : List ChannelId}
    {found : List (Option (ChannelId × UserId × ChannelMember))} :
    (contract hash task).Stable t (Found t u cs found) :=
  stable_clean.and (stable_known hu)

/-- A channel with no successor. -/
theorem Found.none {cs : List ChannelId}
    {found : List (Option (ChannelId × UserId × ChannelMember))} (h : Found t u (c :: cs) found w) :
    Found t u cs (found ++ [none]) w := by
  refine ⟨h.1, fun x hx => ?_, fun c' hc' => h.2.2 c' (List.mem_cons_of_mem _ hc')⟩
  rw [List.filterMap_append] at hx
  obtain ⟨hne, hx⟩ := h.2.1 x (by simpa using hx)
  exact ⟨List.not_mem_of_not_mem_cons hne, hx⟩

/-- A channel with a successor. -/
theorem Found.some {cs : List ChannelId}
    {found : List (Option (ChannelId × UserId × ChannelMember))} {x : UserId × ChannelMember}
    (h : Found t u (c :: cs) found w) (hc : c ∉ cs) (hsole : Sole t c u w)
    (hfirst : First (members w) c u x.1) : Found t u cs (found ++ [some (c, x)]) w := by
  refine ⟨h.1, fun y hy => ?_, fun c' hc' => h.2.2 c' (List.mem_cons_of_mem _ hc')⟩
  rw [List.filterMap_append, List.mem_append] at hy
  obtain hy | hy := hy
  · obtain ⟨hne, hy⟩ := h.2.1 y hy
    exact ⟨List.not_mem_of_not_mem_cons hne, hy⟩
  · obtain rfl : y = (c, x) := by simpa using hy
    exact ⟨hc, hsole, hfirst⟩

/-- A look at the memberships keeps what is found. -/
theorem Found.look {cs : List ChannelId}
    {found : List (Option (ChannelId × UserId × ChannelMember))} {p}
    {r : Except Exc (List ((ChannelId × UserId) × ChannelMember))} (h : Found t u cs found w) :
    Found t u cs found (w.after t (.sql (.select .channelMembers p)) r w.state) :=
  ⟨h.1, h.2.1, fun c hc => ⟨(h.2.2 c hc).1.after ⟨nofun, nofun⟩, (h.2.2 c hc).2⟩⟩

/-- A successor is found in a channel whose only admin departs. -/
theorem safe_successorIn (hu : (task t).departing = some u) {cs : List ChannelId}
    {found : List (Option (ChannelId × UserId × ChannelMember))} (hc : c ∉ cs) :
    (contract hash task).Safe t (successorIn u c) (Found t u (c :: cs) found)
      (fun b => Found t u cs (found ++ [b])) fun _ _ => True := by
  refine Contract.Safe.bind ((safe_lockChannelAdminIds aboutMembers
    (lockKept_known hu cs (found.filterMap id)) (lasting_admin hu)).weaken
    fun w _ hw => ⟨hw.2, hw.1⟩) fun ids => ?_
  show (contract hash task).Safe t (if _ then _ else _) _ _ _
  split
  · exact fun w _ hw => Found.none ⟨hw.1.1.2, hw.1.1.1⟩
  · rename_i hlen
    have hone : ids.length = 1 := by omega
    refine Contract.Safe.weaken (A := fun w => (Known t u (c :: cs) (found.filterMap id) w ∧
      Sole t c u w) ∧ Clean t w) ?_ fun w _ hw => ?_
    · refine Contract.Safe.bind (safe_findSuccessor aboutMembers
        (B := fun v => Found t u cs (found ++ [v.map fun v => (c, v)]))
        (fun _ => stable_found hu) fun w rows hw hclean hrows => Found.look ?_) fun _ _ _ hw => hw
      cases hv : longestStanding rows with
      | none => exact Found.none ⟨hclean, hw.1⟩
      | some v =>
        obtain ⟨k, hk, hkv, hfirst⟩ := longestStanding_eq_some hv
        obtain ⟨hmember, hkc, hku⟩ := (hrows k v.2).mp hk
        obtain rfl : k = (c, v.1) := Prod.ext hkc hkv
        refine Found.some ⟨hclean, hw.1⟩ hc hw.2 ⟨hku, fun y v' z hy hv' hz => ?_⟩
        obtain rfl : v.2 = y := Option.some.inj (hmember.symm.trans hy)
        exact hfirst ((c, v'), z) ((hrows _ _).mpr ⟨hz, rfl, hv'⟩)
    · obtain ⟨⟨⟨hknown, hclean⟩, -, hheld⟩, hall⟩ := hw
      have hadmin := (hknown.2 c List.mem_cons_self).2
      exact ⟨⟨hknown, sole_of_count hone hadmin hall ((hheld u).mpr (hall u hadmin))⟩, hclean⟩

/-- The promotion of a successor found is warranted. -/
theorem Known.warrant (hu : (task t).departing = some u)
    {found : List (ChannelId × UserId × ChannelMember)} (h : Known t u [] found w)
    {x : ChannelId × UserId × ChannelMember} (hx : x ∈ found) :
    Warrant task t (x.1, x.2.1) w := by
  obtain ⟨-, hsole, hfirst⟩ := h.1 x hx
  refine ⟨⟨u, hsole.1, (hsole.2 u).mpr rfl⟩, fun u' hu' => ?_⟩
  obtain rfl : u = u' := Option.some.inj (hu.symm.trans hu')
  exact ⟨hsole, hfirst⟩

/-- The flush of the successors. -/
theorem safe_flushSuccessors {found : List (Option (ChannelId × UserId × ChannelMember))}
    (hu : (task t).departing = some u) :
    (contract hash task).Safe t (flushSuccessors (found.filterMap id)) (Found t u [] found)
      (fun _ => Fit task t) fun _ _ => True := by
  refine Contract.Safe.bind ((Contract.Safe.forEach (I := fun ks (_ : List Unit) =>
    Flushing task t ks) (fun k ks bs => ?_) _ []).weaken fun w _ hw => ?_) fun _ w _ hw => hw.1
  · exact safe_flushUpdate ks (fun _ => rfl)
      (fun w hw => ⟨hw.1, fun j hj => hw.2 j (List.mem_cons_of_mem _ hj)⟩)
      fun w hw => hw.2 k List.mem_cons_self
  · refine ⟨fit_of_clean hw.1, fun k hk => ?_⟩
    rw [List.mem_insertionSort] at hk
    obtain ⟨x, hx, rfl⟩ := List.mem_map.mp hk
    exact hw.2.warrant hu (List.mem_of_mem_filter hx)

theorem safe_runSoleAdminSuccession {channelId : Option ChannelId}
    (hu : (task t).departing = some u) :
    (contract hash task).Safe t (runSoleAdminSuccession u channelId) (Clean t)
      (fun _ => Fit task t) fun _ _ => True := by
  refine Contract.Safe.await (fun rows w => (Clean t w ∧ ∀ c ∈ rows.map (fun r => r.1.1),
      Told t u c w) ∧ (rows.map fun r => r.1.1).Nodup)
    (fun _ => (stable_clean.and (.forall fun _ => .imp fun _ => stable_told hu)).and (.const _))
    (fun _ => .const True) (fun w ch r s hi hw _ h => ?_) fun rows => ?_
  · obtain ⟨rfl, hperm⟩ := exec_selectTable h
    refine ⟨trivial, allowed_of_members rfl, ?_⟩
    cases r with
    | error e => trivial
    | ok rows =>
      have hrows : SoloMembership.RowsOf (isAdminRow u channelId)
          ((w.state.db .channelMembers).view t) rows := by
        have hp := hperm rows rfl
        refine ⟨((hp.map Prod.fst).nodup_iff).mpr (Table.nodup_scan _), fun k x => ?_⟩
        rw [hp.mem_iff, Table.mem_scan]
        rfl
      refine ⟨⟨hw, fun c hc => ⟨⟨[], w.own t, channelId, rows, World.own_after, hc,
        List.forall_mem_nil _⟩, ?_⟩⟩, hrows.channels.1⟩
      obtain ⟨-, x, hx, hrole⟩ := (hrows.channels.2 c).mp hc
      exact ⟨x, (view_of_clean hw (c, u)).symm.trans hx, hrole⟩
  · refine Contract.Safe.const fun hnodup => ?_
    refine Contract.Safe.bind ((Contract.Safe.forEach (I := fun cs found w => Found t u cs found w ∧
      cs.Nodup) (fun c cs found => ?_) _ []).weaken fun w _ hw =>
        ⟨⟨hw.1, (fun _ hx => nomatch hx), hw.2⟩, hnodup⟩) fun found => ?_
    · refine Contract.Safe.const fun hcs => ?_
      obtain ⟨hc, hcs⟩ := List.nodup_cons.mp hcs
      exact (safe_successorIn hu hc).mono (fun _ _ hw => hw) (fun _ _ _ hw => ⟨hw, hcs⟩)
        fun _ _ _ hw => hw
    · exact Contract.Safe.bind ((safe_flushSuccessors hu).weaken fun w _ hw => by simpa using hw.1)
        fun _ _ _ hw => hw

/-! ### The requests -/

theorem safe_departMember (hu : (task t).departing = some u) :
    (contract hash task).Safe t (departMember c u m) (Clean t) (fun _ => Fit task t)
      fun _ _ => True := by
  show (contract hash task).Safe t (if _ then _ else _) _ _ _
  split
  · exact Contract.Safe.bind (safe_runSoleAdminSuccession hu) fun _ => safe_flushDelete
  · exact safe_flushDelete.weaken fun w _ hw => fit_of_clean hw

/-- The caller is one of the admins held. -/
theorem safe_authorizeAdmin :
    (contract hash task).Safe t (authorizeAdmin c caller) (Clean t)
      (fun a w => Clean t w ∧ ∀ channel, a = .ok channel → Anchored t c w) fun _ _ => True := by
  refine Contract.Safe.bind (kept_clean.perform aboutMembers trivial) fun channel => ?_
  cases channel with
  | none => exact fun _ _ hw => ⟨hw, nofun⟩
  | some channel =>
    refine Contract.Safe.bind ((safe_lockChannelAdminIds aboutMembers lockKept_true
      lasting_none).weaken fun _ _ hw => ⟨trivial, hw⟩) fun ids => ?_
    show (contract hash task).Safe t (if _ then _ else (if _ then _ else _)) _ _ _
    split
    · exact fun _ _ hw => ⟨hw.1.1.2, nofun⟩
    split
    · exact fun _ _ hw => ⟨hw.1.1.2, nofun⟩
    · rename_i hcaller
      rw [not_not] at hcaller
      exact fun w _ hw => ⟨hw.1.1.2, fun _ _ => ⟨caller, (hw.1.2.2 caller).mpr hcaller⟩⟩

/-- Committing, and what leaves the memberships alone. -/
theorem safe_commitThen {α : Type} {p : Py α} (hp : p.Only Aside) :
    (contract hash task).Safe t (Py.commit.bind fun _ => p) (Fit task t) (fun _ => Fit task t)
      fun _ _ => True := by
  refine Contract.Safe.bind safe_commit fun _ => ?_
  exact (kept_clean.only aboutMembers hp).mono (fun _ _ hw => hw)
    (fun _ _ _ hw => fit_of_clean hw) fun _ _ _ hw => hw

theorem safe_leave (hu : (task t).departing = some u) :
    (contract hash task).Safe t (leaveChannelRoute c u) (Clean t) (fun _ _ => True)
      fun _ _ => True := by
  refine safe_request (Contract.Safe.bind (Q := fun _ => Fit task t) ?_ fun outcome => ?_)
  · refine Contract.Safe.bind (kept_clean.perform aboutMembers trivial) fun channel => ?_
    cases channel with
    | none => exact fun _ _ hw => fit_of_clean hw
    | some channel =>
      refine Contract.Safe.bind (kept_clean.perform aboutMembers trivial) fun found => ?_
      cases found with
      | none => exact fun _ _ hw => fit_of_clean hw
      | some m => exact Contract.Safe.bind (safe_departMember hu) fun _ _ _ hw => hw
  · cases outcome with
    | notMember => exact fun _ _ hw => hw
    | left => exact safe_commitThen AdminSuccession.only_publish

theorem safe_remove (hu : (task t).departing = some u) :
    (contract hash task).Safe t (removeChannelMemberRoute c caller u) (Clean t) (fun _ _ => True)
      fun _ _ => True := by
  refine safe_request (Contract.Safe.bind (Q := fun _ => Fit task t) ?_ fun outcome => ?_)
  · refine Contract.Safe.bind safe_authorizeAdmin fun authorized => ?_
    cases authorized with
    | error refusal => exact fun _ _ hw => fit_of_clean hw.1
    | ok channel =>
      refine Contract.Safe.weaken (A := Clean t) ?_ fun _ _ hw => hw.1
      refine Contract.Safe.bind (kept_clean.perform aboutMembers trivial) fun user => ?_
      cases user with
      | none => exact fun _ _ hw => fit_of_clean hw
      | some user =>
        refine Contract.Safe.bind (kept_clean.perform aboutMembers trivial) fun found => ?_
        cases found with
        | none => exact fun _ _ hw => fit_of_clean hw
        | some m => exact Contract.Safe.bind (safe_departMember hu) fun _ _ _ hw => hw
  · cases outcome with
    | refused refusal => exact fun _ _ _ => trivial
    | notMember =>
      exact safe_commit.mono (fun _ _ hw => hw) (fun _ _ _ hw => fit_of_clean hw)
        fun _ _ _ hw => hw
    | removed => exact safe_commitThen AdminSuccession.only_publish

/-- Who is made an admin by an admin has not departed from anywhere. -/
theorem safe_changeRole {role : ChannelMemberRole} (hnone : (task t).departing = none) :
    (contract hash task).Safe t (updateChannelMemberRoleRoute c caller u role) (Clean t)
      (fun _ _ => True) fun _ _ => True := by
  have hdeparting : ∀ u' ∈ (task t).departing, ∀ P : Prop, P := by
    intro u' hu'
    rw [hnone] at hu'
    cases hu'
  refine safe_request (Contract.Safe.bind (Q := fun _ => Fit task t) ?_ fun outcome => ?_)
  · refine Contract.Safe.bind safe_authorizeAdmin fun authorized => ?_
    cases authorized with
    | error refusal => exact fun _ _ hw => fit_of_clean hw.1
    | ok channel =>
      have hkept : AdminLocks.Kept (contract (T := T) hash task) t
          fun w => Clean t w ∧ Anchored t c w := kept_clean.and ZeroAdmins.kept_anchored
      refine Contract.Safe.weaken (A := fun w => Clean t w ∧ Anchored t c w) ?_
        fun _ _ hw => ⟨hw.1, hw.2 channel rfl⟩
      refine Contract.Safe.bind (hkept.perform aboutMembers trivial) fun found => ?_
      cases found with
      | none => exact fun _ _ hw => fit_of_clean hw.1
      | some m =>
        show (contract hash task).Safe t (if _ then _ else _) _ _ _
        split
        · exact fun _ _ hw => fit_of_clean hw.1
        · refine Contract.Safe.bind (safe_flushUpdate [] (fun _ => rfl)
            (fun _ hw => ⟨fit_of_clean hw.1, nofun⟩) fun _ hw =>
              ⟨hw.2, fun u' hu' => hdeparting u' hu' _⟩) fun _ _ _ hw => hw.1
  · cases outcome with
    | refused refusal => exact fun _ _ _ => trivial
    | updated m => exact safe_commitThen trivial
    | noOp m => exact safe_commitThen trivial

theorem safe_deactivate (hu : (task t).departing = some u) :
    (contract hash task).Safe t (deactivate u) (Clean t) (fun _ => Fit task t)
      fun _ _ => True := by
  refine Contract.Safe.bind (safe_runSoleAdminSuccession hu) fun promoted => ?_
  refine Contract.Safe.bind (kept_fit.only aboutMembers
    (aside_flushUpdate (τ := .users) nofun)) fun _ => ?_
  exact Contract.Safe.bind (kept_fit.only aboutMembers aside_revokeSessions) fun _ _ _ hw => hw

theorem safe_deactivateUser {x : User} (hu : (task t).departing = some u) :
    (contract hash task).Safe t (deactivateUser u x) (Clean t) (fun _ => Fit task t)
      fun _ _ => True := by
  show (contract hash task).Safe t (if _ then _ else (if _ then _ else _)) _ _ _
  split
  · exact fun _ _ hw => fit_of_clean hw
  split
  · have hlock : lockAndCountActiveSystemAdmins.Only Aside :=
      (only_selectForUpdate trivial fun _ => nofun).bind fun _ => trivial
    refine Contract.Safe.bind (kept_clean.only aboutMembers hlock) fun n => ?_
    show (contract hash task).Safe t (if _ then _ else _) _ _ _
    split
    · exact fun _ _ hw => fit_of_clean hw
    · exact safe_deactivate hu
  · exact safe_deactivate hu

theorem safe_deactivateRoute (hu : (task t).departing = some u) :
    (contract hash task).Safe t (deactivateUserRoute u) (Clean t) (fun _ _ => True)
      fun _ _ => True := by
  have hget : (getUserOr404 u).Only Aside := by
    refine (Prog.only_perform trivial).bind fun found => ?_
    cases found <;> trivial
  refine safe_request (Contract.Safe.bind (kept_clean.only aboutMembers hget) fun x => ?_)
  refine Contract.Safe.bind (safe_deactivateUser hu) fun result => ?_
  cases result with
  | lastActiveSystemAdmin => exact Contract.Safe.bind safe_rollback fun _ _ _ _ => trivial
  | alreadyInactive => exact safe_commitThen trivial
  | deactivated revoked promoted =>
    exact safe_commitThen ((Prog.only_forEach _ fun _ => aside_invalidate).bind fun _ => trivial)

/-- Every request commits what is fit. -/
theorem safe_task :
    (contract hash task).Safe t (task t).program (Clean t) (fun _ _ => True) fun _ _ => True := by
  cases ht : task t with
  | leave c u => exact safe_leave (by rw [ht]; rfl)
  | remove c caller u => exact safe_remove (by rw [ht]; rfl)
  | changeRole c caller u role =>
    exact Contract.Safe.bind (safe_changeRole (by rw [ht]; rfl)) fun _ _ _ _ => trivial
  | deactivate u =>
    exact Contract.Safe.bind (safe_deactivateRoute (by rw [ht]; rfl)) fun _ _ _ _ => trivial

/-! ### The result -/

abbrev MembershipPool (T : Type) : Type := Pool T Op Op.Res Exc Unit (State T)

/-- Before the first request: no transaction on the memberships. -/
structure Start (task : T → Task) (p : MembershipPool T) : Prop where
  prog : ∀ t, p.prog t = (task t).program
  hold : ∀ k, (p.world.state.db .channelMembers).hold k = none

theorem Start.sound {p : MembershipPool T} (h : Start task p) (hash : RawToken → TokenHash) :
    (contract hash task).Sound (fun _ _ _ => True) (fun _ _ _ => True) p where
  inv := trivial
  safe t := by
    refine ⟨Clean t, stable_clean, fun k v hv => ?_, ?_⟩
    · rw [h.hold] at hv
      cases hv
    · rw [h.prog]
      exact safe_task

/-- **No unwarranted promotion.** In every interleaving of leaves, removals, changes of role and
deactivations in which nobody else's commit takes the departing user's row away, or makes an admin,
between the query that finds the departing user an admin of a channel and the locks on the channel's
admins: whoever a step of a departure makes an admin, the departing user is at that moment the
channel's only admin, and the promoted member is another one of its members, of whom none joined
earlier. -/
theorem warranted_promotion {p₀ p q : MembershipPool T} {ls : List (Label T Choice Tick)}
    {ch : Choice} (h₀ : Start task p₀)
    (hC : (machine T hash).Meets (undisturbed task) p₀ (ls ++ [.proc t ch]))
    (hp : (machine T hash).run p₀ ls = some p) (hq : (machine T hash).step p (.proc t ch) = some q)
    (hu : (task t).departing = some u) (hbefore : ¬ Admin p.world c v)
    (hafter : Admin q.world c v) :
    OnlyAdmin (members p.world) c u ∧ Longest (members p.world) c u v := by
  obtain ⟨hC₁, hC₂⟩ := Machine.meets_append hC
  have hmid := (h₀.sound hash).run eventsOk hC₁ hp
  obtain ⟨o, k, r, s, -, -, -, hg⟩ := hmid.guar (hC₂ p hp).1 hq
  exact hg.promoted u hu c v hbefore hafter

/-! ### A leave submitted twice -/

def leaveTwice (_ : Bool) : Task := .leave 1 10

/-- User 10 is an admin of channel 1, which user 30 joined first; user 20 is another member. -/
def channelOne (role : ChannelMemberRole) : MembershipPool Bool where
  world := ⟨State.ofRows fun
    | .channels => [(1, ⟨['a'], false, 10, 0⟩)]
    | .channelMembers => [((1, 10), ⟨.admin, 1⟩), ((1, 20), ⟨role, 2⟩), ((1, 30), ⟨.member, 0⟩)]
    | _ => [], []⟩
  prog t := (leaveTwice t).program

theorem channelOne_start (role : ChannelMemberRole) : Start leaveTwice (channelOne role) where
  prog _ := rfl
  hold _ := rfl

/-- `k` awaits of request `t`. -/
def awaits (t : Bool) (k : ℕ) : List (Label Bool Choice Tick) :=
  List.replicate k (.proc t (.ok [] 1))

/-- A commit before the other request has queried the memberships. -/
abbrev beforeQuery : Machine.Condition Bool Op Op.Res Exc Choice Tick (State Bool) where
  op t o _ w := o.isCommit = true → ∀ e ∈ w.own !t, e.op.isSelect = false
  event _ _ := True

/-- Who has not queried the memberships is not counting. -/
theorem undisturbed_of_beforeQuery {p : MembershipPool Bool} {ls : List (Label Bool Choice Tick)}
    (h : (machine Bool id).Meets beforeQuery p ls) :
    (machine Bool id).Meets (undisturbed leaveTwice) p ls := by
  have hop : ∀ t o ch w, beforeQuery.op t o ch w → (undisturbed leaveTwice).op t o ch w := by
    intro t o ch w h ho t' ht' u _ c hcounting
    subst ho
    obtain ⟨⟨newer, older, channelId, rows, hown, -, -⟩, -⟩ := hcounting
    rw [Bool.eq_not.mpr ht'] at hown
    have hquery := h rfl _ (by rw [hown]; exact List.mem_append_right _ List.mem_cons_self)
    cases hquery
  exact Machine.meets_mono hop (fun _ _ _ => trivial) h

/-- User 10 is the only admin: the first of two leaves promotes user 30, and the second has read the
membership before. -/
theorem warranted_promotion_leave :
    ∃ p q, (machine Bool id).run (channelOne .member) (awaits true 2 ++ awaits false 8) = some p ∧
      (machine Bool id).step p (.proc false (.ok [] 1)) = some q ∧
      ¬ Admin p.world 1 30 ∧ Admin q.world 1 30 ∧
      OnlyAdmin (members p.world) 1 10 ∧ Longest (members p.world) 1 10 30 := by
  obtain ⟨p, hp⟩ := Option.isSome_iff_exists.mp
    (show ((machine Bool id).run (channelOne .member)
      (awaits true 2 ++ awaits false 8)).isSome = true by decide)
  have hend : ¬ Admin p.world 1 30 ∧ ∃ q,
      (machine Bool id).step p (.proc false (.ok [] 1)) = some q ∧ Admin q.world 1 30 := by
    cases hp
    exact ⟨by decide, _, rfl, by decide⟩
  obtain ⟨hbefore, q, hq, hafter⟩ := hend
  exact ⟨p, q, hp, hq, hbefore, hafter, warranted_promotion (channelOne_start .member)
    (undisturbed_of_beforeQuery (by decide)) hp hq rfl hbefore hafter⟩

/-- **An unwarranted promotion.** User 20 is an admin too: the first leave commits, and the second,
which has read that user 10 is an admin, locks the one admin that is left and promotes user 30. -/
theorem unwarranted_promotion :
    Start leaveTwice (channelOne .admin) ∧
      ∃ p q, (machine Bool id).run (channelOne .admin)
          (awaits true 3 ++ awaits false 8 ++ awaits true 5) = some p ∧
        (machine Bool id).step p (.proc true (.ok [] 1)) = some q ∧
        ¬ Admin p.world 1 30 ∧ Admin q.world 1 30 ∧ Admin p.world 1 20 ∧
          ¬ OnlyAdmin (members p.world) 1 10 := by
  obtain ⟨p, hp⟩ := Option.isSome_iff_exists.mp
    (show ((machine Bool id).run (channelOne .admin)
      (awaits true 3 ++ awaits false 8 ++ awaits true 5)).isSome = true by decide)
  have hend : ¬ Admin p.world 1 30 ∧ Admin p.world 1 20 ∧ ¬ OnlyAdmin (members p.world) 1 10 ∧
      ∃ q, (machine Bool id).step p (.proc true (.ok [] 1)) = some q ∧ Admin q.world 1 30 := by
    cases hp
    exact ⟨by decide, by decide, by decide, _, rfl, by decide⟩
  obtain ⟨hbefore, hother, hnot, q, hq, hafter⟩ := hend
  exact ⟨channelOne_start .admin, p, q, hp, hq, hbefore, hafter, hother, hnot⟩

end Chatspace.Promotions
