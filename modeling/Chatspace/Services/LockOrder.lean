import Chatspace.Backend.Tables
import Chatspace.Services.AdminLocks
import Chatspace.Services.AdminUsers
import Mathlib.Data.Prod.Lex

/-!
# The order in which rows are locked

Leaves, removals and deactivations, step by step in any order, with the rows of `users` and
`channel_members` that they hold and wait for.  System admins are locked in the order of their ids,
then the admins of one channel after another, each in the order of their ids; memberships of others
and users who are no system admins come last.

* `ordered` — the condition on the order in which rows are selected;
* `Owns` — a transaction that has locked the admins of a channel, of which there is one at a time;
* `contract` — **whoever has to wait asks for a row that comes after all it holds**.
-/

namespace Chatspace.LockOrder

open Interleave Store Channels AdminUsers Sessions
open AdminLocks (Admin membership Clean view_of_clean)

/-- One request. -/
inductive Task where
  | leave (channelId : ChannelId) (userId : UserId)
  | remove (channelId : ChannelId) (callerId userId : UserId)
  | deactivate (userId : UserId)

def Task.program : Task → Py Unit
  | .leave c u => leaveChannelRoute c u
  | .remove c caller u => removeChannelMemberRoute c caller u
  | .deactivate u => (deactivateUserRoute u).bind fun _ => .ret ()

/-- The user whom a request deactivates. -/
def Task.target : Task → Option UserId
  | .deactivate u => some u
  | _ => none

/-- A row of `users` or of `channel_members`. -/
inductive Row where
  | user (userId : UserId)
  | membership (channelId : ChannelId) (userId : UserId)
deriving DecidableEq

/-- The row that an operation locks or writes. -/
def lockedRow : Op → Option Row
  | .sql (.lock .users u _) => some (.user u)
  | .sql (.update .users u _ _) => some (.user u)
  | .sql (.insert .users u _) => some (.user u)
  | .sql (.delete .users u) => some (.user u)
  | .sql (.lock .channelMembers k _) => some (.membership k.1 k.2)
  | .sql (.update .channelMembers k _ _) => some (.membership k.1 k.2)
  | .sql (.insert .channelMembers k _) => some (.membership k.1 k.2)
  | .sql (.delete .channelMembers k) => some (.membership k.1 k.2)
  | _ => none

variable {T : Type} [DecidableEq T] {hash : RawToken → TokenHash} {task : T → Task}
  {pos : ChannelId → ℕ} {t t' : T} {w w' : BackendWorld T} {c : ChannelId} {u x : UserId}
  {s : State T} {o : Op} {r : Except Exc o.Res}

abbrev LockPool (T : Type) : Type := Pool T Op Op.Res Exc Unit (State T)

/-- The transaction that holds a row. -/
def holder (w : BackendWorld T) : Row → Option T
  | .user u => ((w.state.db .users).hold u).map Hold.owner
  | .membership c u => ((w.state.db .channelMembers).hold (c, u)).map Hold.owner

/-- The row that the next operation of a request locks or writes. -/
def wanted (p : LockPool T) (t : T) : Option Row :=
  match p.prog t with
  | .call o _ => lockedRow o
  | _ => none

/-! ### The order -/

/-- A committed system admin. -/
def sysAdmin (w : BackendWorld T) (u : UserId) : Bool :=
  ((w.state.db .users).committed u).any User.isSystemAdmin

/-- System admins, the admins of each channel, other members, other users. -/
def rank (pos : ChannelId → ℕ) (w : BackendWorld T) : Row → ℕ ×ₗ ℕ ×ₗ ℕ
  | .user u => toLex (if sysAdmin w u then 0 else 3, toLex (u, 0))
  | .membership c u =>
    if Admin w c u then toLex (1, toLex (pos c, u)) else toLex (2, toLex (c, u))

/-- The rows come channel by channel, the channels in order. -/
def Ascending (pos : ChannelId → ℕ) (rows : List ((ChannelId × UserId) × ChannelMember)) : Prop :=
  rows.Pairwise fun a b => a.1.1 = b.1.1 ∨ pos a.1.1 < pos b.1.1

/-- The rows that a query is answered with. -/
def rowsOf (t : T) (q : ChannelId × UserId → ChannelMember → Bool) (w : BackendWorld T) :
    Choice → List ((ChannelId × UserId) × ChannelMember)
  | .ok order _ => shuffle order ((w.state.db .channelMembers).scan t q)
  | _ => []

/-- An admin of the channel whose row the transaction does not hold. -/
def Unheld (t : T) (c : ChannelId) (w : BackendWorld T) (j : ChannelId × UserId) : Prop :=
  j.1 = c ∧ ¬ (w.state.db .channelMembers).Holds t j ∧ Admin w c j.2

/-- The admins of the channel that the transaction does not hold come after the rows of the channel
that it holds. -/
def AfterHeld (t : T) (c : ChannelId) (w : BackendWorld T) : Prop :=
  ∀ k ∈ (w.state.db .channelMembers).keys, ∀ j ∈ (w.state.db .channelMembers).keys,
    k.1 = c → (w.state.db .channelMembers).Holds t k → Unheld t c w j → k.2 < j.2

instance (rows : List ((ChannelId × UserId) × ChannelMember)) : Decidable (Ascending pos rows) := by
  unfold Ascending
  infer_instance

instance (j : ChannelId × UserId) : Decidable (Unheld t c w j) :=
  inferInstanceAs (Decidable (_ ∧ _ ∧ _))

instance : Decidable (AfterHeld t c w) := by
  unfold AfterHeld
  infer_instance

/-- A system admin who is to be deactivated is still active. -/
def TargetActive (task : T → Task) (t : T) (w : BackendWorld T) : Prop :=
  ∀ u ∈ (task t).target, ∀ x ∈ (w.state.db .users).committed u,
    x.isSystemAdmin = true → x.isActive = true

instance : Decidable (TargetActive task t w) := by
  unfold TargetActive
  infer_instance

/-- Every query on the memberships answers with the channels in one common order; a request that
locks the admins of a channel again finds none that comes before those it holds; a system admin who
is to be deactivated is still active when the active system admins are selected. -/
def ordered (task : T → Task) (pos : ChannelId → ℕ) :
    Machine.Condition T Op Op.Res Exc Choice Tick (State T) where
  op t o ch w :=
    (∀ q ∈ o.selected .channelMembers,
      Ascending pos (rowsOf t q w ch) ∧ ∀ c, q = isAdminOf c → AfterHeld t c w) ∧
    ((o.selected .users).isSome = true → TargetActive task t w)
  event _ _ := True

/-! ### What holds in every run -/

/-- The transaction selected the admins of the channel, and found these rows. -/
def Selected (t : T) (c : ChannelId) (rows : List ((ChannelId × UserId) × ChannelMember))
    (w : BackendWorld T) : Prop :=
  (⟨t, .sql (.select .channelMembers (isAdminOf c)), .ok rows⟩ : Entry T Op Op.Res Exc) ∈ w.trace

/-- The users in the rows. -/
def found (rows : List ((ChannelId × UserId) × ChannelMember)) : List UserId :=
  rows.map fun r => r.1.2

/-- An admin found is one until the membership ends; of two selections the later one has found
every admin of the earlier one. -/
structure Inv (w : BackendWorld T) : Prop where
  present : ∀ c u, membership w c u = none → (w.state.db .channelMembers).hold (c, u) = none
  lasting : ∀ t c rows, Selected t c rows w → ∀ u ∈ found rows,
    Admin w c u ∨ membership w c u = none
  comparable : ∀ t t' c rows rows', Selected t c rows w → Selected t' c rows' w →
    (∀ u ∈ found rows, Admin w c u → u ∈ found rows') ∨
      ∀ u ∈ found rows', Admin w c u → u ∈ found rows

/-- The transaction selected the admins of the channel, holds all that still are, and there is
one. -/
def Owns (t : T) (c : ChannelId) (w : BackendWorld T) : Prop :=
  ∃ rows, Selected t c rows w ∧
    (∀ u ∈ found rows, Admin w c u → (w.state.db .channelMembers).Holds t (c, u)) ∧
      ∃ u ∈ found rows, Admin w c u

/-- What a step does to the committed rows: memberships end, and whoever owns a channel makes admins
in it. -/
structure Step (t : T) (w w' : BackendWorld T) : Prop where
  gone : ∀ c u, membership w c u = none → membership w' c u = none
  lasts : ∀ c u, Admin w c u → Admin w' c u ∨ membership w' c u = none
  made : ∀ c u, Admin w' c u → Admin w c u ∨ Owns t c w
  flags : ∀ u, sysAdmin w' u = sysAdmin w u

/-- If the row is held by another transaction then it comes after all that are held. -/
def InOrder (pos : ChannelId → ℕ) (t : T) (o : Op) (w : BackendWorld T) : Prop :=
  ∀ x t', lockedRow o = some x → holder w x = some t' → t' ≠ t →
    ∀ y, holder w y = some t → rank pos w y < rank pos w x

def contract (hash : RawToken → TokenHash) (task : T → Task) (pos : ChannelId → ℕ) :
    Contract (machine T hash) where
  inv := Inv
  pre := ordered task pos
  guar t o _ w w' := Step t w w' ∧ InOrder pos t o w

theorem eventsOk : (contract hash task pos).EventsOk (T := T) := by
  intro e w s hi _ h
  cases h
  exact ⟨hi.present, hi.lasting, hi.comparable⟩

omit [DecidableEq T] in
theorem not_admin_of_none (h : membership w c u = none) : ¬ Admin w c u := by
  intro ⟨m, hm, _⟩
  exact nomatch h.symm.trans hm

omit [DecidableEq T] in
/-- **A channel has one owner at a time.** -/
theorem owns_unique (hi : Inv w) (h : Owns t c w) (h' : Owns t' c w) : t = t' := by
  obtain ⟨rows, hrows, hcovered, u, hu, ha⟩ := h
  obtain ⟨rows', hrows', hcovered', u', hu', ha'⟩ := h'
  have hboth : ∃ v, (w.state.db .channelMembers).Holds t (c, v) ∧
      (w.state.db .channelMembers).Holds t' (c, v) := by
    cases hi.comparable t t' c rows rows' hrows hrows' with
    | inl hsub => exact ⟨u, hcovered u hu ha, hcovered' u (hsub u hu ha) ha⟩
    | inr hsub => exact ⟨u', hcovered u' (hsub u' hu' ha') ha', hcovered' u' hu' ha'⟩
  obtain ⟨v, ⟨p, hp⟩, p', hp'⟩ := hboth
  have hsame : some (Hold.mk t p) = some (Hold.mk t' p') := hp.symm.trans hp'
  cases hsame
  rfl

/-! ### What the others do -/

/-- What a transaction sees of a step that it does not take. -/
structure Others (t : T) (w w' : BackendWorld T) : Prop where
  gone : ∀ c u, membership w c u = none → membership w' c u = none
  lasts : ∀ c u, Admin w c u → Admin w' c u ∨ membership w' c u = none
  made : ∀ c u, Admin w' c u → Admin w c u ∨ ∃ t', t' ≠ t ∧ Owns t' c w
  flags : ∀ u, sysAdmin w' u = sysAdmin w u
  selected : ∀ c rows, Selected t c rows w' ↔ Selected t c rows w

theorem others (ho : (contract hash task pos).Other t w w') : Others t w w' := by
  cases ho with
  | proc hne hpre hexec hguar =>
    obtain ⟨hgone, hlasts, hmade, hflags⟩ := hguar.1
    refine ⟨hgone, hlasts, fun c u h => (hmade c u h).imp_right fun howns => ⟨_, hne, howns⟩,
      hflags, fun c rows => ?_⟩
    unfold Selected
    rw [World.after_trace, List.mem_cons]
    refine ⟨fun h => h.resolve_left fun he => ?_, .inr⟩
    cases he
    exact hne rfl
  | event hpre hexec =>
    cases hexec
    exact ⟨fun _ _ h => h, fun _ _ h => .inl h, fun _ _ h => .inl h, fun _ => rfl, fun _ _ => Iff.rfl⟩

omit [DecidableEq T] in
/-- An admin found who is one now was one before. -/
theorem Others.admin_of_found (h : Others t w w') (hi : Inv w)
    {rows : List ((ChannelId × UserId) × ChannelMember)} (hrows : Selected t c rows w)
    (hu : u ∈ found rows) (ha : Admin w' c u) : Admin w c u := by
  refine (hi.lasting t c rows hrows u hu).resolve_right fun hnone => ?_
  exact not_admin_of_none (h.gone c u hnone) ha

theorem stable_owns : (contract hash task pos).Stable t (Owns t c) := by
  intro w w' hi _ ho h
  obtain ⟨rows, hrows, hcovered, u, hu, ha⟩ := h
  have hothers := others ho
  have hkeeps := other_keeps ho .channelMembers
  refine ⟨rows, (hothers.selected c rows).mpr hrows, fun v hv hav => ?_, u, hu, ?_⟩
  · exact hkeeps.holds.mp (hcovered v hv (hothers.admin_of_found hi hrows hv hav))
  · exact ((AdminLocks.held_other ho).mpr ⟨hcovered u hu ha, ha⟩).2

/-- In a channel that the transaction owns nobody else makes an admin. -/
theorem stable_notAdmin :
    (contract hash task pos).Stable t fun w => Owns t c w ∧ ¬ Admin w c u := by
  intro w w' hi hi' ho h
  refine ⟨stable_owns w w' hi hi' ho h.1, fun ha => ?_⟩
  cases (others ho).made c u ha with
  | inl ha => exact h.2 ha
  | inr howns =>
    obtain ⟨t', hne, howns⟩ := howns
    exact hne (owns_unique hi howns h.1)

/-! ### Steps of the transaction itself -/

/-- The step ends no transaction: what is committed is as it was, and what is held is still held. -/
structure Forward (t : T) (w : BackendWorld T) (s : State T) : Prop where
  users : (s.db .users).committed = (w.state.db .users).committed
  members : (s.db .channelMembers).committed = (w.state.db .channelMembers).committed
  holds : ∀ k, (w.state.db .channelMembers).Holds t k → (s.db .channelMembers).Holds t k
  holdsUser : ∀ u, (w.state.db .users).Holds t u → (s.db .users).Holds t u

/-- An operation that ends no transaction. -/
def Going (o : Op) : Prop := o ≠ .sql .commit ∧ o ≠ .sql .rollback

theorem forward_of_exec {ch : Choice} (ho : Going o)
    (h : (machine T hash).exec t o ch w.state = some (r, s)) : Forward t w s where
  users := exec_committed_db ho.1 h .users
  members := exec_committed_db ho.1 h .channelMembers
  holds _ hk := exec_holds ho.1 ho.2 h hk
  holdsUser _ hk := exec_holds ho.1 ho.2 h hk

omit [DecidableEq T] in
theorem Forward.membership (h : Forward t w s) (c : ChannelId) (u : UserId) :
    membership (w.after t o r s) c u = membership w c u := congrFun h.members (c, u)

omit [DecidableEq T] in
theorem Forward.admin (h : Forward t w s) : Admin (w.after t o r s) c u ↔ Admin w c u := by
  unfold Admin
  rw [h.membership]

omit [DecidableEq T] in
theorem Forward.sysAdmin (h : Forward t w s) : sysAdmin (w.after t o r s) u = sysAdmin w u := by
  unfold LockOrder.sysAdmin
  rw [World.after_state, h.users]

omit [DecidableEq T] in
theorem Forward.step (h : Forward t w s) : Step t w (w.after t o r s) where
  gone c u hnone := (h.membership c u).trans hnone
  lasts _ _ ha := .inl (h.admin.mpr ha)
  made _ _ ha := .inl (h.admin.mp ha)
  flags _ := h.sysAdmin

omit [DecidableEq T] in
theorem selected_after {rows : List ((ChannelId × UserId) × ChannelMember)} :
    Selected t' c rows (w.after t o r s) ↔
      ((⟨t', .sql (.select .channelMembers (isAdminOf c)), .ok rows⟩ : Entry T Op Op.Res Exc) =
        ⟨t, o, r⟩) ∨ Selected t' c rows w := List.mem_cons

omit [DecidableEq T] in
theorem Selected.after {rows : List ((ChannelId × UserId) × ChannelMember)}
    (h : Selected t' c rows w) : Selected t' c rows (w.after t o r s) := List.mem_cons_of_mem _ h

omit [DecidableEq T] in
/-- **The invariant is kept** by a step as allowed that holds no row which is not there, and finds
the admins there are if it selects those of a channel. -/
theorem Inv.after (hi : Inv w) (hstep : Step t w (w.after t o r s))
    (hpresent : ∀ c u, membership (w.after t o r s) c u = none →
      (s.db .channelMembers).hold (c, u) = none)
    (hnew : ∀ c rows, (⟨t, .sql (.select .channelMembers (isAdminOf c)), .ok rows⟩ :
      Entry T Op Op.Res Exc) = ⟨t, o, r⟩ → ∀ u, u ∈ found rows ↔ Admin (w.after t o r s) c u) :
    Inv (w.after t o r s) where
  present := hpresent
  lasting t' c rows hrows u hu := by
    cases selected_after.mp hrows with
    | inl he =>
      have ht : t' = t := congrArg Entry.proc he
      subst ht
      exact .inl ((hnew c rows he u).mp hu)
    | inr hrows =>
      cases hi.lasting t' c rows hrows u hu with
      | inl ha => exact hstep.lasts c u ha
      | inr hnone => exact .inr (hstep.gone c u hnone)
  comparable t₁ t₂ c rows rows' h₁ h₂ := by
    -- an admin now who was found before was an admin before
    have hbefore : ∀ t' rows, Selected t' c rows w → ∀ u ∈ found rows,
        Admin (w.after t o r s) c u → Admin w c u := by
      intro t' rows hrows u hu ha
      refine (hi.lasting t' c rows hrows u hu).resolve_right fun hnone => ?_
      exact not_admin_of_none (hstep.gone c u hnone) ha
    cases selected_after.mp h₁ with
    | inl he =>
      have ht : t₁ = t := congrArg Entry.proc he
      subst ht
      exact .inr fun u _ ha => (hnew c rows he u).mpr ha
    | inr h₁ =>
      cases selected_after.mp h₂ with
      | inl he =>
        have ht : t₂ = t := congrArg Entry.proc he
        subst ht
        exact .inl fun u _ ha => (hnew c rows' he u).mpr ha
      | inr h₂ =>
        exact (hi.comparable t₁ t₂ c rows rows' h₁ h₂).imp
          (fun hsub u hu ha => hsub u hu (hbefore t₁ rows h₁ u hu ha))
          fun hsub u hu ha => hsub u hu (hbefore t₂ rows' h₂ u hu ha)

/-! ### Steps that lock and write no user and no membership -/

/-- The operation touches neither `users` nor `channel_members`, but may read `users` and single
memberships. -/
def Quiet : Op → Prop
  | .sql (.select τ _) => τ ≠ .channelMembers
  | .sql (.lock τ ..) | .sql (.update τ ..) | .sql (.insert τ ..) | .sql (.delete τ ..) =>
    τ ≠ .users ∧ τ ≠ .channelMembers
  | .sql .commit | .sql .rollback => False
  | _ => True

theorem Quiet.spares {τ : Tbl} (hτ : τ = .users ∨ τ = .channelMembers) (ho : Quiet o) :
    Spares τ o := by
  cases o with
  | sql q =>
    cases q with
    | select _ _ => trivial
    | get _ _ => trivial
    | lock τ' _ _ => rcases hτ with rfl | rfl <;> simp_all [Quiet, Spares]
    | update τ' _ _ _ => rcases hτ with rfl | rfl <;> simp_all [Quiet, Spares]
    | insert τ' _ _ => rcases hτ with rfl | rfl <;> simp_all [Quiet, Spares]
    | delete τ' _ => rcases hτ with rfl | rfl <;> simp_all [Quiet, Spares]
    | commit => exact ho
    | rollback => exact ho
  | _ => trivial

theorem Quiet.going (ho : Quiet o) : Going o := by
  constructor
  · rintro rfl
    exact ho
  · rintro rfl
    exact ho

theorem lockedRow_of_quiet (ho : Quiet o) : lockedRow o = none := by
  cases o with
  | sql q =>
    cases q with
    | select _ _ => rfl
    | get _ _ => rfl
    | lock τ k _ => cases τ <;> first | rfl | simp [Quiet] at ho
    | update τ k _ _ => cases τ <;> first | rfl | simp [Quiet] at ho
    | insert τ k _ => cases τ <;> first | rfl | simp [Quiet] at ho
    | delete τ k => cases τ <;> first | rfl | simp [Quiet] at ho
    | commit => rfl
    | rollback => rfl
  | _ => rfl

omit [DecidableEq T] in
theorem inOrder_of_none (h : lockedRow o = none) : InOrder pos t o w := by
  intro x t' hx
  rw [h] at hx
  cases hx

/-- It leaves both tables alone, and is nothing that others might wait for. -/
theorem quiet_step (pos : ChannelId → ℕ) {ch : Choice} (ho : Quiet o) (hi : Inv w)
    (h : (machine T hash).exec t o ch w.state = some (r, s)) :
    s.db .users = w.state.db .users ∧ s.db .channelMembers = w.state.db .channelMembers ∧
      Inv (w.after t o r s) ∧ Step t w (w.after t o r s) ∧ InOrder pos t o w := by
  have hforward : Forward t w s := forward_of_exec ho.going h
  have hmembers := exec_spares (ho.spares (.inr rfl)) h
  refine ⟨exec_spares (ho.spares (.inl rfl)) h, hmembers,
    hi.after hforward.step (fun c u hnone => ?_) ?_, hforward.step,
    inOrder_of_none (lockedRow_of_quiet ho)⟩
  · rw [hmembers]
    exact hi.present c u ((hforward.membership c u).symm.trans hnone)
  · intro c rows he
    cases he
    exact absurd rfl ho

/-! ### What a transaction holds -/

variable {K : Contract (machine T hash)} {A : BackendWorld T → Prop}

/-- The transaction has written no user. -/
def UsersClean (t : T) (w : BackendWorld T) : Prop :=
  ∀ u v, (w.state.db .users).hold u ≠ some ⟨t, some v⟩

/-- It has locked system admins and admins of channels only, and written nothing. -/
structure HoldsAdmins (t : T) (w : BackendWorld T) : Prop where
  users : ∀ u, (w.state.db .users).Holds t u → sysAdmin w u = true
  members : ∀ k, (w.state.db .channelMembers).Holds t k → Admin w k.1 k.2
  usersClean : UsersClean t w
  clean : Clean t w

theorem stable_usersClean : K.Stable t (UsersClean t) :=
  fun _ _ _ _ ho h u v hv => h u v (((other_keeps ho .users).hold u _).mpr hv)

theorem stable_holdsAdmins : (contract hash task pos).Stable t (HoldsAdmins t) := by
  intro w w' hi hi' ho h
  refine ⟨fun u hu => ?_, fun k hk => ?_, stable_usersClean w w' hi hi' ho h.usersClean,
    AdminLocks.stable_clean w w' hi hi' ho h.clean⟩
  · rw [(others ho).flags u]
    exact h.users u ((other_keeps ho .users).holds.mpr hu)
  · have hk' := (other_keeps ho .channelMembers).holds.mpr hk
    exact ((AdminLocks.held_other ho).mpr ⟨hk', h.members k hk'⟩).2

/-- Kept by the others, and by steps that leave both tables alone. -/
structure Kept (K : Contract (machine T hash)) (t : T) (A : BackendWorld T → Prop) : Prop where
  stable : K.Stable t A
  aside : ∀ w o r s, s.db .users = w.state.db .users →
    s.db .channelMembers = w.state.db .channelMembers → A w → A (w.after t o r s)

theorem Kept.step (hA : Kept (contract hash task pos) t A) {o : Op} (ho : Quiet o) :
    (contract hash task pos).StepOk t A o fun _ => A := by
  intro w ch r s hi hw _ h
  obtain ⟨husers, hmembers, hi', hstep, horder⟩ := quiet_step pos ho hi h
  exact ⟨hi', ⟨hstep, horder⟩, hA.aside w o r s husers hmembers hw⟩

/-- A piece of a request that leaves both tables alone. -/
theorem Kept.only {α : Type} {p : Py α} (hA : Kept (contract hash task pos) t A)
    (hp : p.Only Quiet) :
    (contract hash task pos).Safe t p A (fun _ => A) fun _ _ => True :=
  (Contract.Safe.only hp hA.stable fun _ ho => hA.step ho).mono (fun _ _ hw => hw)
    (fun _ _ _ hw => hw) fun _ _ _ _ => trivial

theorem Kept.perform (hA : Kept (contract hash task pos) t A) {o : Op} (ho : Quiet o) :
    (contract hash task pos).Safe t (Prog.perform o) A (fun _ => A) fun _ _ => True :=
  hA.only (Prog.only_perform ho)

theorem Kept.and {B : BackendWorld T → Prop} (hA : Kept K t A) (hB : Kept K t B) :
    Kept K t fun w => A w ∧ B w :=
  ⟨hA.stable.and hB.stable, fun w o r s husers hmembers h =>
    ⟨hA.aside w o r s husers hmembers h.1, hB.aside w o r s husers hmembers h.2⟩⟩

omit [DecidableEq T] in
theorem sysAdmin_congr (h : s.db .users = w.state.db .users) :
    sysAdmin (w.after t o r s) u = sysAdmin w u := by
  unfold sysAdmin
  rw [World.after_state, h]

omit [DecidableEq T] in
theorem admin_congr (h : s.db .channelMembers = w.state.db .channelMembers) :
    Admin (w.after t o r s) c u ↔ Admin w c u := by
  unfold Admin membership
  rw [World.after_state, h]

omit [DecidableEq T] in
theorem HoldsAdmins.aside (h : HoldsAdmins t w) (husers : s.db .users = w.state.db .users)
    (hmembers : s.db .channelMembers = w.state.db .channelMembers) :
    HoldsAdmins t (w.after t o r s) := by
  refine ⟨fun u hu => ?_, fun k hk => ?_, fun u v hv => ?_, fun k v hv => ?_⟩
  · rw [sysAdmin_congr husers]
    exact h.users u (husers ▸ hu)
  · rw [admin_congr hmembers]
    exact h.members k (hmembers ▸ hk)
  · exact h.usersClean u v (husers ▸ hv)
  · exact h.clean k v (hmembers ▸ hv)

theorem kept_holdsAdmins : Kept (contract hash task pos) t (HoldsAdmins t) :=
  ⟨stable_holdsAdmins, fun _ _ _ _ husers hmembers h => h.aside husers hmembers⟩

end Chatspace.LockOrder
