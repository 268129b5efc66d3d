import Chatspace.Backend.Readers
import Chatspace.Services.AdminSuccession
import Chatspace.Services.AdminUsers

/-!
# Who lets whom into a channel

Channels are created and joined, members are added, promoted, removed and leave, and users are
deactivated, step by step in any order, with any other requests that leave channels and memberships
alone.

* `Change` — what a request may do to a membership, given who is an admin;
* `Chain` — who can have which role: those who had it at the start, and whoever an admin that can
  have been one has let in;
* `Written`, `Warranted` — what a transaction has written, and that it may;
* `memberships_authorized` — **every commit changes memberships by the right of an admin that it
  holds or of the member itself, and nobody is ever in a channel but by a chain of such steps**;
* `mem_of_run` — a private channel stays within a circle that is closed under its own additions.
-/

namespace Chatspace.MembershipAuthority

open Interleave Store Channels AdminLocks AdminUsers Sessions

/-- One request. -/
inductive Task where
  | create (name : Text) (isPrivate : Bool) (userId : UserId)
  | join (channelId : ChannelId) (userId : UserId)
  | leave (channelId : ChannelId) (userId : UserId)
  | add (channelId : ChannelId) (callerId userId : UserId) (role : ChannelMemberRole)
  | changeRole (channelId : ChannelId) (callerId userId : UserId) (role : ChannelMemberRole)
  | remove (channelId : ChannelId) (callerId userId : UserId)
  | deactivate (userId : UserId)
  | other (p : Py Unit)

def Task.program : Task → Py Unit
  | .create name isPrivate u => (createChannelRoute name isPrivate u).bind fun _ => .ret ()
  | .join c u => (joinChannelRoute c u).bind fun _ => .ret ()
  | .leave c u => leaveChannelRoute c u
  | .add c caller u role => (addChannelMemberRoute c caller u role).bind fun _ => .ret ()
  | .changeRole c caller u role =>
    (updateChannelMemberRoleRoute c caller u role).bind fun _ => .ret ()
  | .remove c caller u => removeChannelMemberRoute c caller u
  | .deactivate u => (deactivateUserRoute u).bind fun _ => .ret ()
  | .other p => p

/-! ### What may become of a membership -/

abbrev MemberKey : Type := ChannelId × UserId

variable {T : Type}

/-- The channels that were there at the start. -/
def Old (w₀ : BackendWorld T) (c : ChannelId) : Prop := (w₀.state.db .channels).committed c ≠ none

/-- A row of a channel: one of the start, or what a request has created. -/
def Origin (task : T → Task) (w₀ : BackendWorld T) (c : ChannelId) (x : Channel) : Prop :=
  (w₀.state.db .channels).committed c = some x ∨
    ¬ Old w₀ c ∧ ∃ t, task t = .create x.name x.isPrivate x.createdBy

/-- The channel is, or is created as, a public one. -/
def Open (task : T → Task) (w₀ : BackendWorld T) (c : ChannelId) : Prop :=
  ∃ x, Origin task w₀ c x ∧ x.isPrivate = false

section

variable (task : T → Task) (w₀ : BackendWorld T)

/-- Who can have come to which role in a channel. -/
inductive Chain : ChannelId → UserId → ChannelMemberRole → Prop
  | initial {c u m} (hm : membership w₀ c u = some m) : Chain c u m.role
  | create {c u t name isPrivate} (ht : task t = .create name isPrivate u) (hnew : ¬ Old w₀ c) :
      Chain c u .admin
  | join {c u t} (ht : task t = .join c u) (hopen : Open task w₀ c) : Chain c u .member
  | add {c u t caller role} (ht : task t = .add c caller u role) (hcaller : Chain c caller .admin) :
      Chain c u role
  | changeRole {c u t caller role role'} (ht : task t = .changeRole c caller u role)
      (hcaller : Chain c caller .admin) (hu : Chain c u role') : Chain c u role
  | leave {c u v t role} (ht : task t = .leave c v) (hv : Chain c v .admin) (hu : Chain c u role) :
      Chain c u .admin
  | remove {c u v t caller role} (ht : task t = .remove c caller v)
      (hcaller : Chain c caller .admin) (hv : Chain c v .admin) (hu : Chain c u role) :
      Chain c u .admin
  | deactivate {c u v t role} (ht : task t = .deactivate v) (hv : Chain c v .admin)
      (hu : Chain c u role) : Chain c u .admin

/-- The request takes `v` out of the channel, or out of the workspace. -/
inductive Departs (admin : ChannelId → UserId → Prop) (t : T) (c : ChannelId) (v : UserId) : Prop
  | leave (ht : task t = .leave c v)
  | remove {caller : UserId} (ht : task t = .remove c caller v) (hcaller : admin c caller)
  | deactivate (ht : task t = .deactivate v)

/-- What request `t` may do to a row, `admin` being who is an admin where: a channel of its own is
created with its caller as admin, an open one is joined, an admin adds, changes a role or removes,
and where an admin departs some other member is promoted while there is an admin. -/
inductive Change (admin : ChannelId → UserId → Prop) (t : T) :
    MemberKey → Option ChannelMember → Option ChannelMember → Prop
  | create {c u name isPrivate now} (ht : task t = .create name isPrivate u) (hnew : ¬ Old w₀ c) :
      Change admin t (c, u) none (some ⟨.admin, now⟩)
  | join {c u now} (ht : task t = .join c u) (hopen : Open task w₀ c) :
      Change admin t (c, u) none (some ⟨.member, now⟩)
  | add {c u caller role now} (ht : task t = .add c caller u role) (hcaller : admin c caller) :
      Change admin t (c, u) none (some ⟨role, now⟩)
  | changeRole {c u caller role m} (ht : task t = .changeRole c caller u role)
      (hcaller : admin c caller) : Change admin t (c, u) (some m) (some (setRole role m))
  | promote {c u v m} (hdeparts : Departs task admin t c v) (hv : Chain task w₀ c v .admin)
      (hadmin : ∃ x, admin c x) : Change admin t (c, u) (some m) (some (promote m))
  | leave {c u m} (ht : task t = .leave c u) : Change admin t (c, u) (some m) none
  | remove {c u caller m} (ht : task t = .remove c caller u) (hcaller : admin c caller) :
      Change admin t (c, u) (some m) none

/-- Who can be taken out of a channel. -/
def Removable (k : MemberKey) : Prop :=
  (∃ t, task t = .leave k.1 k.2) ∨
    ∃ t caller, task t = .remove k.1 caller k.2 ∧ Chain task w₀ k.1 caller .admin

end

variable {task : T → Task} {w₀ : BackendWorld T} {t : T} {c : ChannelId} {u v : UserId}
  {admin admin' : ChannelId → UserId → Prop} {k : MemberKey} {a b : Option ChannelMember}

theorem Departs.mono (h : Departs task admin t c v) (hadmin : ∀ c u, admin c u → admin' c u) :
    Departs task admin' t c v := by
  cases h with
  | leave ht => exact .leave ht
  | remove ht hcaller => exact .remove ht (hadmin _ _ hcaller)
  | deactivate ht => exact .deactivate ht

theorem Change.mono (h : Change task w₀ admin t k a b) (hadmin : ∀ c u, admin c u → admin' c u) :
    Change task w₀ admin' t k a b := by
  cases h with
  | create ht hnew => exact .create ht hnew
  | join ht hopen => exact .join ht hopen
  | add ht hcaller => exact .add ht (hadmin _ _ hcaller)
  | changeRole ht hcaller => exact .changeRole ht (hadmin _ _ hcaller)
  | promote hdeparts hv hx =>
    obtain ⟨x, hx⟩ := hx
    exact .promote (hdeparts.mono hadmin) hv ⟨x, hadmin _ _ hx⟩
  | leave ht => exact .leave ht
  | remove ht hcaller => exact .remove ht (hadmin _ _ hcaller)

theorem Chain.succeed (hv : Chain task w₀ c v .admin) {role : ChannelMemberRole}
    (hu : Chain task w₀ c u role) (hadmin : ∀ x, admin c x → Chain task w₀ c x .admin)
    (h : Departs task admin t c v) : Chain task w₀ c u .admin := by
  cases h with
  | leave ht => exact .leave ht hv hu
  | remove ht hcaller => exact .remove ht (hadmin _ hcaller) hv hu
  | deactivate ht => exact .deactivate ht hv hu

/-- By the right of an admin of a chain, the chain goes on. -/
theorem Change.chain {m : ChannelMember} (h : Change task w₀ admin t k a (some m))
    (hadmin : ∀ c u, admin c u → Chain task w₀ c u .admin)
    (ha : ∀ m, a = some m → Chain task w₀ k.1 k.2 m.role) : Chain task w₀ k.1 k.2 m.role := by
  cases h with
  | create ht hnew => exact .create ht hnew
  | join ht hopen => exact .join ht hopen
  | add ht hcaller => exact .add ht (hadmin _ _ hcaller)
  | changeRole ht hcaller => exact .changeRole ht (hadmin _ _ hcaller) (ha _ rfl)
  | promote hdeparts hv => exact hv.succeed (ha _ rfl) (fun x hx => hadmin _ x hx) hdeparts

theorem Change.removable (h : Change task w₀ admin t k a none)
    (hadmin : ∀ c u, admin c u → Chain task w₀ c u .admin) : Removable task w₀ k := by
  cases h with
  | leave ht => exact .inl ⟨t, ht⟩
  | remove ht hcaller => exact .inr ⟨t, _, ht, hadmin _ _ hcaller⟩

/-! ### The contract -/

variable [DecidableEq T] {hash : RawToken → TokenHash} {w w' : BackendWorld T} {s : State T}
  {o : Op} {r : Except Exc o.Res} {A B : BackendWorld T → Prop} {caller : UserId}

/-- What can be in the tables. -/
structure Traced (task : T → Task) (w₀ w : BackendWorld T) : Prop where
  chain : ∀ c u m, membership w c u = some m → Chain task w₀ c u m.role
  gone : ∀ c u, membership w₀ c u ≠ none → membership w c u = none → Removable task w₀ (c, u)
  origin : ∀ c x, (w.state.db .channels).committed c = some x → Origin task w₀ c x
  old : ∀ c, Old w₀ c → (w.state.db .channels).committed c ≠ none
  pending : ∀ t c v, (w.state.db .channels).hold c = some ⟨t, some v⟩ →
    ¬ Old w₀ c ∧ ∃ x, v = some x ∧ Origin task w₀ c x

/-- Every step changes memberships by right only. -/
def authorized (hash : RawToken → TokenHash) (task : T → Task) (w₀ : BackendWorld T) :
    Contract (machine T hash) where
  inv := Traced task w₀
  pre := .always
  guar t _ _ w w' := ∀ c u, membership w' c u = membership w c u ∨
    Change task w₀ (Admin w) t (c, u) (membership w c u) (membership w' c u)

omit [DecidableEq T] in
/-- Whoever is an admin can have become one. -/
theorem Traced.chain_admin (h : Traced task w₀ w) (hu : Admin w c u) :
    Chain task w₀ c u .admin := by
  obtain ⟨m, hm, hrole⟩ := hu
  rw [← hrole]
  exact h.chain c u m hm

/-- A step that leaves the channels alone and commits no membership. -/
theorem allowed_of_eq (hchannels : s.db .channels = w.state.db .channels)
    (hmembers : (s.db .channelMembers).committed = (w.state.db .channelMembers).committed)
    (h : Traced task w₀ w) : (authorized hash task w₀).inv (w.after t o r s) ∧
      (authorized hash task w₀).guar t o r w (w.after t o r s) := by
  have hsame : ∀ c u, membership (w.after t o r s) c u = membership w c u :=
    fun c u => congrFun hmembers (c, u)
  refine ⟨⟨fun c u m hm => h.chain c u m ((hsame c u).symm.trans hm),
    fun c u hm hnone => h.gone c u hm ((hsame c u).symm.trans hnone), ?_, ?_, ?_⟩,
    fun c u => .inl (hsame c u)⟩
  · show ∀ c x, (s.db .channels).committed c = some x → _
    rw [hchannels]
    exact h.origin
  · show ∀ c, Old w₀ c → (s.db .channels).committed c ≠ none
    rw [hchannels]
    exact h.old
  · show ∀ t c v, (s.db .channels).hold c = some ⟨t, some v⟩ → _
    rw [hchannels]
    exact h.pending

/-! ### Steps that look -/

/-- The step has at most locked memberships. -/
structure Looked (t : T) (w : BackendWorld T) (s : State T) : Prop where
  channels : s.db .channels = w.state.db .channels
  committed : (s.db .channelMembers).committed = (w.state.db .channelMembers).committed
  holds : ∀ k, (w.state.db .channelMembers).Holds t k → (s.db .channelMembers).Holds t k
  written : ∀ k v, (s.db .channelMembers).hold k = some ⟨t, some v⟩ ↔
    (w.state.db .channelMembers).hold k = some ⟨t, some v⟩

/-- An operation that does no more. -/
def Looks : Op → Prop
  | .sql (.lock τ ..) => τ ≠ .channels
  | .sql (.update τ ..) | .sql (.insert τ ..) | .sql (.delete τ ..) =>
    τ ≠ .channels ∧ τ ≠ .channelMembers
  | .sql .commit | .sql .rollback => False
  | _ => True

theorem Looks.spares (ho : Looks o) : Spares .channels o ∧
    (Spares .channelMembers o ∨ ∃ k p, o = .sql (.lock .channelMembers k p)) := by
  cases o with
  | sql q =>
    cases q with
    | lock τ k p =>
      refine ⟨ho, ?_⟩
      by_cases hτ : τ = .channelMembers
      · subst hτ
        exact .inr ⟨k, p, rfl⟩
      · exact .inl hτ
    | select τ p => exact ⟨trivial, .inl trivial⟩
    | get τ k => exact ⟨trivial, .inl trivial⟩
    | update τ k p f => exact ⟨ho.1, .inl ho.2⟩
    | insert τ k f => exact ⟨ho.1, .inl ho.2⟩
    | delete τ k => exact ⟨ho.1, .inl ho.2⟩
    | commit => exact ho.elim
    | rollback => exact ho.elim
  | _ => exact ⟨trivial, .inl trivial⟩

theorem Looks.looked (ho : Looks o) {ch : Choice}
    (h : (machine T hash).exec t o ch w.state = some (r, s)) : Looked t w s := by
  obtain ⟨hchannels, hmembers⟩ := ho.spares
  have hchannels := exec_spares hchannels h
  have hsame : s.db .channelMembers = w.state.db .channelMembers → Looked t w s := by
    intro heq
    refine ⟨hchannels, ?_, ?_, ?_⟩ <;> simp [heq]
  rcases hmembers with hspares | ⟨k, p, rfl⟩
  · exact hsame (exec_spares hspares h)
  rcases exec_lockTable h with ⟨rfl, -⟩ | ⟨x, hfree, -, rfl, -⟩
  · exact hsame rfl
  refine ⟨hchannels, ?_, fun j hj => ?_, fun j v => ?_⟩
  · rw [State.set_db, Table.committed_lock]
  · rw [State.set_db]
    exact Table.holds_put hj
  · rw [State.set_db]
    by_cases hjk : j = k
    · -- the lock keeps the version the transaction has written
      subst hjk
      simp only [Table.lock, Table.hold_put_self, Option.some.injEq, Hold.mk.injEq, true_and]
      constructor
      · intro hv
        obtain ⟨h₀, hh₀, hp⟩ := Option.bind_eq_some_iff.mp hv
        rw [hh₀, ← hfree h₀ hh₀, ← hp]
      · intro hv
        rw [hv]
        rfl
    · rw [Table.hold_lock_of_ne hjk]

/-- Kept by the others, and by steps that look. -/
structure Firm (K : Contract (machine T hash)) (t : T) (A : BackendWorld T → Prop) : Prop where
  stable : K.Stable t A
  looked : ∀ w o r s, Looked t w s → A w → A (w.after t o r s)

variable {K : Contract (machine T hash)}

theorem Firm.and (hA : Firm K t A) (hB : Firm K t B) : Firm K t fun w => A w ∧ B w :=
  ⟨hA.stable.and hB.stable,
    fun w o r s h hw => ⟨hA.looked w o r s h hw.1, hB.looked w o r s h hw.2⟩⟩

theorem Firm.imp {P : Prop} (hA : Firm K t A) : Firm K t fun w => P → A w :=
  ⟨.imp fun _ => hA.stable, fun w o r s h hw hP => hA.looked w o r s h (hw hP)⟩

theorem Firm.const (P : Prop) : Firm K t fun _ => P := ⟨.const P, fun _ _ _ _ _ h => h⟩

theorem Firm.forall {γ : Type} {A : γ → BackendWorld T → Prop} (hA : ∀ x, Firm K t (A x)) :
    Firm K t fun w => ∀ x, A x w :=
  ⟨.forall fun x => (hA x).stable, fun w o r s h hw x => (hA x).looked w o r s h (hw x)⟩

theorem Firm.exists {γ : Type} {A : γ → BackendWorld T → Prop} (hA : ∀ x, Firm K t (A x)) :
    Firm K t fun w => ∃ x, A x w where
  stable := .exists fun x => (hA x).stable
  looked w o r s h hw := by
    obtain ⟨x, hx⟩ := hw
    exact ⟨x, (hA x).looked w o r s h hx⟩

theorem firm_clean : Firm K t (Clean t) where
  stable := stable_clean
  looked _ _ _ _ h hw k v hv := hw k v ((h.written k v).mp hv)

theorem firm_held : Firm K t (Held t c u) where
  stable _ _ _ _ ho h := (held_other ho).mpr h
  looked w _ _ s h hw := by
    obtain ⟨hholds, m, hm, hrole⟩ := hw
    refine ⟨h.holds _ hholds, m, ?_, hrole⟩
    show (s.db .channelMembers).committed (c, u) = some m
    rw [h.committed]
    exact hm

/-- A piece of a request that looks only. -/
theorem Firm.only {α : Type} {p : Py α} (hA : Firm (authorized hash task w₀) t A)
    (hp : p.Only Looks) :
    (authorized hash task w₀).Safe t p A (fun _ => A) fun _ _ => True := by
  refine (Contract.Safe.only hp hA.stable fun o ho w ch r s hi hw _ h => ?_).mono
    (fun _ _ hw => hw) (fun _ _ _ hw => hw) fun _ _ _ _ => trivial
  have hlooked := ho.looked h
  obtain ⟨hi', hg⟩ := allowed_of_eq hlooked.channels hlooked.committed hi
  exact ⟨hi', hg, hA.looked w o r s hlooked hw⟩

theorem Firm.perform (hA : Firm (authorized hash task w₀) t A) (ho : Looks o) :
    (authorized hash task w₀).Safe t (Prog.perform o) A (fun _ => A) fun _ _ => True :=
  hA.only (Prog.only_perform ho)

/-! ### Locks -/

/-- The ids returned are of admins held. -/
theorem safe_lockAdmins (hA : Firm (authorized hash task w₀) t A) :
    (authorized hash task w₀).Safe t (lockChannelAdminIds c) (fun w => A w ∧ Clean t w)
      (fun ids w => (A w ∧ Clean t w) ∧ ∀ x ∈ ids, Held t c x w) fun _ _ => True := by
  have hlooks : (lockChannelAdminIds c).Only Looks :=
    (only_selectForUpdate trivial fun _ => nofun).bind fun _ => trivial
  have hfree : AboutMembers (Contract.free (machine T hash)) :=
    fun _ _ _ _ _ _ _ => ⟨trivial, trivial⟩
  have hlocked := safe_lockChannelAdminIds (t := t) (c := c) hfree lockKept_true lasting_none
  exact (((hA.and firm_clean).only hlooks).and_free hlocked).mono
    (fun _ _ hw => ⟨hw, trivial, hw.2⟩)
    (fun _ _ _ hw => ⟨hw.1, fun x hx => (hw.2.1.2.2 x).mpr hx⟩) fun _ _ _ _ => trivial

/-- A caller who is authorized is an admin held. -/
theorem safe_authorizeAdmin :
    (authorized hash task w₀).Safe t (authorizeAdmin c caller) (Clean t)
      (fun a w => Clean t w ∧ ∀ x, a = .ok x → Held t c caller w) fun _ _ => True := by
  refine Contract.Safe.bind (firm_clean.perform trivial) fun channel => ?_
  cases channel with
  | none => exact fun _ _ hw => ⟨hw, nofun⟩
  | some channel =>
    refine Contract.Safe.bind ((safe_lockAdmins (A := fun _ => True) (.const True)).weaken
      fun _ _ hw => ⟨trivial, hw⟩) fun ids => ?_
    show Contract.Safe _ _ (if _ then _ else (if _ then _ else _)) _ _ _
    split
    · exact fun _ _ hw => ⟨hw.1.2, nofun⟩
    split
    · exact fun _ _ hw => ⟨hw.1.2, nofun⟩
    · rename_i hcaller
      exact fun w _ hw => ⟨hw.1.2, fun _ _ => hw.2 caller (by simpa using hcaller)⟩

/-! ### What a transaction may commit -/

/-- What holds of every membership the transaction has written, given the admins it holds, the
row that is committed and the version. -/
def Written (P : (ChannelId → UserId → Prop) → MemberKey → Option ChannelMember →
    Option ChannelMember → Prop) (t : T) (w : BackendWorld T) : Prop :=
  ∀ c u v, (w.state.db .channelMembers).hold (c, u) = some ⟨t, some v⟩ →
    P (fun c u => Held t c u w) (c, u) (membership w c u) v

/-- It may write what it has written. -/
abbrev Warranted (task : T → Task) (w₀ : BackendWorld T) (t : T) : BackendWorld T → Prop :=
  Written (fun admin => Change task w₀ admin t) t

section

variable {P : (ChannelId → UserId → Prop) → MemberKey → Option ChannelMember →
  Option ChannelMember → Prop}

omit [DecidableEq T] in
theorem written_of_clean (h : Clean t w) : Written P t w := fun c u v hv => absurd hv (h (c, u) v)

theorem firm_written (hP : ∀ {admin admin' k a b}, (∀ c u, admin c u → admin' c u) →
    P admin k a b → P admin' k a b) : Firm K t (Written P t) where
  stable w w' _ _ ho h c u v hv := by
    have hkeeps := other_keeps ho .channelMembers
    have hv' := (hkeeps.hold (c, u) _).mpr hv
    have hsame : membership w' c u = membership w c u := hkeeps.committed _ ⟨_, hv'⟩
    rw [hsame]
    exact hP (fun c u => (held_other ho).mpr) (h c u v hv')
  looked w o r s hs h c u v hv := by
    have hsame : membership (w.after t o r s) c u = membership w c u :=
      congrFun hs.committed (c, u)
    rw [hsame]
    exact hP (fun c u => (firm_held (K := K)).looked w o r s hs) (h c u v ((hs.written _ v).mp hv))

end

theorem firm_warranted : Firm K t (Warranted task w₀ t) :=
  firm_written fun hadmin h => h.mono hadmin

/-- What is committed next is the start of what can come after. -/
theorem Traced.commit (h : Traced task w₀ w)
    (hg : ∀ c u, membership w' c u = membership w c u ∨
      Change task w₀ (Admin w) t (c, u) (membership w c u) (membership w' c u))
    (hchannels : w'.state.db .channels = (w.state.db .channels).commit t) : Traced task w₀ w' := by
  have hview : ∀ c, (w'.state.db .channels).committed c = (w.state.db .channels).committed c ∨
      ∃ x, ¬ Old w₀ c ∧ (w'.state.db .channels).committed c = some x ∧ Origin task w₀ c x := by
    intro c
    rw [hchannels, Table.committed_commit]
    rcases (w.state.db .channels).view_cases t c with hv | ⟨v, hhold, hv⟩
    · exact .inl hv
    · obtain ⟨hnew, x, rfl, hx⟩ := h.pending t c v hhold
      exact .inr ⟨x, hnew, hv, hx⟩
  refine ⟨fun c u m hm => ?_, fun c u hm hnone => ?_, fun c x hx => ?_, fun c hold => ?_,
    fun t' c v hv => ?_⟩
  · rcases hg c u with heq | hchange
    · exact h.chain c u m (heq.symm.trans hm)
    · rw [hm] at hchange
      exact hchange.chain (fun _ _ hadmin => h.chain_admin hadmin) fun m hm => h.chain c u m hm
  · rcases hg c u with heq | hchange
    · exact h.gone c u hm (heq.symm.trans hnone)
    · rw [hnone] at hchange
      exact hchange.removable fun _ _ hadmin => h.chain_admin hadmin
  · rcases hview c with heq | ⟨y, -, hy, horigin⟩
    · exact h.origin c x (heq.symm.trans hx)
    · obtain rfl := Option.some.inj (hy.symm.trans hx)
      exact horigin
  · rcases hview c with heq | ⟨y, hnew, -⟩
    · rw [heq]
      exact h.old c hold
    · exact absurd hold hnew
  · rw [hchannels, Table.hold_commit] at hv
    exact h.pending t' c v (Table.release_eq_some hv).1

theorem Traced.rollback (h : Traced task w₀ w) : Traced task w₀
    (w.after t (.sql .rollback) (.ok ()) { w.state with db := w.state.db.rollback t }) :=
  ⟨h.chain, h.gone, h.origin, h.old,
    fun t' c v hv => h.pending t' c v (Table.release_eq_some hv).1⟩

theorem step_commit : (authorized hash task w₀).StepOk t (Warranted task w₀ t) (.sql .commit)
    (Contract.Outcome (fun _ => Clean t) fun _ _ => True) := by
  intro w ch r s hi hw _ hx
  rcases exec_commitAll hx with ⟨rfl, e, rfl⟩ | ⟨rfl, rfl⟩
  · obtain ⟨hi', hg⟩ := allowed_of_eq rfl rfl hi
    exact ⟨hi', hg, trivial⟩
  · have hg : (authorized hash task w₀).guar t (.sql .commit) (.ok ()) w
        (w.after t (.sql .commit) (.ok ()) { w.state with db := w.state.db.commit t }) := by
      intro c u
      rcases (w.state.db .channelMembers).view_cases t (c, u) with hv | ⟨v, hhold, hv⟩
      · exact .inl hv
      · refine .inr ?_
        show Change task w₀ (Admin w) t (c, u) _ ((w.state.db .channelMembers).view t (c, u))
        rw [hv]
        exact (hw c u v hhold).mono fun _ _ hheld => hheld.2
    exact ⟨hi.commit hg rfl, hg, AdminSuccession.clean_release rfl⟩

theorem safe_commit : (authorized hash task w₀).Safe t Py.commit (Warranted task w₀ t)
    (fun _ => Clean t) fun _ _ => True :=
  Contract.Safe.perform (fun _ => stable_clean) (fun _ => .const True) step_commit

theorem safe_rollback : (authorized hash task w₀).Safe t Py.rollback A (fun _ => Clean t)
    fun _ _ => True := by
  refine Contract.Safe.perform (fun _ => stable_clean) (fun _ => .const True)
    fun w ch r s hi _ _ hx => ?_
  rcases exec_rollbackAll hx with ⟨rfl, e, rfl⟩ | ⟨rfl, rfl⟩
  · obtain ⟨hi', hg⟩ := allowed_of_eq rfl rfl hi
    exact ⟨hi', hg, trivial⟩
  · exact ⟨hi.rollback, fun _ _ => .inl rfl, AdminSuccession.clean_release rfl⟩

theorem safe_request {α : Type} {body : Py α}
    (h : (authorized hash task w₀).Safe t body A (fun _ => Warranted task w₀ t) fun _ _ => True) :
    (authorized hash task w₀).Safe t (Py.getDbSession body) A (fun _ _ => True)
      fun _ _ => True :=
  Chatspace.safe_request safe_commit safe_rollback
    (safe_rollback.mono (fun _ _ hw => hw) (fun _ _ _ _ => trivial) fun _ _ _ hw => hw) h

/-! ### Writes -/

/-- Kept by the others, by steps that look, and by the writes of memberships. -/
structure Solid (K : Contract (machine T hash)) (t : T) (A : BackendWorld T → Prop) : Prop
    extends Firm K t A where
  write : ∀ w o r k v, A w →
    A (w.after t o r (w.state.set .channelMembers ((w.state.db .channelMembers).write t k v)))

theorem Solid.const (P : Prop) : Solid K t fun _ => P := ⟨.const P, fun _ _ _ _ _ h => h⟩

theorem Solid.forall {γ : Type} {A : γ → BackendWorld T → Prop} (hA : ∀ x, Solid K t (A x)) :
    Solid K t fun w => ∀ x, A x w :=
  ⟨.forall fun x => (hA x).toFirm, fun w o r k v hw x => (hA x).write w o r k v (hw x)⟩

theorem Solid.imp {P : Prop} (hA : Solid K t A) : Solid K t fun w => P → A w :=
  ⟨.imp hA.toFirm, fun w o r k v hw hP => hA.write w o r k v (hw hP)⟩

omit [DecidableEq T] in
theorem held_write {v : Option ChannelMember} (h : Held t c u w) :
    Held t c u (w.after t o r (w.state.set .channelMembers
      ((w.state.db .channelMembers).write t k v))) := by
  obtain ⟨hholds, m, hm, hrole⟩ := h
  refine ⟨?_, m, ?_, hrole⟩
  · rw [World.after_state, State.set_db]
    exact Table.holds_put hholds
  · unfold membership
    rw [World.after_state, State.set_db, Table.committed_write]
    exact hm

theorem solid_held : Solid K t (Held t c u) := ⟨firm_held, fun _ _ _ _ _ => held_write⟩

/-- What is kept of the admins held is kept of what they entitle to. -/
theorem solid_of_mono {P : (ChannelId → UserId → Prop) → Prop}
    (hP : ∀ {admin admin'}, (∀ c u, admin c u → admin' c u) → P admin → P admin') :
    Solid K t fun w => P fun c u => Held t c u w where
  stable _ _ _ _ ho hw := hP (fun _ _ => (held_other ho).mpr) hw
  looked w o r s hs hw := hP (fun _ _ => (firm_held (K := K)).looked w o r s hs) hw
  write _ _ _ _ _ hw := hP (fun _ _ => held_write) hw

omit [DecidableEq T] in
/-- One more version. -/
theorem written_write {P : (ChannelId → UserId → Prop) → MemberKey → Option ChannelMember →
      Option ChannelMember → Prop} {v : Option ChannelMember}
    (hP : ∀ {admin admin' k a b}, (∀ c u, admin c u → admin' c u) →
      P admin k a b → P admin' k a b) (h : Written P t w)
    (hv : P (fun c u => Held t c u w) (c, u) (membership w c u) v) :
    Written P t (w.after t o r (w.state.set .channelMembers
      ((w.state.db .channelMembers).write t (c, u) v))) := by
  have hheld : ∀ c' u', Held t c' u' w → Held t c' u' (w.after t o r (w.state.set .channelMembers
      ((w.state.db .channelMembers).write t (c, u) v))) :=
    fun _ _ => held_write
  intro c' u' v' hv'
  have hsame : membership (w.after t o r (w.state.set .channelMembers
      ((w.state.db .channelMembers).write t (c, u) v))) c' u' = membership w c' u' := by
    unfold membership
    rw [World.after_state, State.set_db, Table.committed_write]
  rw [World.after_state, State.set_db] at hv'
  rw [hsame]
  by_cases hk : (c', u') = (c, u)
  · cases hk
    rw [Table.hold_write_self] at hv'
    cases hv'
    exact hP hheld hv
  · rw [Table.hold_write_of_ne hk] at hv'
    exact hP hheld (h c' u' v' hv')

omit [DecidableEq T] in
theorem warranted_write {v : Option ChannelMember} (h : Warranted task w₀ t w)
    (hv : Change task w₀ (fun c u => Held t c u w) t (c, u) (membership w c u) v) :
    Warranted task w₀ t (w.after t o r (w.state.set .channelMembers
      ((w.state.db .channelMembers).write t (c, u) v))) :=
  written_write (fun hadmin h => h.mono hadmin) h hv

theorem allowed_write {v : Option ChannelMember} (h : Traced task w₀ w) :
    (authorized hash task w₀).inv (w.after t o r (w.state.set .channelMembers
      ((w.state.db .channelMembers).write t k v))) ∧
      (authorized hash task w₀).guar t o r w (w.after t o r (w.state.set .channelMembers
        ((w.state.db .channelMembers).write t k v))) :=
  allowed_of_eq (State.set_db_of_ne nofun) (by rw [State.set_db, Table.committed_write]) h

theorem safe_flushUpdate {f : ChannelMember → ChannelMember}
    (hB : (authorized hash task w₀).Stable t B)
    (h : ∀ w o r m, A w → (w.state.db .channelMembers).view t k = some m →
      B (w.after t o r (w.state.set .channelMembers
        ((w.state.db .channelMembers).write t k (some (f m)))))) :
    (authorized hash task w₀).Safe t (Py.flushUpdate .channelMembers k f) A (fun _ => B)
      fun _ _ => True := by
  refine Contract.Safe.await (fun matched w => matched = true → B w) (fun _ => .imp fun _ => hB)
    (fun _ => .const True) (fun w ch r s hi hw _ hx => ?_) fun matched => ?_
  · rcases exec_updateTable hx with ⟨rfl, hr⟩ | ⟨m, -, hm, -, rfl, rfl⟩
    · obtain ⟨hi', hg⟩ := allowed_of_eq rfl rfl hi
      refine ⟨hi', hg, ?_⟩
      cases r with
      | error e => trivial
      | ok matched => exact fun hmatched => absurd (by rw [hmatched]) hr
    · obtain ⟨hi', hg⟩ := allowed_write hi
      exact ⟨hi', hg, fun _ => h w _ _ m hw hm⟩
  · cases matched with
    | true => exact fun _ _ hw => hw rfl
    | false => exact fun _ _ _ => trivial

theorem safe_flushDelete (hB : (authorized hash task w₀).Stable t B)
    (hA : Firm (authorized hash task w₀) t A) (hAB : ∀ w, A w → B w)
    (h : ∀ w o r m, A w → (w.state.db .channelMembers).view t k = some m →
      B (w.after t o r (w.state.set .channelMembers
        ((w.state.db .channelMembers).write t k none)))) :
    (authorized hash task w₀).Safe t (Py.flushDelete .channelMembers k) A (fun _ => B)
      fun _ _ => True := by
  refine Contract.Safe.await (fun _ => B) (fun _ => hB) (fun _ => .const True)
    (fun w ch r s hi hw _ hx => ?_) fun _ _ _ hw => hw
  rcases exec_deleteTable hx with ⟨rfl, -⟩ | ⟨m, -, hm, rfl, rfl⟩
  · obtain ⟨hi', hg⟩ := allowed_of_eq rfl rfl hi
    have hlooked : Looked t w w.state := ⟨rfl, rfl, fun _ hk => hk, fun _ _ => Iff.rfl⟩
    refine ⟨hi', hg, ?_⟩
    cases r with
    | error e => trivial
    | ok deleted => exact hAB _ (hA.looked w _ _ _ hlooked hw)
  · obtain ⟨hi', hg⟩ := allowed_write hi
    exact ⟨hi', hg, h w _ _ m hw hm⟩

/-- A new membership that the transaction may write. -/
def Insertable (task : T → Task) (w₀ : BackendWorld T) (t : T) (c : ChannelId) (u : UserId)
    (role : ChannelMemberRole) (w : BackendWorld T) : Prop :=
  ∀ now, Change task w₀ (fun c u => Held t c u w) t (c, u) none (some ⟨role, now⟩)

theorem solid_insertable {role : ChannelMemberRole} : Solid K t (Insertable task w₀ t c u role) :=
  solid_of_mono (P := fun admin => ∀ now, Change task w₀ admin t (c, u) none (some ⟨role, now⟩))
    fun hadmin h now => (h now).mono hadmin

theorem safe_flushMembership {role : ChannelMemberRole} :
    (authorized hash task w₀).Safe t
      (Py.flushInsert .channelMembers (c, u) fun now => ⟨role, now⟩)
      (fun w => Clean t w ∧ Insertable task w₀ t c u role w) (fun _ => Warranted task w₀ t)
      fun _ _ => True := by
  refine Contract.Safe.await (fun row w => row.isSome → Warranted task w₀ t w)
    (fun _ => .imp fun _ => firm_warranted.stable) (fun _ => .const True)
    (fun w ch r s hi hw _ hx => ?_) fun row => ?_
  · rcases exec_insertTable hx with ⟨rfl, hr⟩ | ⟨now, -, hnone, rfl, rfl⟩
    · obtain ⟨hi', hg⟩ := allowed_of_eq rfl rfl hi
      refine ⟨hi', hg, ?_⟩
      cases r with
      | error e => trivial
      | ok row =>
        cases row with
        | none => exact fun hrow => absurd hrow Bool.false_ne_true
        | some row => exact absurd rfl (hr row)
    · obtain ⟨hi', hg⟩ := allowed_write hi
      refine ⟨hi', hg, fun _ => warranted_write (written_of_clean hw.1) ?_⟩
      rw [view_of_clean hw.1] at hnone
      rw [membership, hnone]
      exact hw.2 now
  · cases row with
    | none => exact fun _ _ _ => trivial
    | some row => exact fun _ _ hw => hw rfl

theorem safe_insertMembership {role : ChannelMemberRole} :
    (authorized hash task w₀).Safe t (insertMembership c u role)
      (fun w => Clean t w ∧ Insertable task w₀ t c u role w) (fun _ => Warranted task w₀ t)
      fun _ _ => True := by
  refine Contract.Safe.handle (R := fun _ _ => True)
    (Contract.Safe.bind safe_flushMembership fun _ _ _ hw => hw) fun e => ?_
  split
  · refine Contract.Safe.bind safe_rollback fun _ => ?_
    refine Contract.Safe.bind (firm_clean.perform trivial) fun found => ?_
    cases found with
    | none => exact fun _ _ _ => trivial
    | some m => exact fun _ _ hw => written_of_clean hw
  · exact fun _ _ _ => trivial

/-! ### The succession -/

/-- A member of the channel may be promoted for `v`. -/
def Ready (task : T → Task) (w₀ : BackendWorld T) (t : T) (v : UserId) (c : ChannelId)
    (w : BackendWorld T) : Prop :=
  (Departs task (fun c u => Held t c u w) t c v ∧ Chain task w₀ c v .admin) ∧ ∃ x, Held t c x w

/-- In these channels `v` departs, having been an admin. -/
def Departing (task : T → Task) (w₀ : BackendWorld T) (t : T) (v : UserId) (cs : List ChannelId)
    (w : BackendWorld T) : Prop :=
  ∀ c ∈ cs, Departs task (fun c u => Held t c u w) t c v ∧ Chain task w₀ c v .admin

/-- The successors found so far may be promoted. -/
def Found (task : T → Task) (w₀ : BackendWorld T) (t : T) (v : UserId)
    (found : List (Option (ChannelId × UserId × ChannelMember))) (w : BackendWorld T) : Prop :=
  ∀ s ∈ found.filterMap id, Ready task w₀ t v s.1 w

/-- What the transaction has written are promotions that it may write. -/
abbrev Promoting (task : T → Task) (w₀ : BackendWorld T) (t : T) : BackendWorld T → Prop :=
  Written (fun admin k a b => Change task w₀ admin t k a b ∧
    ∃ m, a = some m ∧ b = some (promote m)) t

theorem solid_ready : Solid K t (Ready task w₀ t v c) :=
  solid_of_mono (P := fun admin =>
      (Departs task admin t c v ∧ Chain task w₀ c v .admin) ∧ ∃ x, admin c x) fun hadmin h =>
    ⟨⟨h.1.1.mono hadmin, h.1.2⟩, h.2.imp fun x => hadmin c x⟩

theorem solid_departing {cs : List ChannelId} : Solid K t (Departing task w₀ t v cs) :=
  solid_of_mono (P := fun admin => ∀ c ∈ cs, Departs task admin t c v ∧ Chain task w₀ c v .admin)
    fun hadmin h c hc => ⟨(h c hc).1.mono hadmin, (h c hc).2⟩

theorem solid_found {found : List (Option (ChannelId × UserId × ChannelMember))} :
    Solid K t (Found task w₀ t v found) :=
  .forall fun _ => .imp solid_ready

omit [DecidableEq T] in
theorem Promoting.mono {m b : Option ChannelMember} (hadmin : ∀ c u, admin c u → admin' c u)
    (h : Change task w₀ admin t k m b ∧ ∃ x, m = some x ∧ b = some (promote x)) :
    Change task w₀ admin' t k m b ∧ ∃ x, m = some x ∧ b = some (promote x) :=
  ⟨h.1.mono hadmin, h.2⟩

theorem firm_promoting : Firm K t (Promoting task w₀ t) := firm_written Promoting.mono

omit [DecidableEq T] in
theorem Promoting.warranted (h : Promoting task w₀ t w) : Warranted task w₀ t w :=
  fun c u v hv => (h c u v hv).1

/-- The row a promotion is written of is the committed one, or a promotion of it. -/
theorem Promoting.view {m : ChannelMember} (h : Promoting task w₀ t w)
    (hm : (w.state.db .channelMembers).view t (c, u) = some m) :
    ∃ x, membership w c u = some x ∧ promote m = promote x := by
  rcases (w.state.db .channelMembers).view_cases t (c, u) with hv | ⟨v', hhold, hv⟩
  · exact ⟨m, hv.symm.trans hm, rfl⟩
  · obtain ⟨-, x, hx, rfl⟩ := h c u v' hhold
    obtain rfl := Option.some.inj (hv.symm.trans hm)
    exact ⟨x, hx, rfl⟩

/-- A successor is found in a channel in which an admin is held. -/
theorem safe_successorIn {cs : List ChannelId}
    {found : List (Option (ChannelId × UserId × ChannelMember))}
    (hA : Firm (authorized hash task w₀) t A) :
    (authorized hash task w₀).Safe t (successorIn v c)
      (fun w => (A w ∧ Found task w₀ t v found w ∧ Departing task w₀ t v (c :: cs) w) ∧ Clean t w)
      (fun b w => (A w ∧ Found task w₀ t v (found ++ [b]) w ∧ Departing task w₀ t v cs w) ∧
        Clean t w) fun _ _ => True := by
  have htail : ∀ w, Departing task w₀ t v (c :: cs) w → Departing task w₀ t v cs w :=
    fun w h c' hc' => h c' (List.mem_cons_of_mem _ hc')
  have hnone : ∀ w, Found task w₀ t v found w → Found task w₀ t v (found ++ [none]) w := by
    intro w h x hx
    rw [List.filterMap_append] at hx
    exact h x (by simpa using hx)
  have hfirm : Firm (authorized hash task w₀) t fun w => A w ∧ Found task w₀ t v found w ∧
      Departing task w₀ t v (c :: cs) w :=
    hA.and (solid_found.toFirm.and solid_departing.toFirm)
  refine Contract.Safe.bind (safe_lockAdmins hfirm) fun ids => ?_
  show Contract.Safe _ _ (if _ then _ else _) _ _ _
  split
  · exact fun w _ hw => ⟨⟨hw.1.1.1, hnone w hw.1.1.2.1, htail w hw.1.1.2.2⟩, hw.1.2⟩
  · rename_i hlen
    refine Contract.Safe.bind (Contract.Safe.weaken (((hfirm.and firm_clean).and
      (.exists fun x => firm_held (c := c) (u := x))).only ((Prog.only_perform trivial).bind
        fun _ => trivial)) fun w _ hw => ⟨hw.1, ?_⟩) fun successor w _ hw => ?_
    · cases ids with
      | nil => exact absurd Nat.zero_ne_one hlen
      | cons x xs => exact ⟨x, hw.2 x List.mem_cons_self⟩
    · obtain ⟨⟨⟨hAw, hfound, hdeparting⟩, hclean⟩, hheld⟩ := hw
      cases successor with
      | none => exact ⟨⟨hAw, hnone w hfound, htail w hdeparting⟩, hclean⟩
      | some y =>
        refine ⟨⟨hAw, fun x hx => ?_, htail w hdeparting⟩, hclean⟩
        rw [List.filterMap_append, List.mem_append] at hx
        rcases hx with hx | hx
        · exact hfound x hx
        · obtain rfl : x = (c, y) := by simpa using hx
          exact ⟨hdeparting c List.mem_cons_self, hheld⟩

theorem safe_flushSuccessors {found : List (Option (ChannelId × UserId × ChannelMember))}
    (hA : Solid (authorized hash task w₀) t A) :
    (authorized hash task w₀).Safe t (flushSuccessors (found.filterMap id))
      (fun w => (A w ∧ Found task w₀ t v found w) ∧ Clean t w)
      (fun _ w => A w ∧ Promoting task w₀ t w) fun _ _ => True := by
  have hsolid : ∀ ks : List MemberKey,
      Solid (authorized hash task w₀) t fun w => ∀ k ∈ ks, Ready task w₀ t v k.1 w :=
    fun ks => .forall fun _ => .imp solid_ready
  refine Contract.Safe.bind ((Contract.Safe.forEach (I := fun ks (_ : List Unit) w =>
    (A w ∧ Promoting task w₀ t w) ∧ ∀ k ∈ ks, Ready task w₀ t v k.1 w)
    (fun k ks bs => ?_) _ []).weaken fun w _ hw => ?_) fun _ w _ hw => hw.1
  · refine safe_flushUpdate ((hA.stable.and firm_promoting.stable).and (hsolid ks).stable)
      fun w o r m hw hm => ?_
    obtain ⟨c, u⟩ := k
    obtain ⟨⟨hAw, hpromoting⟩, hready⟩ := hw
    obtain ⟨x, hx, hpromote⟩ := hpromoting.view hm
    obtain ⟨⟨hdeparts, hv⟩, hheld⟩ := hready (c, u) List.mem_cons_self
    refine ⟨⟨hA.write w o r _ _ hAw, written_write Promoting.mono hpromoting ?_⟩,
      (hsolid ks).write w o r _ _ fun j hj => hready j (List.mem_cons_of_mem _ hj)⟩
    rw [hx, hpromote]
    exact ⟨.promote hdeparts hv hheld, x, rfl, rfl⟩
  · refine ⟨⟨hw.1.1, written_of_clean hw.2⟩, fun k hk => ?_⟩
    rw [List.mem_insertionSort] at hk
    obtain ⟨x, hx, rfl⟩ := List.mem_map.mp hk
    exact hw.1.2 x (List.mem_of_mem_filter hx)

theorem safe_runSoleAdminSuccession {channelId : Option ChannelId}
    (hA : Solid (authorized hash task w₀) t A) (hdeparts : ∀ w c, A w →
      channelId.all (c = ·) = true → Departs task (fun c u => Held t c u w) t c v) :
    (authorized hash task w₀).Safe t (runSoleAdminSuccession v channelId)
      (fun w => A w ∧ Clean t w) (fun _ w => A w ∧ Promoting task w₀ t w) fun _ _ => True := by
  refine Contract.Safe.await (fun rows w => (A w ∧ Found task w₀ t v [] w ∧
      Departing task w₀ t v (rows.map fun r => r.1.1) w) ∧ Clean t w)
    (fun _ => (hA.stable.and (solid_found.stable.and solid_departing.stable)).and stable_clean)
    (fun _ => .const True) (fun w ch r s hi hw _ hx => ?_) fun rows => ?_
  · rcases exec_selectTable hx with ⟨rfl, hperm⟩
    obtain ⟨hi', hg⟩ := allowed_of_eq rfl rfl hi
    have hlooked : Looked t w w.state := ⟨rfl, rfl, fun _ hk => hk, fun _ _ => Iff.rfl⟩
    refine ⟨hi', hg, ?_⟩
    cases r with
    | error e => trivial
    | ok rows =>
      have hdeparting : Departing task w₀ t v (rows.map fun r => r.1.1) w := by
        intro c hc
        obtain ⟨⟨⟨c', x⟩, m⟩, hr, rfl⟩ := List.mem_map.mp hc
        obtain ⟨hm, hscan⟩ := Table.mem_scan.mp ((hperm rows rfl).mem_iff.mp hr)
        simp only [Bool.and_eq_true, decide_eq_true_eq] at hscan
        obtain ⟨⟨rfl, hrole⟩, hall⟩ := hscan
        rw [view_of_clean hw.2] at hm
        refine ⟨hdeparts w c' hw.1 hall, ?_⟩
        rw [← hrole]
        exact hi.chain c' x m hm
      refine ⟨⟨hA.looked w _ _ _ hlooked hw.1, ?_, ?_⟩,
        (firm_clean (K := authorized hash task w₀)).looked w _ _ _ hlooked hw.2⟩
      · exact fun x hx => (List.not_mem_nil hx).elim
      · exact (solid_departing (K := authorized hash task w₀)).looked w _ _ _ hlooked hdeparting
  · refine Contract.Safe.bind (Contract.Safe.forEach (I := fun cs found w =>
      (A w ∧ Found task w₀ t v found w ∧ Departing task w₀ t v cs w) ∧ Clean t w)
      (fun c cs found => safe_successorIn hA.toFirm) _ []) fun found => ?_
    refine Contract.Safe.bind ((safe_flushSuccessors (v := v) hA).weaken fun w _ hw => ?_)
      fun _ _ _ hw => hw
    exact ⟨⟨hw.1.1, by simpa using hw.1.2.1⟩, hw.2⟩

/-- The end of a membership, by who may end it. -/
theorem safe_departMember {m : ChannelMember} (hA : Solid (authorized hash task w₀) t A)
    (hdeparts : ∀ w, A w → Departs task (fun c u => Held t c u w) t c v)
    (hdelete : ∀ w x, A w → Change task w₀ (fun c u => Held t c u w) t (c, v) (some x) none) :
    (authorized hash task w₀).Safe t (departMember c v m) (fun w => A w ∧ Clean t w)
      (fun _ => Warranted task w₀ t) fun _ _ => True := by
  have hflush : (authorized hash task w₀).Safe t (Py.flushDelete .channelMembers (c, v))
      (fun w => A w ∧ Promoting task w₀ t w) (fun _ => Warranted task w₀ t) fun _ _ => True := by
    refine safe_flushDelete firm_warranted.stable (hA.toFirm.and firm_promoting)
      (fun w hw => hw.2.warranted) fun w o r m hw hm => ?_
    obtain ⟨x, hx, -⟩ := hw.2.view hm
    refine warranted_write hw.2.warranted ?_
    rw [hx]
    exact hdelete w x hw.1
  show Contract.Safe _ _ (if _ then _ else _) _ _ _
  split
  · refine Contract.Safe.bind (safe_runSoleAdminSuccession hA fun w c' hw hall => ?_)
      fun _ => hflush
    obtain rfl : c' = c := by simpa using hall
    exact hdeparts w hw
  · exact hflush.weaken fun w _ hw => ⟨hw.1, written_of_clean hw.2⟩

/-! ### The requests -/

theorem looks_publish {event : Event} {topic : Topic} :
    (publishChannelEvent event topic).Only Looks :=
  (Prog.only_perform trivial).handle fun e => by split <;> trivial

/-- Committing, and the answer. -/
theorem safe_commitReturn {α : Type} {a : α} :
    (authorized hash task w₀).Safe t (Py.commit.bind fun _ => .ret a) (Warranted task w₀ t)
      (fun _ => Warranted task w₀ t) fun _ _ => True :=
  Contract.Safe.bind safe_commit fun _ _ _ hw => written_of_clean hw

theorem safe_commitPublish {event : Event} {topic : Topic} :
    (authorized hash task w₀).Safe t (Py.commit.bind fun _ => publishChannelEvent event topic)
      (Warranted task w₀ t) (fun _ => Warranted task w₀ t) fun _ _ => True :=
  Contract.Safe.bind safe_commit fun _ =>
    (firm_clean.only looks_publish).mono (fun _ _ hw => hw) (fun _ _ _ hw => written_of_clean hw)
      fun _ _ _ hw => hw

theorem safe_commitAdded {α : Type} {a : α} {event : Event} {topic : Topic} :
    (authorized hash task w₀).Safe t
      (Py.commit.bind fun _ => (publishChannelEvent event topic).bind fun _ => .ret a)
      (Warranted task w₀ t) (fun _ => Warranted task w₀ t) fun _ _ => True := by
  refine Contract.Safe.bind safe_commit fun _ => ?_
  exact Contract.Safe.bind (firm_clean.only looks_publish) fun _ _ _ hw => written_of_clean hw

theorem safe_countChannelMembers : (authorized hash task w₀).Safe t (countChannelMembers c)
    (Warranted task w₀ t) (fun _ => Warranted task w₀ t) fun _ _ => True :=
  firm_warranted.only ((Prog.only_perform trivial).bind fun _ => trivial)

/-- The row of a channel that a request creates. -/
theorem safe_flushChannel {name : Text} {isPrivate : Bool}
    (ht : task t = .create name isPrivate u) :
    (authorized hash task w₀).Safe t
      (Py.flushInsert .channels c fun now => ⟨name, isPrivate, u, now⟩) (Clean t)
      (fun _ w => Clean t w ∧ Insertable task w₀ t c u .admin w) fun _ _ => True := by
  have hfirm : Firm (authorized hash task w₀) t fun w =>
      Clean t w ∧ Insertable task w₀ t c u .admin w := firm_clean.and solid_insertable.toFirm
  refine Contract.Safe.await (fun row w => row.isSome → Clean t w ∧
    Insertable task w₀ t c u .admin w) (fun _ => .imp fun _ => hfirm.stable) (fun _ => .const True)
    (fun w ch r s hi hw _ hx => ?_) fun row => ?_
  · rcases exec_insertTable hx with ⟨rfl, hr⟩ | ⟨now, -, hnone, rfl, rfl⟩
    · obtain ⟨hi', hg⟩ := allowed_of_eq rfl rfl hi
      refine ⟨hi', hg, ?_⟩
      cases r with
      | error e => trivial
      | ok row =>
        cases row with
        | none => exact fun hrow => absurd hrow Bool.false_ne_true
        | some row => exact absurd rfl (hr row)
    · -- a transaction that sees no row of the channel inserts one that was not there at the start
      have hnew : ¬ Old w₀ c := by
        intro hold
        rcases (w.state.db .channels).view_cases t c with hv | ⟨v, hhold, hv⟩
        · exact hi.old c hold (hv.symm.trans hnone)
        · exact (hi.pending t c v hhold).1 hold
      have hmembers : (w.state.set .channels ((w.state.db .channels).write t c
          (some ⟨name, isPrivate, u, now⟩))).db .channelMembers = w.state.db .channelMembers :=
        State.set_db_of_ne nofun
      have hsame : ∀ c' u', membership (w.after t (.sql (.insert .channels c fun now =>
          ⟨name, isPrivate, u, now⟩)) (.ok (some ⟨name, isPrivate, u, now⟩)) (w.state.set .channels
            ((w.state.db .channels).write t c (some ⟨name, isPrivate, u, now⟩)))) c' u' =
          membership w c' u' := by
        intro c' u'
        unfold membership
        rw [World.after_state, hmembers]
      refine ⟨⟨fun c' u' m hm => hi.chain c' u' m ((hsame c' u').symm.trans hm),
        fun c' u' hm hgone => hi.gone c' u' hm ((hsame c' u').symm.trans hgone), ?_, ?_,
        fun t' c' v hv => ?_⟩, fun c' u' => .inl (hsame c' u'), fun _ => ⟨fun k v hv => ?_,
        fun now => .create ht hnew⟩⟩
      · rw [World.after_state, State.set_db, Table.committed_write]
        exact hi.origin
      · rw [World.after_state, State.set_db, Table.committed_write]
        exact hi.old
      · rw [World.after_state, State.set_db] at hv
        by_cases hc : c' = c
        · subst hc
          rw [Table.hold_write_self] at hv
          cases hv
          exact ⟨hnew, _, rfl, .inr ⟨hnew, t, ht⟩⟩
        · rw [Table.hold_write_of_ne hc] at hv
          exact hi.pending t' c' v hv
      · rw [World.after_state, hmembers] at hv
        exact hw k v hv
  · cases row with
    | none => exact fun _ _ _ => trivial
    | some row => exact fun _ _ hw => hw rfl

theorem safe_create {name : Text} {isPrivate : Bool} (ht : task t = .create name isPrivate u) :
    (authorized hash task w₀).Safe t (createChannelRoute name isPrivate u) (Clean t)
      (fun _ _ => True) fun _ _ => True := by
  refine safe_request (Contract.Safe.bind
    (Contract.Safe.handle (R := fun _ _ => True) ?_ fun e => ?_) fun _ => safe_commitReturn)
  · refine Contract.Safe.bind (firm_clean.perform trivial) fun id => ?_
    refine Contract.Safe.bind (safe_flushChannel ht) fun channel => ?_
    exact Contract.Safe.bind safe_flushMembership fun _ _ _ hw => hw
  · split
    · exact Contract.Safe.bind safe_rollback fun _ _ _ _ => trivial
    · exact fun _ _ _ => trivial

/-- The channel is an open one. -/
theorem safe_getChannel : (authorized hash task w₀).Safe t (Py.get .channels c) (Clean t)
    (fun found w => Clean t w ∧ ∀ x, found = some x → Origin task w₀ c x) fun _ _ => True := by
  refine Contract.Safe.perform (fun _ => stable_clean.and (.const _)) (fun _ => .const True)
    fun w ch r s hi hw _ hx => ?_
  obtain ⟨rfl, hr⟩ := exec_getTable hx
  obtain ⟨hi', hg⟩ := allowed_of_eq rfl rfl hi
  refine ⟨hi', hg, ?_⟩
  cases r with
  | error e => trivial
  | ok found =>
    refine ⟨fun k v hv => hw k v hv, fun x hfound => ?_⟩
    have hview := (hr found rfl).symm.trans hfound
    rcases (w.state.db .channels).view_cases t c with hv | ⟨v, hhold, hv⟩
    · exact hi.origin c x (hv.symm.trans hview)
    · obtain ⟨-, y, rfl, hy⟩ := hi.pending t c v hhold
      obtain rfl := Option.some.inj (hv.symm.trans hview)
      exact hy

theorem safe_join (ht : task t = .join c u) :
    (authorized hash task w₀).Safe t (joinChannelRoute c u) (Clean t) (fun _ _ => True)
      fun _ _ => True := by
  refine safe_request (Contract.Safe.bind (Q := fun _ => Warranted task w₀ t) ?_ fun outcome => ?_)
  · refine Contract.Safe.bind safe_getChannel fun channel => ?_
    cases channel with
    | none => exact fun _ _ hw => written_of_clean hw.1
    | some channel =>
      refine Contract.Safe.bind ((firm_clean.and (.const _)).perform trivial) fun found => ?_
      cases found with
      | some m => exact fun _ _ hw => written_of_clean hw.1
      | none =>
        show Contract.Safe _ _ (if _ then _ else _) _ _ _
        split
        · exact fun _ _ hw => written_of_clean hw.1
        rename_i hpublic
        refine Contract.Safe.bind (safe_insertMembership.weaken fun w _ hw => ⟨hw.1, fun now => ?_⟩)
          fun row => ?_
        · exact .join ht ⟨channel, hw.2 channel rfl, by simpa using hpublic⟩
        · cases row with
          | inr existing => exact fun _ _ hw => hw
          | inl m => exact Contract.Safe.bind safe_countChannelMembers fun _ _ _ hw => hw
  · cases outcome with
    | notFound => exact fun _ _ _ => trivial
    | isPrivate channel => exact fun _ _ _ => trivial
    | alreadyMember m channel => exact safe_commitReturn
    | joined m channel count => exact safe_commitAdded

theorem safe_leave (ht : task t = .leave c u) :
    (authorized hash task w₀).Safe t (leaveChannelRoute c u) (Clean t) (fun _ _ => True)
      fun _ _ => True := by
  refine safe_request (Contract.Safe.bind (Q := fun _ => Warranted task w₀ t) ?_ fun outcome => ?_)
  · refine Contract.Safe.bind (firm_clean.perform trivial) fun channel => ?_
    cases channel with
    | none => exact fun _ _ hw => written_of_clean hw
    | some channel =>
      refine Contract.Safe.bind (firm_clean.perform trivial) fun found => ?_
      cases found with
      | none => exact fun _ _ hw => written_of_clean hw
      | some m =>
        refine Contract.Safe.bind ((safe_departMember (.const True) (fun _ _ => .leave ht)
          fun _ _ _ => .leave ht).weaken fun _ _ hw => ⟨trivial, hw⟩) fun _ _ _ hw => hw
  · cases outcome with
    | notMember => exact fun _ _ hw => hw
    | left => exact safe_commitPublish

theorem safe_add {role : ChannelMemberRole} (ht : task t = .add c caller u role) :
    (authorized hash task w₀).Safe t (addChannelMemberRoute c caller u role) (Clean t)
      (fun _ _ => True) fun _ _ => True := by
  have hkept : Firm (authorized hash task w₀) t fun w => Clean t w ∧ Held t c caller w :=
    firm_clean.and firm_held
  refine safe_request (Contract.Safe.bind (Q := fun _ => Warranted task w₀ t) ?_ fun outcome => ?_)
  · refine Contract.Safe.bind safe_authorizeAdmin fun authorized => ?_
    cases authorized with
    | error refusal => exact fun _ _ hw => written_of_clean hw.1
    | ok channel =>
      refine Contract.Safe.bind ((hkept.perform (o := .sql (.get .users u)) trivial).weaken
        fun _ _ hw => ⟨hw.1, hw.2 channel rfl⟩) fun user => ?_
      cases user with
      | none => exact fun _ _ hw => written_of_clean hw.1
      | some user =>
        refine Contract.Safe.bind (hkept.perform trivial) fun found => ?_
        cases found with
        | some m => exact fun _ _ hw => written_of_clean hw.1
        | none =>
          refine Contract.Safe.bind (safe_insertMembership.weaken
            fun w _ hw => ⟨hw.1, fun now => .add ht hw.2⟩) fun row => ?_
          cases row with
          | inr existing => exact fun _ _ hw => hw
          | inl m => exact Contract.Safe.bind safe_countChannelMembers fun _ _ _ hw => hw
  · cases outcome with
    | refused refusal => exact fun _ _ _ => trivial
    | alreadyMember m channel => exact safe_commitReturn
    | added m channel count => exact safe_commitAdded

theorem safe_changeRole {role : ChannelMemberRole} (ht : task t = .changeRole c caller u role) :
    (authorized hash task w₀).Safe t (updateChannelMemberRoleRoute c caller u role) (Clean t)
      (fun _ _ => True) fun _ _ => True := by
  have hkept : Firm (authorized hash task w₀) t fun w => Clean t w ∧ Held t c caller w :=
    firm_clean.and firm_held
  refine safe_request (Contract.Safe.bind (Q := fun _ => Warranted task w₀ t) ?_ fun outcome => ?_)
  · refine Contract.Safe.bind safe_authorizeAdmin fun authorized => ?_
    cases authorized with
    | error refusal => exact fun _ _ hw => written_of_clean hw.1
    | ok channel =>
      refine Contract.Safe.bind ((hkept.perform (o := .sql (.get .channelMembers (c, u)))
        trivial).weaken fun _ _ hw => ⟨hw.1, hw.2 channel rfl⟩) fun found => ?_
      cases found with
      | none => exact fun _ _ hw => written_of_clean hw.1
      | some m =>
        show Contract.Safe _ _ (if _ then _ else _) _ _ _
        split
        · exact fun _ _ hw => written_of_clean hw.1
        refine Contract.Safe.bind (safe_flushUpdate firm_warranted.stable
          fun w o r x hw hx => ?_) fun _ _ _ hw => hw
        rw [view_of_clean hw.1] at hx
        refine warranted_write (written_of_clean hw.1) ?_
        rw [membership, hx]
        exact .changeRole ht hw.2
  · cases outcome with
    | refused refusal => exact fun _ _ _ => trivial
    | updated m => exact safe_commitReturn
    | noOp m => exact safe_commitReturn

theorem safe_remove (ht : task t = .remove c caller u) :
    (authorized hash task w₀).Safe t (removeChannelMemberRoute c caller u) (Clean t)
      (fun _ _ => True) fun _ _ => True := by
  have hkept : Firm (authorized hash task w₀) t fun w => Held t c caller w ∧ Clean t w :=
    firm_held.and firm_clean
  refine safe_request (Contract.Safe.bind (Q := fun _ => Warranted task w₀ t) ?_ fun outcome => ?_)
  · refine Contract.Safe.bind safe_authorizeAdmin fun authorized => ?_
    cases authorized with
    | error refusal => exact fun _ _ hw => written_of_clean hw.1
    | ok channel =>
      refine Contract.Safe.bind ((hkept.perform (o := .sql (.get .users u)) trivial).weaken
        fun _ _ hw => ⟨hw.2 channel rfl, hw.1⟩) fun user => ?_
      cases user with
      | none => exact fun _ _ hw => written_of_clean hw.2
      | some user =>
        refine Contract.Safe.bind (hkept.perform trivial) fun found => ?_
        cases found with
        | none => exact fun _ _ hw => written_of_clean hw.2
        | some m =>
          exact Contract.Safe.bind (safe_departMember solid_held (fun _ hw => .remove ht hw)
            fun _ _ hw => .remove ht hw) fun _ _ _ hw => hw
  · cases outcome with
    | refused refusal => exact fun _ _ _ => trivial
    | notMember =>
      exact safe_commit.mono (fun _ _ hw => hw) (fun _ _ _ hw => written_of_clean hw)
        fun _ _ _ hw => hw
    | removed => exact safe_commitPublish

theorem looks_flushUpdate {τ : Tbl} (hchannels : τ ≠ .channels) (hmembers : τ ≠ .channelMembers)
    {k : τ.Key} {f : τ.Row → τ.Row} : (Py.flushUpdate τ k f).Only Looks :=
  Py.only_flushUpdate (P := Looks) ⟨hchannels, hmembers⟩

theorem safe_deactivateUser {x : User} (ht : task t = .deactivate u) :
    (authorized hash task w₀).Safe t (deactivateUser u x) (Clean t) (fun _ => Warranted task w₀ t)
      fun _ _ => True := by
  have hrevoke : (revokeSessionsForUser u none (.ret ()) (.ret ())).Only Looks :=
    only_revokeSessionsForUser trivial (fun _ => trivial) (fun _ _ => ⟨nofun, nofun⟩) trivial trivial
  have hdeactivate : (authorized hash task w₀).Safe t (deactivate u) (Clean t)
      (fun _ => Warranted task w₀ t) fun _ _ => True := by
    refine Contract.Safe.bind ((safe_runSoleAdminSuccession (.const True)
      fun _ _ _ _ => .deactivate ht).weaken fun _ _ hw => ⟨trivial, hw⟩) fun promoted => ?_
    refine Contract.Safe.bind ((firm_warranted.only (looks_flushUpdate (τ := .users) nofun
      nofun)).weaken fun _ _ hw => hw.2.warranted) fun _ => ?_
    exact Contract.Safe.bind (firm_warranted.only hrevoke) fun _ _ _ hw => hw
  show Contract.Safe _ _ (if _ then _ else (if _ then _ else _)) _ _ _
  split
  · exact fun _ _ hw => written_of_clean hw
  split
  · have hlock : lockAndCountActiveSystemAdmins.Only Looks :=
      (only_selectForUpdate trivial fun _ => nofun).bind fun _ => trivial
    refine Contract.Safe.bind (firm_clean.only hlock) fun n => ?_
    show Contract.Safe _ _ (if _ then _ else _) _ _ _
    split
    · exact fun _ _ hw => written_of_clean hw
    · exact hdeactivate
  · exact hdeactivate

theorem safe_deactivateRoute (ht : task t = .deactivate u) :
    (authorized hash task w₀).Safe t (deactivateUserRoute u) (Clean t) (fun _ _ => True)
      fun _ _ => True := by
  have hget : (getUserOr404 u).Only Looks := by
    refine (Prog.only_perform trivial).bind fun found => ?_
    cases found <;> trivial
  have hinvalidate : ∀ sessionId, (invalidateSessionCache sessionId).Only Looks := by
    refine fun sessionId => (Prog.only_perform trivial).handle fun e => ?_
    split <;> trivial
  refine safe_request (Contract.Safe.bind (firm_clean.only hget) fun x => ?_)
  refine Contract.Safe.bind (safe_deactivateUser ht) fun result => ?_
  cases result with
  | lastActiveSystemAdmin => exact Contract.Safe.bind safe_rollback fun _ _ _ _ => trivial
  | alreadyInactive => exact safe_commitReturn
  | deactivated revoked promoted =>
    refine Contract.Safe.bind safe_commit fun _ => ?_
    exact Contract.Safe.bind (firm_clean.only (Prog.only_forEach _ hinvalidate))
      fun _ _ _ hw => written_of_clean hw

/-- What leaves channels and memberships alone. -/
theorem step_other (hchannels : Leaves .channels o) (hmembers : Leaves .channelMembers o) :
    (authorized hash task w₀).StepOk t (Clean t) o fun _ => Clean t := by
  intro w ch r s hi hw hpre hx
  have hsame : ∀ o r, Clean t (w.after t o r w.state) := fun _ _ k v hv => hw k v hv
  by_cases hcommit : o = .sql .commit
  · subst hcommit
    obtain ⟨hi', hg, hclean⟩ := step_commit w ch r s hi (written_of_clean hw) hpre hx
    refine ⟨hi', hg, ?_⟩
    rcases exec_commitAll hx with ⟨rfl, e, rfl⟩ | ⟨-, rfl⟩
    · exact hsame _ _
    · exact hclean
  by_cases hrollback : o = .sql .rollback
  · subst hrollback
    rcases exec_rollbackAll hx with ⟨rfl, e, rfl⟩ | ⟨rfl, rfl⟩
    · obtain ⟨hi', hg⟩ := allowed_of_eq rfl rfl hi
      exact ⟨hi', hg, hsame _ _⟩
    · exact ⟨hi.rollback, fun _ _ => .inl rfl, AdminSuccession.clean_release rfl⟩
  have hspares : ∀ {τ}, Leaves τ o → Spares τ o := fun h =>
    (h.spares.resolve_right fun hend => hend.elim hcommit hrollback)
  have hchannels := exec_spares (hspares hchannels) hx
  have hmembers := exec_spares (hspares hmembers) hx
  obtain ⟨hi', hg⟩ := allowed_of_eq hchannels (by rw [hmembers]) hi
  refine ⟨hi', hg, fun k v hv => hw k v ?_⟩
  rw [World.after_state, hmembers] at hv
  exact hv

theorem safe_task (hother : ∀ p, task t = .other p →
      p.Only fun o => Leaves .channels o ∧ Leaves .channelMembers o) :
    (authorized hash task w₀).Safe t (task t).program (Clean t) (fun _ _ => True)
      fun _ _ => True := by
  cases ht : task t with
  | create name isPrivate u => exact Contract.Safe.bind (safe_create ht) fun _ _ _ _ => trivial
  | join c u => exact Contract.Safe.bind (safe_join ht) fun _ _ _ _ => trivial
  | leave c u => exact safe_leave ht
  | add c caller u role => exact Contract.Safe.bind (safe_add ht) fun _ _ _ _ => trivial
  | changeRole c caller u role =>
    exact Contract.Safe.bind (safe_changeRole ht) fun _ _ _ _ => trivial
  | remove c caller u => exact safe_remove ht
  | deactivate u => exact Contract.Safe.bind (safe_deactivateRoute ht) fun _ _ _ _ => trivial
  | other p =>
    exact (Contract.Safe.only (hother p ht) stable_clean
      fun o ho => step_other ho.1 ho.2).mono (fun _ _ hw => hw) (fun _ _ _ _ => trivial)
      fun _ _ _ _ => trivial

/-! ### Runs -/

abbrev MembershipPool (T : Type) : Type := Pool T Op Op.Res Exc Unit (State T)

/-- Before the first step: nobody holds a channel or a membership, and the other requests leave both
alone. -/
structure Start (task : T → Task) (p : MembershipPool T) : Prop where
  prog : ∀ t, p.prog t = (task t).program
  channels : ∀ c, (p.world.state.db .channels).hold c = none
  members : ∀ k, (p.world.state.db .channelMembers).hold k = none
  other : ∀ t q, task t = .other q → 
    q.Only fun o => Leaves .channels o ∧ Leaves .channelMembers o

variable {p₀ p q : MembershipPool T} {ls : List (Label T Choice Tick)}

theorem Start.sound (h : Start task p₀) (hash : RawToken → TokenHash) :
    (authorized hash task p₀.world).Sound (fun _ _ _ => True) (fun _ _ _ => True) p₀ where
  inv := by
    refine ⟨fun c u m hm => .initial hm, fun c u hm hnone => absurd hnone hm,
      fun c x hx => .inl hx, fun c hold => hold, fun t c v hv => ?_⟩
    rw [h.channels] at hv
    cases hv
  safe t := by
    refine ⟨Clean t, stable_clean, fun k v hv => ?_, ?_⟩
    · rw [h.members] at hv
      cases hv
    · rw [h.prog]
      exact safe_task (h.other t)

theorem eventsOk : (authorized hash task w₀).EventsOk := by
  intro e w s hi _ hx
  cases hx
  exact ⟨hi.chain, hi.gone, hi.origin, hi.old, hi.pending⟩

/-- **Nobody is let in but by an admin's right.** In every interleaving of channel creations, joins,
leaves, additions, changes of role, removals and deactivations with whatever else leaves channels
and memberships alone: every member of a channel has come to the role it has by a chain of such
requests, each of the caller's own right (of an admin that can have become one, of whoever created
the channel, or of whoever joins an open one or leaves); whoever is gone left, or was removed by
such an admin; and every step changes memberships only as its request may, the admins being those
that are committed at that moment. -/
theorem memberships_authorized (h₀ : Start task p₀) (hp : (machine T hash).run p₀ ls = some p) :
    (∀ c u m, membership p.world c u = some m → Chain task p₀.world c u m.role) ∧
      (∀ c u, membership p₀.world c u ≠ none → membership p.world c u = none →
        Removable task p₀.world (c, u)) ∧
      ∀ t ch q, (machine T hash).step p (.proc t ch) = some q → ∀ c u,
        membership q.world c u = membership p.world c u ∨
          Change task p₀.world (Admin p.world) t (c, u) (membership p.world c u)
            (membership q.world c u) := by
  have hsound := (h₀.sound hash).run eventsOk (Machine.meets_always ls) hp
  refine ⟨hsound.inv.chain, hsound.inv.gone, fun t ch q hq => ?_⟩
  obtain ⟨o, k, r, s, -, -, rfl, hg⟩ := hsound.guar (by intro _ _ _; trivial) hq
  exact hg

omit [DecidableEq T] in
/-- Whom an admin of a private channel can have let in is in every circle of users that is closed
under the additions of its own members. -/
theorem mem_of_chain {S : Set UserId} {role : ChannelMemberRole} (hold : Old w₀ c)
    (hclosed : ¬ Open task w₀ c) (hstart : ∀ u, membership w₀ c u ≠ none → u ∈ S)
    (hadd : ∀ t caller u role, task t = .add c caller u role → caller ∈ S → u ∈ S)
    (h : Chain task w₀ c u role) : u ∈ S := by
  induction h with
  | initial hm => exact hstart _ (by rw [hm]; exact Option.some_ne_none _)
  | create ht hnew => exact absurd hold hnew
  | join ht hopen => exact absurd hopen hclosed
  | add ht hcaller ih => exact hadd _ _ _ _ ht ih
  | changeRole ht hcaller hu ihc ihu => exact ihu
  | leave ht hv hu ihv ihu => exact ihu
  | remove ht hcaller hv hu ihc ihv ihu => exact ihu
  | deactivate ht hv hu ihv ihu => exact ihu

/-- So it stays closed. -/
theorem mem_of_run {S : Set UserId} (h₀ : Start task p₀)
    (hp : (machine T hash).run p₀ ls = some p) (hold : Old p₀.world c)
    (hclosed : ¬ Open task p₀.world c) (hstart : ∀ u, membership p₀.world c u ≠ none → u ∈ S)
    (hadd : ∀ t caller u role, task t = .add c caller u role → caller ∈ S → u ∈ S)
    {m : ChannelMember} (hm : membership p.world c u = some m) : u ∈ S :=
  mem_of_chain hold hclosed hstart hadd
    (((h₀.sound hash).run eventsOk (Machine.meets_always ls) hp).inv.chain c u m hm)

/-! ### An addition while its caller leaves -/

def addAndLeave : Bool → Task
  | false => .add 1 10 20 .admin
  | true => .leave 1 10

/-- User 10, the only member and admin of private channel 1, adds user 20 and leaves. -/
def addBeforeLeave : MembershipPool Bool where
  world := ⟨State.ofRows fun
    | .users => [(20, ⟨['b'], ['b'], ['h'], ['b'], ['b'], true, false, false, 0⟩)]
    | .channels => [(1, ⟨['a'], true, 10, 0⟩)]
    | .channelMembers => [((1, 10), ⟨.admin, 0⟩)]
    | _ => [], []⟩
  prog t := (addAndLeave t).program

theorem addBeforeLeave_start : Start addAndLeave addBeforeLeave where
  prog _ := rfl
  channels _ := rfl
  members _ := rfl
  other t q h := by cases t <;> cases h

/-- `k` awaits of request `t`. -/
def awaits (t : Bool) (k : ℕ) : List (Label Bool Choice Tick) :=
  List.replicate k (.proc t (.ok [] 1))

def addBeforeLeaveRun : List (Label Bool Choice Tick) :=
  awaits true 2 ++ awaits false 11 ++ awaits true 9

/-- User 20 is an admin by the right of user 10, who is gone by their own. -/
theorem memberships_authorized_left :
    ∃ q, (machine Bool id).run addBeforeLeave addBeforeLeaveRun = some q ∧
      membership q.world 1 10 = none ∧ membership q.world 1 20 = some ⟨.admin, 1⟩ ∧
        Chain addAndLeave addBeforeLeave.world 1 20 .admin ∧
          Removable addAndLeave addBeforeLeave.world (1, 10) := by
  obtain ⟨q, hq⟩ := Option.isSome_iff_exists.mp
    (show ((machine Bool id).run addBeforeLeave addBeforeLeaveRun).isSome = true by decide +kernel)
  have hend : membership q.world 1 10 = none ∧ membership q.world 1 20 = some ⟨.admin, 1⟩ := by
    cases hq
    exact ⟨rfl, rfl⟩
  have hstart : membership addBeforeLeave.world 1 10 ≠ none := nofun
  obtain ⟨hchain, hgone, -⟩ := memberships_authorized addBeforeLeave_start hq
  exact ⟨q, hq, hend.1, hend.2, hchain 1 20 _ hend.2, hgone 1 10 hstart hend.1⟩

end Chatspace.MembershipAuthority
