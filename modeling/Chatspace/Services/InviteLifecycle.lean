import Chatspace.Backend.Tables
import Chatspace.Services.Invites

/-!
# The status of an invite

Registrations, resends and revocations, step by step in any order.  Each reads the invite under no
lock, decides, and updates the row by its key.

* `noLostUpdate` — a revocation updates no row that is accepted, and a registration none that is
  revoked;
* `invite_settles` — **then the status leaves pending once and for all, and it is accepted if and
  only if a user was created from the invite, who is the only one**;
* `revoked_after_registration` — a revocation that read the invite before a registration committed.
-/

namespace Chatspace.InviteLifecycle

open Interleave Store Auth Invites

/-- One request. -/
inductive Task where
  | register (inviteToken : RawToken) (username firstName lastName password : Text)
  | resend (inviteId : InviteId)
  | revoke (inviteId : InviteId)

def Task.program (env : Primitives) : Task → Py Unit
  | .register inviteToken username firstName lastName password =>
    (Invites.register env inviteToken username firstName lastName password).bind fun _ => .ret ()
  | .resend inviteId => resendInvite env inviteId
  | .revoke inviteId => revokeInviteRoute inviteId

variable {T : Type} [DecidableEq T] {hash : RawToken → TokenHash} {env : Primitives}
  {task : T → Task} {t t' : T} {i j : InviteId} {u u' : UserId} {email email' : Text}
  {w : BackendWorld T} {s : State T} {o : Op} {r : Except Exc o.Res}

def committedInvite (w : BackendWorld T) (i : InviteId) : Option Invite :=
  (w.state.db .invites).committed i

def status (w : BackendWorld T) (i : InviteId) : Option InviteStatus :=
  (committedInvite w i).map Invite.status

/-- Request `t` looked the invite up by its token. -/
def LooksUp (t : T) (i : InviteId) : Entry T Op Op.Res Exc → Prop
  | ⟨p, .sql (.select .invites _), .ok rows⟩ => p = t ∧ rows.head?.map Prod.fst = some i
  | _ => False

/-- Request `t` inserted the user. -/
def Inserts (t : T) (u : UserId) : Entry T Op Op.Res Exc → Prop
  | ⟨p, .sql (.insert .users u' _), .ok (some _)⟩ => p = t ∧ u' = u
  | _ => False

/-- Request `t` looked the invite up, inserted the user, and committed after that. -/
def CreatedFrom (i : InviteId) (t : T) (u : UserId) (w : BackendWorld T) : Prop :=
  ∃ newer older, w.trace = newer ++ ⟨t, .sql .commit, .ok ()⟩ :: older ∧
    (∃ e ∈ older, LooksUp t i e) ∧ ∃ e ∈ older, Inserts t u e

/-- The status that the request's update of an invite would lose. -/
def Task.loses : Task → Option InviteStatus
  | .register .. => some .revoked
  | .resend _ => none
  | .revoke _ => some .accepted

/-- The invite a revocation updates is not accepted, and the one a registration updates is not
revoked. -/
abbrev noLostUpdate (task : T → Task) :
    Machine.Condition T Op Op.Res Exc Choice Tick (State T) where
  op t o _ w := ∀ k ∈ o.updated .invites, ∀ x ∈ (task t).loses, status w k ≠ some x
  event _ _ := True

/-! ### Creation -/

omit [DecidableEq T] in
theorem LooksUp.proc {e : Entry T Op Op.Res Exc} (h : LooksUp t i e) : e.proc = t := by
  unfold LooksUp at h
  split at h
  · exact h.1
  · exact h.elim

omit [DecidableEq T] in
theorem Inserts.proc {e : Entry T Op Op.Res Exc} (h : Inserts t u e) : e.proc = t := by
  unfold Inserts at h
  split at h
  · exact h.1
  · exact h.elim

omit [DecidableEq T] in
theorem CreatedFrom.after (h : CreatedFrom i t u w) : CreatedFrom i t u (w.after t' o r s) := by
  rcases h with ⟨newer, older, htrace, h⟩
  exact ⟨⟨t', o, r⟩ :: newer, older, by rw [World.after_trace, htrace, List.cons_append], h⟩

omit [DecidableEq T] in
/-- A step creates a user only if it is the commit of the request that inserted it. -/
theorem createdFrom_after (h : CreatedFrom i t u (w.after t' o r s)) :
    CreatedFrom i t u w ∨ ((⟨t', o, r⟩ : Entry T Op Op.Res Exc) = ⟨t, .sql .commit, .ok ()⟩ ∧
      (∃ e ∈ w.trace, LooksUp t i e) ∧ ∃ e ∈ w.trace, Inserts t u e) := by
  rcases h with ⟨newer, older, htrace, h⟩
  rw [World.after_trace] at htrace
  cases newer with
  | nil =>
    rcases List.cons.inj htrace with ⟨he, rfl⟩
    exact .inr ⟨he, h⟩
  | cons e newer => exact .inl ⟨newer, older, (List.cons.inj htrace).2, h⟩

/-! ### The invariant -/

/-- The tables a registration decides on. -/
def watched : List Tbl := [.invites, .users, .usersEmailLower]

theorem invites_mem : Tbl.invites ∈ watched := by simp [watched]

theorem users_mem : Tbl.users ∈ watched := by simp [watched]

theorem emails_mem : Tbl.usersEmailLower ∈ watched := by simp [watched]

/-- The look-up of an invite. -/
def Noted : Op → Prop
  | .sql (.select .invites _) => True
  | _ => False

/-- A user created from the invite is there, with the invite's address in the unique index, and the
invite is accepted just because of him. -/
structure Inv (env : Primitives) (i : InviteId) (email : Text) (w : BackendWorld T) : Prop where
  row : ∃ invite, committedInvite w i = some invite ∧ invite.email = email
  created : ∀ t u, CreatedFrom i t u w → status w i = some .accepted ∧
    (w.state.db .usersEmailLower).committed (env.lower email) = some u ∧
    ∃ x, (w.state.db .users).committed u = some x ∧ x.email = email
  accepted : status w i = some .accepted → ∃ t u, CreatedFrom i t u w
  once : ∀ t u t' u', CreatedFrom i t u w → CreatedFrom i t' u' w → t = t'

/-- The status is what it was, unless it was pending. -/
def contract (hash : RawToken → TokenHash) (env : Primitives) (task : T → Task) (i : InviteId)
    (email : Text) : Contract (machine T hash) where
  inv := Inv env i email
  pre := noLostUpdate task
  guar _ _ _ w w' := status w' i = status w i ∨ status w i = some .pending

theorem aboutCommitted :
    AboutCommitted (contract hash env task i email) watched fun _ => False := by
  intro t o r w s _ _ hne hc hi
  have hcreated : ∀ p u, CreatedFrom i p u (w.after t o r s) → CreatedFrom i p u w := by
    intro p u h
    rcases createdFrom_after h with h | ⟨he, -⟩
    · exact h
    · exact absurd he (hne p)
  have hinvites : committedInvite (w.after t o r s) i = committedInvite w i :=
    congrFun (hc .invites invites_mem) i
  have hstatus : status (w.after t o r s) i = status w i := by
    unfold status
    rw [hinvites]
  have hemails := hc .usersEmailLower emails_mem
  have husers := hc .users users_mem
  refine ⟨⟨?_, fun p u h => ?_, fun h => ?_, fun p u p' u' h h' => ?_⟩, .inl hstatus⟩
  · rw [hinvites]
    exact hi.row
  · rw [hstatus, World.after_state, hemails, husers]
    exact hi.created p u (hcreated p u h)
  · rw [hstatus] at h
    rcases hi.accepted h with ⟨p, u, hp⟩
    exact ⟨p, u, hp.after⟩
  · exact hi.once p u p' u' (hcreated p u h) (hcreated p' u' h')

theorem allows : Allows (contract hash env task i email) watched Noted :=
  aboutCommitted.allows invites_mem fun _ => False.elim

/-! ### What a request knows -/

/-- The request has written new rows of the table only. -/
def NewOnly (τ : Tbl) (t : T) (w : BackendWorld T) : Prop :=
  ∀ k v x, (w.state.db τ).mine t k = some (some v, x) → x = none

/-- The request has inserted no user but `u`. -/
def InsertsOnly (t : T) (P : UserId → Prop) (w : BackendWorld T) : Prop :=
  ∀ e ∈ w.trace, e.proc = t → ∀ u, Inserts t u e → P u

/-- The request has looked up no invite but `j`. -/
def LooksUpOnly (t : T) (P : InviteId → Prop) (w : BackendWorld T) : Prop :=
  ∀ e ∈ w.trace, e.proc = t → ∀ j, LooksUp t j e → P j

variable {K : Contract (machine T hash)} {τ : Tbl}

theorem kept_newOnly (hτ : τ ∈ watched) : Kept K watched Noted t (NewOnly τ t) :=
  Kept.mine hτ (P := fun m => ∀ k v x, m k = some (some v, x) → x = none)

theorem kept_insertsOnly {P : UserId → Prop} : Kept K watched Noted t (InsertsOnly t P) := by
  refine Kept.own fun e he u h => ?_
  unfold Inserts at h
  split at h
  · exact absurd rfl (he.spares .users users_mem)
  · exact h.elim

theorem kept_looksUpOnly {P : InviteId → Prop} : Kept K watched Noted t (LooksUpOnly t P) := by
  refine Kept.own fun e he j h => ?_
  unfold LooksUp at h
  split at h
  · exact absurd trivial he.unnoted
  · exact h.elim

/-- Before the look-up. -/
def Idle (t : T) (w : BackendWorld T) : Prop :=
  (∀ τ ∈ watched, Unwritten τ t w) ∧ InsertsOnly t (fun _ => False) w ∧
    LooksUpOnly t (fun _ => False) w

/-- After the look-up. -/
def Reading (t : T) (j : InviteId) (w : BackendWorld T) : Prop :=
  (∀ τ ∈ watched, Unwritten τ t w) ∧ InsertsOnly t (fun _ => False) w ∧
    LooksUpOnly t (· = j) w ∧ ∃ e ∈ w.trace, LooksUp t j e

/-- After the update of the invite. -/
def Redeemed (t : T) (j : InviteId) (w : BackendWorld T) : Prop :=
  (∀ k v x, (w.state.db .invites).mine t k = some (some v, x) → k = j) ∧
    ∃ invite invite' : Invite, (w.state.db .invites).mine t j = some (some (some invite'), some invite) ∧
      invite.status ≠ .revoked ∧ invite'.status = .accepted ∧ invite'.email = invite.email

/-- Before the insertion of the user. -/
def Claiming (t : T) (j : InviteId) (w : BackendWorld T) : Prop :=
  (Unwritten .users t w ∧ Unwritten .usersEmailLower t w) ∧ Redeemed t j w ∧
    InsertsOnly t (fun _ => False) w ∧ LooksUpOnly t (· = j) w ∧ ∃ e ∈ w.trace, LooksUp t j e

/-- After the insertion of the user. -/
def Building (t : T) (j : InviteId) (email : Text) (u : UserId) (w : BackendWorld T) : Prop :=
  (NewOnly .users t w ∧ ∃ x : User, x.email = email ∧
      (w.state.db .users).mine t u = some (some (some x), none)) ∧
    (InsertsOnly t (· = u) w ∧ ∃ e ∈ w.trace, Inserts t u e) ∧
    LooksUpOnly t (· = j) w ∧ ∃ e ∈ w.trace, LooksUp t j e

/-- After the insertion of the address into the index. -/
def Indexed (t : T) (key : Text) (u : UserId) (w : BackendWorld T) : Prop :=
  NewOnly .usersEmailLower t w ∧
    (w.state.db .usersEmailLower).mine t key = some (some (some u), none)

/-- The request is about to create a user from the invite. -/
def Ready (env : Primitives) (i : InviteId) (email : Text) (t : T) (w : BackendWorld T) : Prop :=
  ∃ u, Building t i email u w ∧ Indexed t (env.lower email) u w ∧ Redeemed t i w

/-- An update that accepts nothing. -/
def Harmless (x v : Option Invite) : Prop :=
  ∃ invite invite', x = some invite ∧ v = some invite' ∧ invite'.email = invite.email ∧
    (invite'.status = invite.status ∨ invite.status = .pending ∧ invite'.status = .revoked)

/-- The request creates no user from the invite, or has done so already. -/
def Settled (i : InviteId) (t : T) (w : BackendWorld T) : Prop :=
  (∀ v x, (w.state.db .invites).mine t i = some (some v, x) → Harmless x v) ∧
    (NewOnly .users t w ∧ NewOnly .usersEmailLower t w) ∧
    ((LooksUpOnly t (· ≠ i) w ∨ InsertsOnly t (fun _ => False) w) ∨
      ∃ u, CreatedFrom i t u w ∧ InsertsOnly t (· = u) w)

theorem kept_created : Kept K watched Noted t (CreatedFrom i t' u) where
  stable _ _ _ _ ho h := by
    cases ho with
    | proc hne hpre hexec hguar => exact h.after
    | event hpre hexec => exact h
  quiet _ _ _ _ _ _ h := h.after

theorem kept_idle : Kept K watched Noted t (Idle t) :=
  kept_unwrittenAll.and (kept_insertsOnly.and kept_looksUpOnly)

theorem kept_reading : Kept K watched Noted t (Reading t j) :=
  kept_unwrittenAll.and (kept_insertsOnly.and (kept_looksUpOnly.and .seen))

theorem kept_building : Kept K watched Noted t (Building t j email u) :=
  ((kept_newOnly users_mem).and (.exists fun x => (Kept.const _).and
    (Kept.mine users_mem (P := fun m => m u = some (some (some x), none))))).and
    ((kept_insertsOnly.and .seen).and (kept_looksUpOnly.and .seen))

theorem kept_indexed {key : Text} : Kept K watched Noted t (Indexed t key u) :=
  (kept_newOnly emails_mem).and
    (Kept.mine emails_mem (P := fun m => m key = some (some (some u), none)))

theorem kept_redeemed : Kept K watched Noted t (Redeemed t j) :=
  Kept.mine invites_mem (P := fun m =>
    (∀ k v x, m k = some (some v, x) → k = j) ∧ ∃ invite invite' : Invite,
      m j = some (some (some invite'), some invite) ∧ invite.status ≠ .revoked ∧
        invite'.status = .accepted ∧ invite'.email = invite.email)

theorem kept_claiming : Kept K watched Noted t (Claiming t j) :=
  ((kept_unwritten users_mem).and (kept_unwritten emails_mem)).and
    (kept_redeemed.and (kept_insertsOnly.and (kept_looksUpOnly.and .seen)))

theorem kept_settled : Kept K watched Noted t (Settled i t) :=
  (Kept.mine invites_mem (P := fun m => ∀ v x, m i = some (some v, x) → Harmless x v)).and
    (((kept_newOnly users_mem).and (kept_newOnly emails_mem)).and
      ((kept_looksUpOnly.or kept_insertsOnly).or
        (.exists fun _ => kept_created.and kept_insertsOnly)))

theorem kept_ready : Kept K watched Noted t (Ready env i email t) :=
  .exists fun _ => kept_building.and (kept_indexed.and kept_redeemed)

theorem settled_of_idle (h : Idle t w) : Settled i t w :=
  ⟨fun v x hv => absurd hv (h.1 .invites invites_mem i v x),
    ⟨fun k v x hv => absurd hv (h.1 .users users_mem k v x),
      fun k v x hv => absurd hv (h.1 .usersEmailLower emails_mem k v x)⟩, .inl (.inr h.2.1)⟩

omit [DecidableEq T] in
theorem InsertsOnly.after {P : UserId → Prop} (h : InsertsOnly t P w)
    (ho : ∀ u, Inserts t u (⟨t, o, r⟩ : Entry T Op Op.Res Exc) → P u) :
    InsertsOnly t P (w.after t o r s) := by
  intro e he hproc u hu
  rcases List.mem_cons.mp he with rfl | he
  · exact ho u hu
  · exact h e he hproc u hu

omit [DecidableEq T] in
theorem LooksUpOnly.after {P : InviteId → Prop} (h : LooksUpOnly t P w)
    (ho : ∀ j, LooksUp t j (⟨t, o, r⟩ : Entry T Op Op.Res Exc) → P j) :
    LooksUpOnly t P (w.after t o r s) := by
  intro e he hproc j hj
  rcases List.mem_cons.mp he with rfl | he
  · exact ho j hj
  · exact h e he hproc j hj

theorem view_of_newOnly (h : NewOnly τ t w) {k : τ.Key} {x : τ.Row}
    (hx : (w.state.db τ).committed k = some x) : (w.state.db τ).view t k = some x := by
  rw [Table.view_of_unwritten, hx]
  intro v y hy
  have hnone := h k v y hy
  rw [hnone] at hy
  exact nomatch hx.symm.trans (Table.mine_eq_some.mp hy).2

/-! ### Commits -/

/-- A request that has let go of its rows is settled if it was, or has created the user. -/
theorem settled_of_released (h : (LooksUpOnly t (· ≠ i) w ∨ InsertsOnly t (fun _ => False) w) ∨
      ∃ u, CreatedFrom i t u w ∧ InsertsOnly t (· = u) w)
    (hmine : ∀ τ k, (w.state.db τ).mine t k = none) : Settled i t w := by
  refine ⟨fun v x hv => ?_, ⟨fun k v x hv => ?_, fun k v x hv => ?_⟩, h⟩
  all_goals
    rw [hmine] at hv
    cases hv

theorem inv_commit_settled (hi : Inv env i email w) (h : Settled i t w) :
    Inv env i email (afterCommit t w) ∧
      (status (afterCommit t w) i = status w i ∨ status w i = some .pending) ∧
      Settled i t (afterCommit t w) := by
  rcases h with ⟨hinvite, ⟨husers, hemails⟩, hdone⟩
  rcases hi.row with ⟨invite, hrow, hemail⟩
  -- the invite is left as it is, or its update accepts nothing
  have hview : ∃ invite', committedInvite (afterCommit t w) i = some invite' ∧
      invite'.email = email ∧ (invite'.status = invite.status ∨
        invite.status = .pending ∧ invite'.status = .revoked) := by
    rcases (w.state.db .invites).view_cases t i with hv | ⟨v, hhold, hv⟩
    · exact ⟨invite, hv.trans hrow, hemail, .inl rfl⟩
    · rcases hinvite v _ (Table.mine_eq_some.mpr ⟨hhold, hrow⟩) with ⟨x, x', hx, rfl, he, hs⟩
      cases hx
      exact ⟨x', hv, he.trans hemail, hs⟩
  rcases hview with ⟨invite', hrow', hemail', hstatus⟩
  have hs : status w i = some invite.status := by simp [status, hrow]
  have hs' : status (afterCommit t w) i = some invite'.status := by simp [status, hrow']
  have hcreated : ∀ p u, CreatedFrom i p u (afterCommit t w) → CreatedFrom i p u w := by
    intro p u hp
    rcases createdFrom_after hp with hp | ⟨he, ⟨e₁, he₁, hlook⟩, e₂, he₂, hins⟩
    · exact hp
    · cases he
      rcases hdone with (hno | hno) | ⟨u', hcreated, hno⟩
      · exact absurd rfl (hno e₁ he₁ hlook.proc i hlook)
      · exact (hno e₂ he₂ hins.proc u hins).elim
      · rw [hno e₂ he₂ hins.proc u hins]
        exact hcreated
  refine ⟨⟨⟨invite', hrow', hemail'⟩, fun p u hp => ?_, fun h => ?_, fun p u p' u' hp hp' => ?_⟩,
    ?_, ?_⟩
  · rcases hi.created p u (hcreated p u hp) with ⟨haccepted, hindex, x, hx, hxe⟩
    refine ⟨?_, view_of_newOnly hemails hindex, x, view_of_newOnly husers hx, hxe⟩
    rw [hs, Option.some.injEq] at haccepted
    rw [hs']
    rcases hstatus with hstatus | ⟨hpending, -⟩
    · rw [hstatus, haccepted]
    · exact nomatch haccepted.symm.trans hpending
  · rw [hs', Option.some.injEq] at h
    rcases hstatus with hstatus | ⟨-, hrevoked⟩
    · rcases hi.accepted (by rw [hs, ← hstatus, h]) with ⟨p, u, hp⟩
      exact ⟨p, u, hp.after⟩
    · exact nomatch h.symm.trans hrevoked
  · exact hi.once p u p' u' (hcreated p u hp) (hcreated p' u' hp')
  · rcases hstatus with hstatus | ⟨hpending, -⟩
    · exact .inl (by rw [hs', hs, hstatus])
    · exact .inr (by rw [hs, hpending])
  · refine settled_of_released ?_ fun _ _ => Table.mine_commit
    exact hdone.imp (Or.imp (fun h => h.after fun _ => False.elim) fun h => h.after fun _ => False.elim)
      fun ⟨u, hcreated, h⟩ => ⟨u, hcreated.after, h.after fun _ => False.elim⟩

theorem inv_commit_ready (hi : Inv env i email w) (h : Ready env i email t w) :
    Inv env i email (afterCommit t w) ∧
      (status (afterCommit t w) i = status w i ∨ status w i = some .pending) ∧
      Settled i t (afterCommit t w) := by
  rcases h with ⟨u, ⟨⟨-, x, hxe, hx⟩, ⟨hins, hinserted⟩, -, hlooked⟩, ⟨-, hindex⟩, -, invite, invite',
    hmine, hrevoked, haccepted, hemail⟩
  have hrow : committedInvite w i = some invite := (Table.mine_eq_some.mp hmine).2
  -- had a user been created from the invite, the address would be in the index
  have hpending : status w i = some .pending := by
    have hs : status w i = some invite.status := by simp [status, hrow]
    cases hst : invite.status with
    | pending => rw [hs, hst]
    | revoked => exact absurd hst hrevoked
    | accepted =>
      rcases hi.accepted (by rw [hs, hst]) with ⟨p, u', hp⟩
      have hsome := (hi.created p u' hp).2.1
      exact nomatch (Table.mine_eq_some.mp hindex).2.symm.trans hsome
  have hnone : ∀ p u, ¬ CreatedFrom i p u w := fun p u hp =>
    nomatch hpending.symm.trans (hi.created p u hp).1
  have hcreated : ∀ p u', CreatedFrom i p u' (afterCommit t w) → p = t ∧ u' = u := by
    intro p u' hp
    rcases createdFrom_after hp with hp | ⟨he, -, e, he', hins'⟩
    · exact absurd hp (hnone p u')
    · cases he
      exact ⟨rfl, hins e he' hins'.proc u' hins'⟩
  have hnew : CreatedFrom i t u (afterCommit t w) := ⟨[], w.trace, rfl, hlooked, hinserted⟩
  have hrow' : committedInvite (afterCommit t w) i = some invite' := Table.view_of_mine hmine
  have hs' : status (afterCommit t w) i = some .accepted := by simp [status, hrow', haccepted]
  refine ⟨⟨⟨invite', hrow', ?_⟩, fun p u' hp => ?_, fun _ => ⟨t, u, hnew⟩,
    fun p u₁ p' u₂ hp hp' => ?_⟩, .inr hpending, ?_⟩
  · rcases hi.row with ⟨y, hy, hye⟩
    cases hrow.symm.trans hy
    exact hemail.trans hye
  · rcases hcreated p u' hp with ⟨rfl, rfl⟩
    exact ⟨hs', Table.view_of_mine hindex, x, Table.view_of_mine hx, hxe⟩
  · exact (hcreated p u₁ hp).1.trans (hcreated p' u₂ hp').1.symm
  · refine settled_of_released (.inr ⟨u, hnew, ?_⟩) fun _ _ => Table.mine_commit
    exact hins.after fun _ => False.elim

variable {i₀ : InviteId}

theorem safe_commit : (contract hash env task i email).Safe t Py.commit
    (fun w => Settled i t w ∨ Ready env i email t w) (fun _ => Settled i t) fun _ _ => True := by
  refine Contract.Safe.perform (fun _ => kept_settled.stable) (fun _ => .const True)
    fun w ch r s hi hw _ h => ?_
  rcases exec_commitAll h with ⟨rfl, e, rfl⟩ | ⟨rfl, rfl⟩
  · rcases aboutCommitted.failed id hi with ⟨hi', hg⟩
    exact ⟨hi', hg, trivial⟩
  · rcases hw with hw | hw
    · exact inv_commit_settled hi hw
    · exact inv_commit_ready hi hw

theorem safe_keep : (contract hash env task i email).Safe t Py.rollback (Settled i t)
    (fun _ => Settled i t) fun _ _ => True := by
  refine safe_rollback aboutCommitted id kept_settled.stable fun w s hw _ hmine =>
    settled_of_released ?_ hmine
  exact hw.2.2.imp (Or.imp (fun h => h.after fun _ => False.elim)
    fun h => h.after fun _ => False.elim)
    fun ⟨u, hcreated, h⟩ => ⟨u, hcreated.after, h.after fun _ => False.elim⟩

/-! ### The requests -/

/-- The look-up of the invite: the row found is the committed one. -/
theorem safe_lookUp {rawToken : RawToken} :
    (contract hash env task i email).Safe t (findValidInviteByToken env rawToken) (Idle t)
      (fun found w => ∀ x ∈ found, Reading t x.1 w ∧ (x.1 = i → x.2.email = email))
      fun _ _ => True := by
  refine Contract.Safe.bind (kept_idle.perform allows (quiet_other nofun nofun id)) fun ts => ?_
  refine Contract.Safe.await (fun rows w => ∀ x ∈ rows.head?, Reading t x.1 w ∧
    (x.1 = i → x.2.email = email)) (fun rows => ?_) (fun _ => .const True)
    (fun w ch r s hi hw _ h => ?_) fun rows w _ hw x hx => ?_
  · exact .forall fun x => .imp fun _ => (kept_reading.and (Kept.const _)).stable
  · rcases aboutCommitted.uncommitted (q := .select ..) nofun id h hi with ⟨hi', hg⟩
    rcases exec_selectTable h with ⟨rfl, hperm⟩
    refine ⟨hi', hg, ?_⟩
    cases r with
    | error e => trivial
    | ok rows =>
      rcases hw with ⟨hunwritten, hins, hlook⟩
      intro x hx
      refine ⟨⟨hunwritten, hins.after fun _ => False.elim, ?_, ?_⟩, ?_⟩
      · intro e he hproc k hk
        rcases List.mem_cons.mp he with rfl | he
        · have := hk.2
          rw [Option.mem_def.mp hx] at this
          exact (Option.some.inj this).symm
        · exact (hlook e he hproc k hk).elim
      · refine ⟨_, List.mem_cons_self, rfl, ?_⟩
        rw [Option.mem_def.mp hx]
        rfl
      · intro hxi
        have hmem := (hperm rows rfl).mem_iff.mp (List.mem_of_mem_head? hx)
        have hview := (Table.mem_scan.mp hmem).1
        rw [view_of_unwritten (hunwritten .invites invites_mem), hxi] at hview
        rcases hi.row with ⟨y, hy, hye⟩
        cases hview.symm.trans hy
        exact hye
  · rcases Option.mem_filter_iff.mp hx with ⟨hx, -⟩
    exact hw x hx

theorem quiet_checkIdentity {username email' : Text} :
    (checkIdentityNotTaken env username email').Only (Quiet watched Noted) := by
  have husers : ∀ q, Quiet watched Noted (.sql (.select .users q)) := fun q => quiet_select id
  refine Prog.Only.bind ((Prog.only_perform (husers _)).bind fun _ => trivial) fun a => ?_
  cases a with
  | true => trivial
  | false =>
    refine Prog.Only.bind ((Prog.only_perform (husers _)).bind fun _ => trivial) fun b => ?_
    cases b <;> trivial

/-- A write elsewhere. -/
theorem Redeemed.set (h : Redeemed t j w) {τ' : Tbl} {tb : Table T τ'.Key τ'.Row}
    (hτ : Tbl.invites ≠ τ') : Redeemed t j (w.after t o r (w.state.set τ' tb)) := by
  unfold Redeemed
  rw [World.after_state, State.set_db_of_ne hτ]
  exact h

theorem Building.set (h : Building t j email u w) {τ' : Tbl} {tb : Table T τ'.Key τ'.Row}
    (hτ : Tbl.users ≠ τ') (hins : ∀ k, ¬ Inserts t k (⟨t, o, r⟩ : Entry T Op Op.Res Exc))
    (hlook : ∀ k, ¬ LooksUp t k (⟨t, o, r⟩ : Entry T Op Op.Res Exc)) :
    Building t j email u (w.after t o r (w.state.set τ' tb)) := by
  rcases h with ⟨hrow, ⟨hi, e, he, hie⟩, hl, e', he', hle⟩
  refine ⟨?_, ⟨hi.after fun k hk => absurd hk (hins k), e, List.mem_cons_of_mem _ he, hie⟩,
    hl.after fun k hk => absurd hk (hlook k), e', List.mem_cons_of_mem _ he', hle⟩
  unfold NewOnly
  rw [World.after_state, State.set_db_of_ne hτ]
  exact hrow

/-- The redemption of the invite: it is not revoked. -/
theorem safe_redeem {ts : Time} (ht : ∃ a b c d e, task t = .register a b c d e) :
    (contract hash env task i email').Safe t (Py.flushUpdate .invites j (redeemInvite ts))
      (Reading t j) (fun _ => Claiming t j) fun _ _ => True := by
  refine Contract.Safe.await (fun matched w => matched = true → Claiming t j w)
    (fun _ => .imp fun _ => kept_claiming.stable) (fun _ => .const True)
    (fun w ch r s hi hw hp h => ?_) fun matched => ?_
  · rcases aboutCommitted.uncommitted (q := .update ..) nofun id h hi with ⟨hi', hg⟩
    refine ⟨hi', hg, ?_⟩
    rcases exec_updateTable h with ⟨rfl, hr⟩ | ⟨x, -, hx, -, rfl, rfl⟩
    · cases r with
      | error e => trivial
      | ok matched => exact fun hm => absurd (by rw [hm]) hr
    intro _
    rcases hw with ⟨hunwritten, hins, hlook, e, he, hlooked⟩
    have hinvites := hunwritten .invites invites_mem
    rw [view_of_unwritten hinvites] at hx
    have hrevoked : x.status ≠ .revoked := by
      rcases ht with ⟨a, b, c, d, e, ht⟩
      have hp' : status w j ≠ some .revoked := hp j rfl .revoked (by rw [ht]; rfl)
      intro hx'
      exact hp' (by simp [status, committedInvite, hx, hx'])
    refine ⟨⟨(hunwritten .users users_mem).set (by simp),
      (hunwritten .usersEmailLower emails_mem).set (by simp)⟩,
      ⟨fun k v y hv => ?_, x, redeemInvite ts x, ?_, hrevoked, rfl, rfl⟩,
      hins.after fun _ => False.elim, hlook.after fun _ => False.elim,
      e, List.mem_cons_of_mem _ he, hlooked⟩
    · rw [World.after_state, State.set_db] at hv
      exact (hinvites.mine_write hv).1
    · rw [World.after_state, State.set_db, Table.mine_write_self, hx]
  · cases matched with
    | true => exact fun w _ hw => hw rfl
    | false => exact fun _ _ _ => trivial

/-- The insertion of the user. -/
theorem safe_insertUser {user : Time → User} (huser : ∀ now, (user now).email = email) :
    (contract hash env task i email').Safe t (Py.flushInsert .users u user) (Claiming t j)
      (fun _ w => (Building t j email u w ∧ Redeemed t j w) ∧ Unwritten .usersEmailLower t w)
      fun _ _ => True := by
  refine Contract.Safe.await (fun row w => row.isSome → (Building t j email u w ∧
    Redeemed t j w) ∧ Unwritten .usersEmailLower t w) (fun _ => ?_) (fun _ => .const True)
    (fun w ch r s hi hw _ h => ?_) fun row => ?_
  · exact .imp fun _ => ((kept_building.and kept_redeemed).and (kept_unwritten emails_mem)).stable
  · rcases aboutCommitted.uncommitted (q := .insert ..) nofun id h hi with ⟨hi', hg⟩
    refine ⟨hi', hg, ?_⟩
    rcases hw with ⟨⟨husers, hemails⟩, hredeemed, hins, hlook, hlooked⟩
    rcases exec_insertTable h with ⟨rfl, hr⟩ | ⟨now, -, hnone, rfl, rfl⟩
    · cases r with
      | error e => trivial
      | ok row =>
        cases row with
        | none => exact nofun
        | some x => exact absurd rfl (hr x)
    intro _
    rw [view_of_unwritten husers] at hnone
    refine ⟨⟨⟨⟨fun k v x hv => ?_, user now, huser now, ?_⟩, ⟨?_, ?_⟩, ?_, ?_⟩,
      hredeemed.set (by simp)⟩, hemails.set (by simp)⟩
    · by_cases hk : k = u
      · subst hk
        rw [World.after_state, State.set_db, Table.mine_write_self] at hv
        cases hv
        exact hnone
      · rw [World.after_state, State.set_db, Table.mine_write_of_ne hk] at hv
        exact absurd hv (husers k v x)
    · rw [World.after_state, State.set_db, Table.mine_write_self, hnone]
    · intro e he hproc k hk
      rcases List.mem_cons.mp he with rfl | he
      · exact hk.2.symm
      · exact (hins e he hproc k hk).elim
    · exact ⟨_, List.mem_cons_self, rfl, rfl⟩
    · exact hlook.after fun _ => False.elim
    · rcases hlooked with ⟨e, he, hk⟩
      exact ⟨e, List.mem_cons_of_mem _ he, hk⟩
  · cases row with
    | none => exact fun _ _ _ => trivial
    | some x => exact fun w _ hw => hw rfl

/-- The insertion of the address into the index: it was not there. -/
theorem safe_insertEmail {key : Text} :
    (contract hash env task i email').Safe t (Py.flushInsert .usersEmailLower key fun _ => u)
      (fun w => (Building t j email u w ∧ Redeemed t j w) ∧ Unwritten .usersEmailLower t w)
      (fun _ w => Building t j email u w ∧ Indexed t key u w ∧ Redeemed t j w)
      fun _ _ => True := by
  refine Contract.Safe.await (fun row w => row.isSome → Building t j email u w ∧
    Indexed t key u w ∧ Redeemed t j w) (fun _ => ?_) (fun _ => .const True)
    (fun w ch r s hi hw _ h => ?_) fun row => ?_
  · exact .imp fun _ => (kept_building.and (kept_indexed.and kept_redeemed)).stable
  · rcases aboutCommitted.uncommitted (q := .insert ..) nofun id h hi with ⟨hi', hg⟩
    refine ⟨hi', hg, ?_⟩
    rcases exec_insertTable h with ⟨rfl, hr⟩ | ⟨now, -, hnone, rfl, rfl⟩
    · cases r with
      | error e => trivial
      | ok row =>
        cases row with
        | none => exact nofun
        | some x => exact absurd rfl (hr x)
    intro _
    rw [view_of_unwritten hw.2] at hnone
    refine ⟨hw.1.1.set (by simp) (fun _ => id) fun _ => id, ⟨fun k v x hv => ?_, ?_⟩,
      hw.1.2.set (by simp)⟩
    · by_cases hk : k = key
      · subst hk
        rw [World.after_state, State.set_db, Table.mine_write_self] at hv
        cases hv
        exact hnone
      · rw [World.after_state, State.set_db, Table.mine_write_of_ne hk] at hv
        exact absurd hv (hw.2 k v x)
    · rw [World.after_state, State.set_db, Table.mine_write_self, hnone]
  · cases row with
    | none => exact fun _ _ _ => trivial
    | some x => exact fun w _ hw => hw rfl

/-- The flush of a registration. -/
theorem safe_flushRegistration {user : Time → User} {username : Text} {ts : Time}
    (huser : ∀ now, (user now).email = email) (ht : ∃ a b c d e, task t = .register a b c d e) :
    (contract hash env task i email').Safe t
      (flushRegistration env u user username email j ts) (Reading t j)
      (fun _ w => Building t j email u w ∧ Indexed t (env.lower email) u w ∧ Redeemed t j w)
      fun _ _ => True := by
  refine Contract.Safe.bind (safe_redeem ht) fun _ => ?_
  refine Contract.Safe.bind (safe_insertUser huser) fun _ => ?_
  refine Contract.Safe.bind ((((kept_building.and kept_redeemed).and
    (kept_unwritten emails_mem)).only allows ?_)) fun _ => ?_
  · refine (Prog.only_perform (quiet_insert (by simp [watched]) id)).bind fun row => ?_
    cases row <;> trivial
  · exact Contract.Safe.bind safe_insertEmail fun _ _ _ hw => hw

/-- A registration that has written its user creates it from the invite it looked up. -/
theorem settled_or_ready (hemail : j = i → email' = email)
    (h : Building t j email' u w ∧ Indexed t (env.lower email') u w ∧ Redeemed t j w) :
    Settled i t w ∨ Ready env i email t w := by
  by_cases hj : j = i
  · subst hj
    rw [hemail rfl] at h
    exact .inr ⟨u, h⟩
  · rcases h with ⟨⟨⟨husers, -⟩, -, hlook, -⟩, ⟨hemails, -⟩, hredeemed, -⟩
    refine .inl ⟨fun v x hv => absurd (hredeemed i v x hv) fun h => hj h.symm,
      ⟨husers, hemails⟩, .inl (.inl fun e he hproc k hk => ?_)⟩
    rw [hlook e he hproc k hk]
    exact hj

theorem safe_request {α : Type} {body : Py α} {A : BackendWorld T → Prop}
    (h : (contract hash env task i email).Safe t body A (fun _ => Settled i t) fun _ _ => True) :
    (contract hash env task i email).Safe t (Py.getDbSession body) A (fun _ _ => True)
      fun _ _ => True :=
  Chatspace.safe_request (B := Settled i t) (C := Settled i t)
    (safe_commit.weaken fun _ _ hw => .inl hw) safe_keep (safe_abort aboutCommitted id) h

theorem safe_register {inviteToken : RawToken} {username firstName lastName password : Text}
    (ht : ∃ a b c d e, task t = .register a b c d e) :
    (contract hash env task i email).Safe t
      (register env inviteToken username firstName lastName password) (Idle t) (fun _ _ => True)
      fun _ _ => True := by
  refine safe_request (Contract.Safe.bind safe_lookUp fun found => ?_)
  match found with
  | none => exact fun _ _ _ => trivial
  | some (j, invite) =>
    refine Contract.Safe.weaken (A := fun w => Reading t j w ∧ (j = i → invite.email = email)) ?_
      fun w _ hw => hw (j, invite) rfl
    refine Contract.Safe.const fun hemail => ?_
    refine Contract.Safe.bind (Q := fun _ => Reading t j) ?_ fun _ => ?_
    · show Contract.Safe _ _ (if _ then _ else _) _ _ _
      split
      · exact fun _ _ hw => hw
      · exact fun _ _ _ => trivial
    refine Contract.Safe.bind (Q := fun _ => Reading t j) ?_ fun normalized => ?_
    · show Contract.Safe _ _ (if _ then _ else _) _ _ _
      split
      · exact fun _ _ hw => hw
      · exact fun _ _ _ => trivial
    refine Contract.Safe.bind (Contract.Safe.handle (kept_reading.only allows quiet_checkIdentity)
      fun e => fun _ _ _ => trivial) fun _ => ?_
    refine Contract.Safe.bind (kept_reading.perform allows (quiet_other nofun nofun id)) fun userId => ?_
    refine Contract.Safe.bind (kept_reading.perform allows (quiet_other nofun nofun id)) fun ts => ?_
    refine Contract.Safe.bind (Contract.Safe.handle (safe_flushRegistration (fun _ => rfl) ht)
      fun e => ?_) fun _ => ?_
    · split
      · exact Contract.Safe.bind (safe_abort aboutCommitted id) fun _ => fun _ _ _ => trivial
      · exact fun _ _ _ => trivial
    · refine Contract.Safe.bind (safe_commit.weaken fun w _ hw => ?_) fun _ _ _ hw => hw
      exact settled_or_ready hemail hw

/-- An update that accepts nothing, of a request that inserts nobody. -/
theorem safe_update {k : InviteId} {f : Invite → Invite}
    (hf : ∀ w ch x, (noLostUpdate task).op t (.sql (.update .invites k (fun _ => true) f)) ch w →
      committedInvite w k = some x → Harmless (some x) (some (f x))) :
    (contract hash env task i email).Safe t (Py.flushUpdate .invites k f) (Idle t)
      (fun _ => Settled i t) fun _ _ => True := by
  refine Contract.Safe.await (fun _ => Settled i t) (fun _ => kept_settled.stable)
    (fun _ => .const True) (fun w ch r s hi hw hp h => ?_) fun matched => ?_
  · rcases aboutCommitted.uncommitted (q := .update ..) nofun id h hi with ⟨hi', hg⟩
    refine ⟨hi', hg, ?_⟩
    rcases hw with ⟨hunwritten, hins, hlook⟩
    rcases exec_updateTable h with ⟨rfl, hr⟩ | ⟨x, -, hx, -, rfl, rfl⟩
    · have hidle : Idle t (w.after t (.sql (.update .invites k (fun _ => true) f)) r w.state) :=
        ⟨hunwritten, hins.after fun _ => False.elim, hlook.after fun _ => False.elim⟩
      cases r with
      | error e => trivial
      | ok matched => exact settled_of_idle hidle
    have hinvites := hunwritten .invites invites_mem
    rw [view_of_unwritten hinvites] at hx
    refine ⟨fun v y hv => ?_, ⟨fun k v y hv => ?_, fun k v y hv => ?_⟩,
      .inl (.inr (hins.after fun _ => False.elim))⟩
    · rw [World.after_state, State.set_db] at hv
      rcases hinvites.mine_write hv with ⟨rfl, rfl, rfl⟩
      rw [hx]
      exact hf w ch x hp hx
    · rw [World.after_state, State.set_db_of_ne (by simp)] at hv
      exact absurd hv (hunwritten .users users_mem k v y)
    · rw [World.after_state, State.set_db_of_ne (by simp)] at hv
      exact absurd hv (hunwritten .usersEmailLower emails_mem k v y)
  · cases matched with
    | true => exact fun _ _ hw => hw
    | false => exact fun _ _ _ => trivial

theorem safe_getInvite {k : InviteId} :
    (contract hash env task i email).Safe t (getInviteOr404 k) (Idle t) (fun _ => Idle t)
      fun _ _ => True := by
  refine Contract.Safe.bind (kept_idle.perform allows (quiet_get id)) fun found => ?_
  cases found with
  | none => exact fun _ _ _ => trivial
  | some invite => exact fun _ _ hw => hw

theorem safe_resend {k : InviteId} :
    (contract hash env task i email).Safe t (resendInvite env k) (Idle t) (fun _ _ => True)
      fun _ _ => True := by
  refine safe_request (Contract.Safe.bind safe_getInvite fun invite => ?_)
  show Contract.Safe _ _ (if _ then _ else _) _ _ _
  split
  · exact fun _ _ _ => trivial
  refine Contract.Safe.bind (Q := fun _ => Settled i t) ?_ fun _ => ?_
  · refine Contract.Safe.bind (kept_idle.perform allows (quiet_other nofun nofun id)) fun ts => ?_
    refine Contract.Safe.bind (kept_idle.perform allows (quiet_other nofun nofun id)) fun rawToken => ?_
    refine Contract.Safe.bind (safe_update fun w ch x _ hx => ?_) fun _ _ _ hw => hw
    exact ⟨x, _, rfl, rfl, rfl, .inl rfl⟩
  · refine Contract.Safe.bind (Contract.Safe.handle (kept_settled.perform allows (quiet_other nofun nofun id))
      fun e => ?_) fun _ => safe_commit.weaken fun _ _ hw => .inl hw
    split
    · exact Contract.Safe.bind (safe_abort aboutCommitted id) fun _ => fun _ _ _ => trivial
    · exact fun _ _ _ => trivial

theorem safe_revoke {k : InviteId} (ht : task t = .revoke k) :
    (contract hash env task i email).Safe t (revokeInviteRoute k) (Idle t) (fun _ _ => True)
      fun _ _ => True := by
  refine safe_request (Contract.Safe.bind safe_getInvite fun invite => ?_)
  show Contract.Safe _ _ (if _ then _ else (if _ then _ else _)) _ _ _
  split
  · exact fun _ _ _ => trivial
  split
  · exact safe_commit.weaken fun _ _ hw => .inl (settled_of_idle hw)
  refine Contract.Safe.bind (safe_update fun w ch x hp hx => ?_) fun _ =>
    safe_commit.weaken fun _ _ hw => .inl hw
  -- the row was found not accepted: it is pending, or it is revoked already
  have hp' : status w k ≠ some .accepted := hp k rfl .accepted (by rw [ht]; rfl)
  refine ⟨x, _, rfl, rfl, rfl, ?_⟩
  cases hs : x.status with
  | pending => exact .inr ⟨rfl, rfl⟩
  | revoked => exact .inl rfl
  | accepted => exact absurd (by simp [status, hx, hs]) hp'

/-- Every request keeps to the contract. -/
theorem safe_task :
    (contract hash env task i email).Safe t ((task t).program env) (Idle t) (fun _ _ => True)
      fun _ _ => True := by
  cases ht : task t with
  | register a b c d e =>
    exact Contract.Safe.bind (safe_register ⟨a, b, c, d, e, ht⟩) fun _ _ _ _ => trivial
  | resend k => exact safe_resend
  | revoke k => exact safe_revoke ht

/-! ### The result -/

abbrev InvitePool (T : Type) : Type := Pool T Op Op.Res Exc Unit (State T)

/-- Before the first request: the invite is pending, and no transaction is open. -/
structure Start (env : Primitives) (task : T → Task) (i : InviteId) (p : InvitePool T) : Prop where
  prog : ∀ t, p.prog t = (task t).program env
  trace : p.world.trace = []
  hold : ∀ τ k, (p.world.state.db τ).hold k = none
  pending : status p.world i = some .pending

theorem Start.sound {p : InvitePool T} (h : Start env task i p) (hash : RawToken → TokenHash) :
    ∃ email, (contract hash env task i email).Sound (fun _ _ _ => True) (fun _ _ _ => True) p := by
  rcases Option.map_eq_some_iff.mp h.pending with ⟨invite, hrow, -⟩
  have hnone : ∀ t u, ¬ CreatedFrom i t u p.world := by
    rintro t u ⟨newer, older, htrace, -⟩
    rw [h.trace] at htrace
    simp at htrace
  refine ⟨invite.email, ⟨⟨invite, hrow, rfl⟩, fun t u hc => absurd hc (hnone t u), fun hs => ?_,
    fun t u _ _ hc => absurd hc (hnone t u)⟩, fun t => ⟨Idle t, kept_idle.stable, ?_, ?_⟩⟩
  · exact nomatch h.pending.symm.trans hs
  · refine ⟨fun τ _ k v x hv => ?_, fun e he => ?_, fun e he => ?_⟩
    · have hhold := (Table.mine_eq_some.mp hv).1
      rw [h.hold] at hhold
      cases hhold
    · rw [h.trace] at he
      cases he
    · rw [h.trace] at he
      cases he
  · rw [h.prog]
    exact safe_task

theorem eventsOk : (contract (T := T) hash env task i email).EventsOk := by
  intro e w s hi _ h
  cases h
  exact ⟨hi.row, hi.created, hi.accepted, hi.once⟩

/-- **An invite settles.** In every interleaving of registrations, resends and revocations in which
a revocation updates no row that is accepted, and a registration none that is revoked: the status
never changes once it is not pending; at most one user is created from the invite; and one has been
if and only if the invite is accepted. -/
theorem invite_settles {p₀ p q : InvitePool T} {ls ls' : List (Label T Choice Tick)}
    (h₀ : Start env task i p₀)
    (hC : (machine T hash).Meets (noLostUpdate task) p₀ (ls ++ ls'))
    (hp : (machine T hash).run p₀ ls = some p) (hq : (machine T hash).run p ls' = some q) :
    (status q.world i = status p.world i ∨ status p.world i = some .pending) ∧
      (status q.world i).isSome = true ∧
      (∀ t u t' u', CreatedFrom i t u q.world → CreatedFrom i t' u' q.world → t = t' ∧ u = u') ∧
      ((∃ t u, CreatedFrom i t u q.world) ↔ status q.world i = some .accepted) := by
  rcases h₀.sound hash with ⟨email, hsound⟩
  rcases Machine.meets_append hC with ⟨hC₁, hC₂⟩
  have hmid := hsound.run eventsOk hC₁ hp
  have hend := (hmid.run eventsOk (hC₂ p hp) hq).inv
  refine ⟨?_, ?_, fun t u t' u' h h' => ⟨hend.once t u t' u' h h', ?_⟩, fun ⟨t, u, h⟩ =>
    (hend.created t u h).1, hend.accepted⟩
  · refine hmid.run_rel (S := fun w w' => status w' i = status w i ∨ status w i = some .pending)
      (fun _ => .inl rfl) (fun w₁ w₂ w₃ h₁ h₂ => ?_) (fun _ _ _ _ _ _ _ hg => hg)
      (fun e w s h => ?_) eventsOk (hC₂ p hp) hq
    · rcases h₁ with h₁ | h₁
      · rw [← h₁]
        exact h₂
      · exact .inr h₁
    · cases h
      exact .inl rfl
  · rcases hend.row with ⟨invite, hrow, -⟩
    simp [status, hrow]
  · have h₁ := (hend.created t u h).2.1
    have h₂ := (hend.created t' u' h').2.1
    exact Option.some.inj (h₁.symm.trans h₂)

/-! ### A registration and a revocation -/

def registerAndRevoke : Bool → Task
  | false => .register 7 ['b'] ['f'] ['l'] ['s', 'e', 'c', 'r', 't', '1']
  | true => .revoke 1

/-- Invite 1 with the token 7 is redeemed while an administrator revokes it. -/
def pendingInvite : InvitePool Bool where
  world := ⟨State.ofRows fun
    | .invites => [(1, ⟨['e'], 7, .pending, 100, none, 0⟩)]
    | _ => [], []⟩
  prog t := (registerAndRevoke t).program plainEnv

theorem pendingInvite_start : Start plainEnv registerAndRevoke 1 pendingInvite where
  prog _ := rfl
  trace := rfl
  hold _ _ := rfl
  pending := rfl

/-- `k` awaits of request `t`. -/
def awaits (t : Bool) (k : ℕ) : List (Label Bool Choice Tick) :=
  List.replicate k (.proc t (.ok [] 1))

/-- **A registered user behind a revoked invite.** The revocation has read the invite, the
registration commits, and the revocation commits. -/
theorem revoked_after_registration :
    Start plainEnv registerAndRevoke 1 pendingInvite ∧
      ∃ p q, (machine Bool id).run pendingInvite (awaits true 1 ++ awaits false 11) = some p ∧
        (machine Bool id).run p (awaits true 2) = some q ∧
        status p.world 1 = some .accepted ∧ status q.world 1 = some .revoked ∧
        ∃ u, CreatedFrom 1 false u q.world := by
  refine ⟨pendingInvite_start, _, _, rfl, rfl, rfl, rfl, 1, [_, _], _, rfl, ?_, ?_⟩
  · exact ⟨_, List.mem_of_getElem? (i := 8) rfl, rfl, rfl⟩
  · exact ⟨_, List.mem_of_getElem? (i := 2) rfl, rfl, rfl⟩

/-- A revocation that starts when the registration is committed is refused. -/
theorem invite_settles_accepted :
    ∃ p q, (machine Bool id).run pendingInvite (awaits false 11) = some p ∧
      (machine Bool id).run p (awaits true 2) = some q ∧ status p.world 1 = some .accepted ∧
      status q.world 1 = some .accepted ∧ ∃ t u, CreatedFrom 1 t u q.world := by
  rcases Option.isSome_iff_exists.mp
    (show ((machine Bool id).run pendingInvite (awaits false 11)).isSome = true by decide) with ⟨p, hp⟩
  have hend : status p.world 1 = some .accepted ∧
      ∃ q, (machine Bool id).run p (awaits true 2) = some q := by
    cases hp
    exact ⟨rfl, _, rfl⟩
  rcases hend with ⟨hs, q, hq⟩
  rcases invite_settles pendingInvite_start (by decide) hp hq with ⟨hkeep, -, -, hcreated⟩
  have hq' : status q.world 1 = some .accepted := by
    rcases hkeep with hkeep | hpending
    · rw [hkeep, hs]
    · rw [hs] at hpending
      cases hpending
  exact ⟨p, q, hp, hq, hs, hq', hcreated.mpr hq'⟩

end Chatspace.InviteLifecycle
