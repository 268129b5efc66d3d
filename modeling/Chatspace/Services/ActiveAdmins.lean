import Chatspace.Services.SoloMembership

/-!
# Active admins over runs of whole requests

Channels are created, joined and left, members are added, removed and given roles, and users are
deactivated and reactivated, one request after the other.  A deactivated user keeps membership and
role, and the succession asks for neither.

* `Effect` — what a request that has ended has committed;
* `effect_of_ends` — **every request has one of its effects**;
* `Excused` — the departures that leave no active admin;
* `active_admin_runs` — **a channel keeps an active admin unless the last one is demoted or departs
  so, and the promoted is another member that joined first.**
-/

namespace Chatspace.ActiveAdmins

open Interleave Store Channels AdminUsers SoloMembership

inductive Operation where
  | createChannel (name : Text) (isPrivate : Bool) (createdBy : UserId)
  | join (channelId : ChannelId) (userId : UserId)
  | leave (channelId : ChannelId) (userId : UserId)
  | addMember (channelId : ChannelId) (callerId userId : UserId) (role : ChannelMemberRole)
  | removeMember (channelId : ChannelId) (callerId userId : UserId)
  | changeRole (channelId : ChannelId) (callerId userId : UserId) (role : ChannelMemberRole)
  | deactivate (userId : UserId)
  | reactivate (userId : UserId)

/-- The request, whatever it answers. -/
def Operation.request : Operation → Py Unit
  | .createChannel name isPrivate u => (createChannelRoute name isPrivate u).bind fun _ => .ret ()
  | .join c u => (joinChannelRoute c u).bind fun _ => .ret ()
  | .leave c u => leaveChannelRoute c u
  | .addMember c caller u role => (addChannelMemberRoute c caller u role).bind fun _ => .ret ()
  | .removeMember c caller u => removeChannelMemberRoute c caller u
  | .changeRole c caller u role =>
    (updateChannelMemberRoleRoute c caller u role).bind fun _ => .ret ()
  | .deactivate u => (deactivateUserRoute u).bind fun _ => .ret ()
  | .reactivate u => reactivateUserRoute u

/-! ### Effects -/

/-- What a request may have made of the rows `R`. -/
inductive Effect (R : Rows) : Operation → Rows → Prop where
  | unchanged (o : Operation) : Effect R o R
  | created {name : Text} {isPrivate : Bool} {u : UserId} (c : ChannelId) (now : Time)
    (h : R.members (c, u) = none) :
    Effect R (.createChannel name isPrivate u) (R.setMember (c, u) (some ⟨.admin, now⟩))
  | joined {c : ChannelId} {u : UserId} (now : Time) (h : R.members (c, u) = none) :
    Effect R (.join c u) (R.setMember (c, u) (some ⟨.member, now⟩))
  | added {c : ChannelId} {caller u : UserId} {role : ChannelMemberRole} (now : Time)
    (h : R.members (c, u) = none) :
    Effect R (.addMember c caller u role) (R.setMember (c, u) (some ⟨role, now⟩))
  | roleChanged {c : ChannelId} {caller u : UserId} {role : ChannelMemberRole} (x : ChannelMember)
    (h : R.members (c, u) = some x) :
    Effect R (.changeRole c caller u role) (R.setMember (c, u) (some (setRole role x)))
  | left {c : ChannelId} {u : UserId} {m : Members} (h : Succeeded u (· = c) R.members m) :
    Effect R (.leave c u) ({ R with members := m }.setMember (c, u) none)
  | removed {c : ChannelId} {caller u : UserId} {m : Members}
    (h : Succeeded u (· = c) R.members m) :
    Effect R (.removeMember c caller u) ({ R with members := m }.setMember (c, u) none)
  | deactivated {u : UserId} {m : Members} (x : User)
    (h : Succeeded u (fun _ => True) R.members m) (hx : R.users u = some x) :
    Effect R (.deactivate u) ({ R with members := m }.setUser u (setActive false x))
  | reactivated {u : UserId} (x : User) (hx : R.users u = some x) :
    Effect R (.reactivate u) (R.setUser u (setActive true x))

variable {T : Type} [DecidableEq T] {hash : RawToken → TokenHash} {t : T} {R : Rows}
  {o : Operation} {c : ChannelId} {u : UserId} {α : Type}

/-- Nothing is written yet. -/
def Untouched (R : Rows) (C V : Rows) : Prop := C = R ∧ V = R

/-- What is committed and what is about to be is an effect of the request. -/
def Both (R : Rows) (o : Operation) (C V : Rows) : Prop := Effect R o C ∧ Effect R o V

/-- What is committed is an effect of the request. -/
def Fine (R : Rows) (o : Operation) (C _V : Rows) : Prop := Effect R o C

theorem Untouched.both {C V : Rows} (h : Untouched R C V) : Both R o C V := by
  obtain ⟨rfl, rfl⟩ := h
  exact ⟨.unchanged o, .unchanged o⟩

theorem Untouched.fine {C V : Rows} (h : Untouched R C V) : Fine R o C V := h.both.1

/-- Where nothing is committed yet, an effect may be committed. -/
theorem both_of_effect {C V : Rows} (hC : C = R) (hV : Effect R o V) : Both R o C V := by
  subst hC
  exact ⟨.unchanged o, hV⟩

/-- What comes after the changes: reading, publishing, and the end of the transaction. -/
def Closes (o : Op) : Prop := Reads o ∨ o = .sql .commit ∨ o = .sql .rollback

theorem safe_closes {p : Py α} (hp : p.Only Closes) :
    (alone hash t).Safe t p (At t (Both R o)) (fun _ => At t (Both R o))
      fun _ => At t (Both R o) := by
  refine Contract.Safe.only hp Machine.alone_stable fun op hop w ch r s _ hw _ hx => ?_
  refine ⟨trivial, trivial, ?_⟩
  rcases hop with hreads | rfl | rfl
  · exact At.of_reads hw (exec_reads hreads hx)
  · obtain ⟨rfl, -⟩ | ⟨rfl, -⟩ := exec_commitAll hx
    · exact hw
    · show Both R o (committed { w.state with db := w.state.db.commit t })
        (seen t { w.state with db := w.state.db.commit t })
      rw [committed_commit, seen_commit]
      exact ⟨hw.2, hw.2⟩
  · obtain ⟨rfl, -⟩ | ⟨rfl, -⟩ := exec_rollbackAll hx
    · exact hw
    · show Both R o (committed { w.state with db := w.state.db.rollback t })
        (seen t { w.state with db := w.state.db.rollback t })
      rw [committed_rollback, seen_rollback]
      exact ⟨hw.1, hw.1⟩

/-- A request whose body ends with its effect. -/
theorem safe_request {body : Py α}
    (h : (alone hash t).Safe t body (At t (Untouched R)) (fun _ => At t (Both R o))
      fun _ => At t (Fine R o)) :
    (alone hash t).Safe t (Py.getDbSession body) (At t (Untouched R)) (fun _ => At t (Both R o))
      fun _ => At t (Fine R o) :=
  Py.safe_session
    (safe_commit (fun _ _ h => ⟨h.2, h.2⟩) fun _ _ h => h.1)
    (SoloMembership.safe_rollback (fun _ _ h => ⟨h.1, h.1⟩) fun _ _ h => h.1)
    (SoloMembership.safe_rollback (fun _ _ h => h) fun _ _ h => h) h

/-- The end of a route. -/
theorem safe_rest {p : Py α} (hp : p.Only Closes) :
    (alone hash t).Safe t p (At t (Both R o)) (fun _ => At t (Both R o)) fun _ => At t (Fine R o) :=
  (safe_closes hp).mono (fun _ _ hw => hw) (fun _ _ _ hw => hw) fun _ _ _ hw => hw.1

/-! ### The requests -/

theorem only_publish {event : Event} {topic : Topic} :
    (publishChannelEvent event topic).Only Closes := by
  refine (Prog.only_perform (.inl ⟨trivial, trivial⟩)).handle fun e => ?_
  split <;> trivial

theorem only_commit : Py.commit.Only Closes := Prog.only_perform (.inr (.inl rfl))

theorem only_rollback : Py.rollback.Only Closes := Prog.only_perform (.inr (.inr rfl))

theorem reads_select {τ : Tbl} {q : τ.Key → τ.Row → Bool} : Reads (.sql (.select τ q)) :=
  ⟨trivial, trivial⟩

theorem reads_get {τ : Tbl} {k : τ.Key} : Reads (.sql (.get τ k)) := ⟨trivial, trivial⟩

theorem only_authorizeAdmin {caller : UserId} : (authorizeAdmin c caller).Only Reads := by
  refine (Prog.only_perform reads_get).bind fun channel => ?_
  cases channel with
  | none => trivial
  | some channel =>
    refine Prog.Only.bind ?_ fun ids => ?_
    · exact (only_selectForUpdate reads_select fun _ => trivial).bind fun _ => trivial
    · show Prog.Only Reads (if _ then _ else if _ then _ else _)
      split
      · trivial
      · split <;> trivial

/-- A part of a request that writes nothing. -/
theorem safe_untouched {p : Py α} (hp : p.Only Reads) :
    (alone hash t).Safe t p (At t (Untouched R)) (fun _ => At t (Untouched R))
      fun _ => At t (Fine R o) :=
  safe_reads' hp fun _ _ h => h.fine

theorem safe_createChannel {name : Text} {isPrivate : Bool} :
    (alone hash t).Safe t (createChannel name isPrivate u) (At t (Untouched R))
      (fun _ => At t (Both R (.createChannel name isPrivate u)))
      fun _ => At t (Fine R (.createChannel name isPrivate u)) := by
  refine Contract.Safe.bind (safe_untouched (Prog.only_perform ⟨trivial, trivial⟩)) fun id => ?_
  refine Contract.Safe.bind (Q := fun _ => At t (Untouched R)) ?_ fun channel => ?_
  · refine safe_untouched ((Prog.only_perform ?_).bind fun row => ?_)
    · exact ⟨(by decide : Tbl.channels ≠ .channelMembers), (by decide : Tbl.channels ≠ .users)⟩
    · cases row <;> trivial
  · refine Contract.Safe.bind (Q := fun _ => At t (Both R (.createChannel name isPrivate u)))
      (safe_flushInsert (fun _ _ h => h.fine) fun C V now h hnone => ?_) fun _ w _ hw => hw
    obtain ⟨rfl, rfl⟩ := h
    exact both_of_effect rfl (.created id now hnone)

theorem safe_insertMembership {role : ChannelMemberRole}
    (ho : ∀ now, R.members (c, u) = none → Effect R o (R.setMember (c, u) (some ⟨role, now⟩))) :
    (alone hash t).Safe t (insertMembership c u role) (At t (Untouched R))
      (fun _ => At t (Both R o)) fun _ => At t (Fine R o) := by
  refine Contract.Safe.handle (R := fun _ => At t (Untouched R)) ?_ fun e => ?_
  · refine Contract.Safe.bind (Q := fun _ => At t (Both R o)) (safe_flushInsert (fun _ _ h => h)
      fun C V now h hnone => ?_) fun _ w _ hw => hw
    obtain ⟨rfl, rfl⟩ := h
    exact both_of_effect rfl (ho now hnone)
  · split
    · refine ((safe_closes ?_).weaken fun w _ hw => hw.both).mono (fun _ _ hw => hw)
        (fun _ _ _ hw => hw) fun _ _ _ hw => hw.1
      refine only_rollback.bind fun _ => (Prog.only_perform (.inl reads_get)).bind fun x => ?_
      cases x <;> trivial
    · exact fun w _ hw => hw.fine

theorem safe_countChannelMembers {P : Rows → Rows → Prop} (hP : ∀ C V, P C V → Fine R o C V) :
    (alone hash t).Safe t (countChannelMembers c) (At t P) (fun _ => At t P)
      fun _ => At t (Fine R o) :=
  safe_reads' ((Prog.only_perform reads_select).bind fun _ => trivial) hP

theorem safe_joinPublicChannel :
    (alone hash t).Safe t (joinPublicChannel c u) (At t (Untouched R))
      (fun _ => At t (Both R (.join c u))) fun _ => At t (Fine R (.join c u)) := by
  refine Contract.Safe.bind (safe_untouched (Prog.only_perform reads_get)) fun channel => ?_
  cases channel with
  | none => exact fun w _ hw => hw.both
  | some channel =>
    refine Contract.Safe.bind (safe_untouched (Prog.only_perform reads_get)) fun existing => ?_
    cases existing with
    | some existing => exact fun w _ hw => hw.both
    | none =>
      show (alone hash t).Safe t (if _ then _ else _) _ _ _
      split
      · exact fun w _ hw => hw.both
      · refine Contract.Safe.bind (safe_insertMembership fun now h => .joined now h)
          fun inserted => ?_
        cases inserted with
        | inr existing => exact fun w _ hw => hw
        | inl membership =>
          exact Contract.Safe.bind (safe_countChannelMembers fun _ _ h => h.1)
            fun _ w _ hw => hw

theorem safe_addChannelMember {caller : UserId} {role : ChannelMemberRole} :
    (alone hash t).Safe t (addChannelMember c caller u role) (At t (Untouched R))
      (fun _ => At t (Both R (.addMember c caller u role)))
      fun _ => At t (Fine R (.addMember c caller u role)) := by
  refine Contract.Safe.bind (safe_untouched only_authorizeAdmin) fun authorized => ?_
  cases authorized with
  | error refusal => exact fun w _ hw => hw.both
  | ok channel =>
    refine Contract.Safe.bind (safe_untouched (Prog.only_perform reads_get)) fun target => ?_
    cases target with
    | none => exact fun w _ hw => hw.both
    | some target =>
      refine Contract.Safe.bind (safe_untouched (Prog.only_perform reads_get)) fun existing => ?_
      cases existing with
      | some existing => exact fun w _ hw => hw.both
      | none =>
        refine Contract.Safe.bind (safe_insertMembership fun now h => .added now h)
          fun inserted => ?_
        cases inserted with
        | inr existing => exact fun w _ hw => hw
        | inl membership =>
          exact Contract.Safe.bind (safe_countChannelMembers fun _ _ h => h.1)
            fun _ w _ hw => hw

theorem safe_changeMemberRole {caller : UserId} {role : ChannelMemberRole} :
    (alone hash t).Safe t (changeMemberRole c caller u role) (At t (Untouched R))
      (fun _ => At t (Both R (.changeRole c caller u role)))
      fun _ => At t (Fine R (.changeRole c caller u role)) := by
  refine Contract.Safe.bind (safe_untouched only_authorizeAdmin) fun authorized => ?_
  cases authorized with
  | error refusal => exact fun w _ hw => hw.both
  | ok channel =>
    refine Contract.Safe.bind (safe_untouched (Prog.only_perform reads_get)) fun membership => ?_
    cases membership with
    | none => exact fun w _ hw => hw.both
    | some membership =>
      show (alone hash t).Safe t (if _ then _ else _) _ _ _
      split
      · exact fun w _ hw => hw.both
      · refine Contract.Safe.bind (Q := fun _ => At t (Both R (.changeRole c caller u role)))
          (safe_flushUpdate (fun _ _ h => h.fine) fun C V x h hx => ?_) fun _ w _ hw => hw
        obtain ⟨rfl, rfl⟩ := h
        exact both_of_effect rfl (.roleChanged x hx)

/-- The succession of `u` in `scope` is seen, and nothing is committed yet. -/
def Succession (R : Rows) (u : UserId) (scope : ChannelId → Prop) (C V : Rows) : Prop :=
  C = R ∧ ∃ m, Succeeded u scope R.members m ∧ V = { R with members := m }

theorem safe_succession {channelId : Option ChannelId} {scope : ChannelId → Prop}
    (hscope : ∀ c, (∀ c' ∈ channelId, c = c') ↔ scope c) :
    (alone hash t).Safe t (runSoleAdminSuccession u channelId) (At t (Untouched R))
      (fun _ => At t (Succession R u scope)) fun _ => At t (Fine R o) := by
  refine (safe_runSoleAdminSuccession fun C V V' h => ?_).mono (fun _ _ hw => hw)
    (fun _ w _ hw => ?_) fun _ _ _ hw => hw
  · exact h.fine
  · obtain ⟨V, ⟨hC, rfl⟩, husers, hsucceeded⟩ := hw
    refine ⟨hC, _, hsucceeded.congr hscope, ?_⟩
    rw [← husers]

theorem safe_departMember {membership : ChannelMember}
    (hmember : R.members (c, u) = some membership)
    (ho : ∀ m, Succeeded u (· = c) R.members m →
      Effect R o ({ R with members := m }.setMember (c, u) none)) :
    (alone hash t).Safe t (departMember c u membership) (At t (Untouched R))
      (fun _ => At t (Both R o)) fun _ => At t (Fine R o) := by
  have hdelete : (alone hash t).Safe t (Py.flushDelete .channelMembers (c, u))
      (At t (Succession R u (· = c))) (fun _ => At t (Both R o)) fun _ => At t (Fine R o) := by
    refine safe_flushDelete (fun C V h => ?_) fun C V h => ?_
    · obtain ⟨rfl, -⟩ := h
      exact .unchanged o
    · obtain ⟨hC, m, hm, rfl⟩ := h
      exact both_of_effect hC (ho m hm)
  show (alone hash t).Safe t (if _ then _ else _) _ _ _
  split
  · exact Contract.Safe.bind (safe_succession fun c' => by simp [eq_comm]) fun _ => hdelete
  · rename_i hrole
    refine hdelete.weaken fun w _ hw => ⟨hw.1, R.members, ?_, hw.2⟩
    refine succeeded_self fun c' hc' hadmin => hrole ?_
    subst hc'
    obtain ⟨x, hx, hadmin⟩ := hadmin
    rw [hmember] at hx
    cases hx
    exact hadmin

/-- A membership that is read, and what is done with it. -/
theorem safe_membership {β : Type} {f : Option ChannelMember → Py β}
    (hf : (alone hash t).Safe t (f (R.members (c, u))) (At t (Untouched R))
      (fun _ => At t (Both R o)) fun _ => At t (Fine R o)) :
    (alone hash t).Safe t ((getMembership c u).bind f) (At t (Untouched R))
      (fun _ => At t (Both R o)) fun _ => At t (Fine R o) := by
  refine Contract.Safe.bind (safe_getMembership fun _ _ h => h.fine) fun x => ?_
  by_cases hx : x = R.members (c, u)
  · subst hx
    exact hf.weaken fun w _ hw => hw.1
  · refine (Contract.safe_false _).weaken fun w _ hw => hx ?_
    obtain ⟨⟨-, hV⟩, hw⟩ := hw
    rw [hw, hV]

theorem safe_leaveChannel :
    (alone hash t).Safe t (leaveChannel c u) (At t (Untouched R))
      (fun _ => At t (Both R (.leave c u))) fun _ => At t (Fine R (.leave c u)) := by
  refine Contract.Safe.bind (safe_untouched (Prog.only_perform reads_get)) fun channel => ?_
  cases channel with
  | none => exact fun w _ hw => hw.both
  | some channel =>
    refine safe_membership ?_
    cases hmember : R.members (c, u) with
    | none => exact fun w _ hw => hw.both
    | some membership =>
      exact Contract.Safe.bind (safe_departMember hmember fun m hm => .left hm)
        fun _ w _ hw => hw

theorem safe_removeChannelMember {caller : UserId} :
    (alone hash t).Safe t (removeChannelMember c caller u) (At t (Untouched R))
      (fun _ => At t (Both R (.removeMember c caller u)))
      fun _ => At t (Fine R (.removeMember c caller u)) := by
  refine Contract.Safe.bind (safe_untouched only_authorizeAdmin) fun authorized => ?_
  cases authorized with
  | error refusal => exact fun w _ hw => hw.both
  | ok channel =>
    refine Contract.Safe.bind (safe_untouched (Prog.only_perform reads_get)) fun target => ?_
    cases target with
    | none => exact fun w _ hw => hw.both
    | some target =>
      refine safe_membership ?_
      cases hmember : R.members (c, u) with
      | none => exact fun w _ hw => hw.both
      | some membership =>
        exact Contract.Safe.bind (safe_departMember hmember fun m hm => .removed hm)
          fun _ w _ hw => hw

theorem closes_revokeSessionsForUser :
    (Sessions.revokeSessionsForUser u none (.ret ()) (.ret ())).Only Closes :=
  Sessions.only_revokeSessionsForUser (.inl ⟨trivial, trivial⟩) (fun _ => .inl reads_select)
    (fun _ _ => .inl ⟨nofun, nofun⟩) trivial trivial

theorem safe_deactivate :
    (alone hash t).Safe t (deactivate u) (At t (Untouched R))
      (fun _ => At t (Both R (.deactivate u))) fun _ => At t (Fine R (.deactivate u)) := by
  refine Contract.Safe.bind (Q := fun _ => At t (Succession R u fun _ => True))
    (safe_succession fun c => by simp) fun channels => ?_
  refine Contract.Safe.bind (Q := fun _ => At t (Both R (.deactivate u)))
    (safe_flushUser (fun C V h => ?_) fun C V x h hx => ?_) fun _ => ?_
  · obtain ⟨rfl, -⟩ := h
    exact .unchanged (.deactivate u)
  · obtain ⟨hC, m, hm, rfl⟩ := h
    exact both_of_effect hC (.deactivated x hm hx)
  · exact Contract.Safe.bind (safe_rest closes_revokeSessionsForUser) fun _ w _ hw => hw

theorem safe_deactivateUser {target : User} :
    (alone hash t).Safe t (deactivateUser u target) (At t (Untouched R))
      (fun _ => At t (Both R (.deactivate u))) fun _ => At t (Fine R (.deactivate u)) := by
  show (alone hash t).Safe t (if _ then _ else if _ then _ else _) _ _ _
  split
  · exact fun w _ hw => hw.both
  · split
    · refine Contract.Safe.bind (safe_untouched ?_) fun count => ?_
      · exact (only_selectForUpdate reads_select fun _ => trivial).bind fun _ => trivial
      · split
        · exact fun w _ hw => hw.both
        · exact safe_deactivate
    · exact safe_deactivate

theorem only_getUserOr404 : (getUserOr404 u).Only Reads := by
  refine (Prog.only_perform reads_get).bind fun x => ?_
  cases x <;> trivial

/-- **Every request has one of its effects, however it ends.** -/
theorem safe_operation (o : Operation) :
    (alone hash t).Safe t o.request (At t (Untouched R)) (fun _ => At t (Fine R o))
      fun _ => At t (Fine R o) := by
  suffices h : (alone hash t).Safe t o.request (At t (Untouched R)) (fun _ => At t (Both R o))
      fun _ => At t (Fine R o) from
    h.mono (fun _ _ hw => hw) (fun _ _ _ hw => hw.1) fun _ _ _ hw => hw
  cases o with
  | createChannel name isPrivate u =>
    refine Contract.Safe.bind (safe_request ?_) fun _ w _ hw => hw
    refine Contract.Safe.bind (Contract.Safe.handle safe_createChannel fun e => ?_) fun channel =>
      safe_rest (only_commit.bind fun _ => trivial)
    split
    · exact Contract.Safe.bind (Q := fun _ => At t (Fine R (.createChannel name isPrivate u)))
        (SoloMembership.safe_rollback (fun _ _ h => h) fun _ _ h => h) fun _ w _ hw => hw
    · exact fun w _ hw => hw
  | join c u =>
    refine Contract.Safe.bind (safe_request ?_) fun _ w _ hw => hw
    refine Contract.Safe.bind safe_joinPublicChannel fun outcome => safe_rest ?_
    cases outcome with
    | joined membership channel memberCount =>
      exact only_commit.bind fun _ => only_publish.bind fun _ => trivial
    | alreadyMember membership channel => exact only_commit.bind fun _ => trivial
    | isPrivate channel => trivial
    | notFound => trivial
  | leave c u =>
    refine safe_request (Contract.Safe.bind safe_leaveChannel fun outcome => safe_rest ?_)
    cases outcome with
    | left => exact only_commit.bind fun _ => only_publish
    | notMember => trivial
  | addMember c caller u role =>
    refine Contract.Safe.bind (safe_request ?_) fun _ w _ hw => hw
    refine Contract.Safe.bind safe_addChannelMember fun outcome => safe_rest ?_
    cases outcome with
    | added membership channel memberCount =>
      exact only_commit.bind fun _ => only_publish.bind fun _ => trivial
    | alreadyMember membership channel => exact only_commit.bind fun _ => trivial
    | refused refusal => trivial
  | removeMember c caller u =>
    refine safe_request (Contract.Safe.bind safe_removeChannelMember fun outcome => safe_rest ?_)
    cases outcome with
    | removed => exact only_commit.bind fun _ => only_publish
    | notMember => exact only_commit
    | refused refusal => trivial
  | changeRole c caller u role =>
    refine Contract.Safe.bind (safe_request ?_) fun _ w _ hw => hw
    refine Contract.Safe.bind safe_changeMemberRole fun outcome => safe_rest ?_
    cases outcome with
    | updated membership => exact only_commit.bind fun _ => trivial
    | noOp membership => exact only_commit.bind fun _ => trivial
    | refused refusal => trivial
  | deactivate u =>
    refine Contract.Safe.bind (safe_request ?_) fun _ w _ hw => hw
    refine Contract.Safe.bind (safe_untouched only_getUserOr404) fun target => ?_
    refine Contract.Safe.bind safe_deactivateUser fun result => safe_rest ?_
    cases result with
    | lastActiveSystemAdmin => exact only_rollback.bind fun _ => trivial
    | alreadyInactive => exact only_commit.bind fun _ => trivial
    | deactivated sessionIds channelIds =>
      refine only_commit.bind fun _ => (Prog.only_forEach _ fun id => ?_).bind fun _ => trivial
      refine (Prog.only_perform (.inl ⟨trivial, trivial⟩)).handle fun e => ?_
      split <;> trivial
  | reactivate u =>
    refine safe_request (Contract.Safe.bind (safe_untouched only_getUserOr404) fun target => ?_)
    show (alone hash t).Safe t (if _ then _ else _) _ _ _
    split
    · refine Contract.Safe.bind (Q := fun _ => At t (Both R (.reactivate u)))
        (safe_flushUser (fun _ _ h => h.fine) fun C V x h hx => ?_) fun _ => safe_rest only_commit
      obtain ⟨rfl, rfl⟩ := h
      exact both_of_effect rfl (.reactivated x hx)
    · exact (safe_rest only_rollback).weaken fun w _ hw => hw.both

/-! ### Admins that are active -/

def Active (R : Rows) (u : UserId) : Prop := ∃ x, R.users u = some x ∧ x.isActive = true

def ActiveAdmin (R : Rows) (c : ChannelId) (u : UserId) : Prop := IsAdmin R.members c u ∧ Active R u

def HasActiveAdmin (R : Rows) (c : ChannelId) : Prop := ∃ u, ActiveAdmin R c u

def HasActiveMember (R : Rows) (c : ChannelId) : Prop := ∃ u x, R.members (c, u) = some x ∧ Active R u

/-- The only admin of the channel that is active. -/
def LastActive (R : Rows) (c : ChannelId) (u : UserId) : Prop := ∀ v, ActiveAdmin R c v ↔ v = u

/-- A departure that leaves no active admin: another admin, or a member that joined first among the
others, is deactivated. -/
def Overlooks (R : Rows) (c : ChannelId) (u : UserId) : Prop :=
  LastActive R c u ∧ ((∃ v, v ≠ u ∧ IsAdmin R.members c v) ∨
    ∃ v, Longest R.members c u v ∧ ¬ Active R v)

/-- The user leaves the channel, is removed from it or is deactivated. -/
def Operation.Departs : Operation → ChannelId → UserId → Prop
  | .leave c u, c', u' => c' = c ∧ u' = u
  | .removeMember c _ u, c', u' => c' = c ∧ u' = u
  | .deactivate u, _, u' => u' = u
  | _, _, _ => False

/-- The last active admin is demoted. -/
def Demoted (o : Operation) (R : Rows) (c : ChannelId) : Prop :=
  ∃ caller u, o = .changeRole c caller u .member ∧ LastActive R c u

def Excused (o : Operation) (R : Rows) (c : ChannelId) : Prop := ∃ u, o.Departs c u ∧ Overlooks R c u

section Step

variable {S : Rows} {m : Members} {scope : ChannelId → Prop} {v : UserId}

theorem hasActiveAdmin_mono (h : HasActiveAdmin R c)
    (hadmin : ∀ u, ActiveAdmin R c u → IsAdmin S.members c u)
    (hactive : ∀ u, ActiveAdmin R c u → Active S u) : HasActiveAdmin S c := by
  obtain ⟨u, hu⟩ := h
  exact ⟨u, hadmin u hu, hactive u hu⟩

/-- Either `u` is the only active admin or there is another one. -/
theorem lastActive_or (h : HasActiveAdmin R c) (u : UserId) :
    LastActive R c u ∨ ∃ v, v ≠ u ∧ ActiveAdmin R c v := by
  by_cases hother : ∃ v, v ≠ u ∧ ActiveAdmin R c v
  · exact .inr hother
  · refine .inl fun v => ⟨fun hv => ?_, fun hv => ?_⟩
    · by_contra hne
      exact hother ⟨v, hne, hv⟩
    · obtain ⟨w, hw⟩ := h
      by_cases hwu : w = u
      · rw [hv, ← hwu]
        exact hw
      · exact absurd ⟨w, hwu, hw⟩ hother

theorem isAdmin_promote {x : UserId} (h : IsAdmin m c x) {m' : Members}
    (hm : m' (c, x) = m (c, x) ∨ m' (c, x) = (m (c, x)).map promote) : IsAdmin m' c x := by
  obtain ⟨r, hr, hrole⟩ := h
  rcases hm with hm | hm
  · exact ⟨r, hm.trans hr, hrole⟩
  · exact ⟨promote r, by rw [hm, hr]; rfl, rfl⟩

/-- A succession promotes, and nothing else. -/
theorem Succeeded.cases {m' : Members} (h : Succeeded u scope m m') (x : UserId) :
    m' (c, x) = m (c, x) ∨ m' (c, x) = (m (c, x)).map promote := by
  rcases h c with ⟨-, -, v, -, hv⟩ | ⟨-, hsame⟩
  · rw [hv x]
    split
    · exact .inr rfl
    · exact .inl rfl
  · exact .inl (hsame x)

/-- After a departure the channel has an active admin, unless the succession overlooks it. -/
theorem departure_keeps (h : Succeeded u scope R.members m) (hscope : scope c)
    (hmembers : ∀ y, y ≠ u → S.members (c, y) = m (c, y))
    (hactive : ∀ y, y ≠ u → (Active S y ↔ Active R y))
    (hgone : ∀ y x, S.members (c, y) = some x → Active S y → y ≠ u)
    (hadmin : HasActiveAdmin R c) (hmember : HasActiveMember S c) :
    HasActiveAdmin S c ∨ Overlooks R c u := by
  have hother : ∀ v, v ≠ u → IsAdmin m c v → IsAdmin S.members c v := by
    intro v hv hm
    obtain ⟨x, hx, hrole⟩ := hm
    exact ⟨x, (hmembers v hv).trans hx, hrole⟩
  rcases lastActive_or hadmin u with hlast | ⟨v, hv, hvadmin, hvactive⟩
  · by_cases honly : ∃ v, v ≠ u ∧ IsAdmin R.members c v
    · exact .inr ⟨hlast, .inl honly⟩
    · have honly' : OnlyAdmin R.members c u := by
        intro v
        constructor
        · intro hv
          by_contra hne
          exact honly ⟨v, hne, hv⟩
        · rintro rfl
          exact ((hlast v).mpr rfl).1
      obtain ⟨y, x, hy, hyactive⟩ := hmember
      have hyu := hgone y x hy hyactive
      rcases h c with ⟨-, -, v, hlongest, hv⟩ | ⟨halone, hsame⟩
      · by_cases hvactive : Active R v
        · obtain ⟨hvu, r, hr, -⟩ := hlongest
          refine .inl ⟨v, hother v hvu ⟨promote r, ?_, rfl⟩, (hactive v hvu).mpr hvactive⟩
          rw [hv v, if_pos rfl, hr]
          rfl
        · exact .inr ⟨hlast, .inr ⟨v, hlongest, hvactive⟩⟩
      · have hnone := halone hscope honly' y hyu
        rw [hmembers y hyu, hsame y, hnone] at hy
        cases hy
  · refine .inl ⟨v, hother v hv (isAdmin_promote hvadmin (Succeeded.cases h v)), ?_⟩
    exact (hactive v hv).mpr hvactive

/-- Who is promoted by a succession is another member that joined first. -/
theorem departure_promotes (h : Succeeded u scope R.members m)
    (hmembers : ∀ y, y ≠ u → S.members (c, y) = m (c, y)) (hv : v ≠ u)
    (hno : ¬ IsAdmin R.members c v) (hyes : IsAdmin S.members c v) :
    OnlyAdmin R.members c u ∧ Longest R.members c u v := by
  obtain ⟨x, hx, hrole⟩ := hyes
  rw [hmembers v hv] at hx
  rcases h c with ⟨-, honly, v', hlongest, hv'⟩ | ⟨-, hsame⟩
  · by_cases heq : v = v'
    · rw [heq]
      exact ⟨honly, hlongest⟩
    · rw [hv' v, if_neg heq] at hx
      exact absurd ⟨x, hx, hrole⟩ hno
  · rw [hsame v] at hx
    exact absurd ⟨x, hx, hrole⟩ hno

/-- A row is written that was not an admin's, or is one afterwards. -/
theorem setMember_keeps {k : ChannelId × UserId} {x : ChannelMember}
    (h : IsAdmin R.members k.1 k.2 → x.role = .admin) (hadmin : IsAdmin R.members c v) :
    IsAdmin (R.setMember k (some x)).members c v := by
  by_cases hk : (c, v) = k
  · subst hk
    exact ⟨x, Function.update_self .., h hadmin⟩
  · obtain ⟨y, hy, hrole⟩ := hadmin
    exact ⟨y, (Function.update_of_ne hk ..).trans hy, hrole⟩

theorem not_isAdmin_of_none {k : ChannelId × UserId} (h : m k = none) : ¬ IsAdmin m k.1 k.2 := by
  intro hadmin
  obtain ⟨x, hx, -⟩ := hadmin
  exact nomatch h.symm.trans hx

/-- A new membership takes no admin away. -/
theorem insert_keeps {k : ChannelId × UserId} {x : ChannelMember} (h : R.members k = none)
    (hadmin : HasActiveAdmin R c) : HasActiveAdmin (R.setMember k (some x)) c :=
  hasActiveAdmin_mono hadmin (fun _ hu => setMember_keeps
    (fun hk => absurd hk (not_isAdmin_of_none h)) hu.1) fun _ hu => hu.2

/-- A membership of `c` ends after its succession. -/
theorem end_keeps (h : Succeeded u (· = c) R.members m) (c' : ChannelId)
    (hadmin : HasActiveAdmin R c')
    (hmember : HasActiveMember ({ R with members := m }.setMember (c, u) none) c') :
    HasActiveAdmin ({ R with members := m }.setMember (c, u) none) c' ∨
      (c' = c ∧ Overlooks R c u) := by
  have hset : ∀ y, (c', y) ≠ (c, u) →
      ({ R with members := m }.setMember (c, u) none).members (c', y) = m (c', y) :=
    fun y hy => Function.update_of_ne hy ..
  by_cases hc : c' = c
  · subst hc
    refine (departure_keeps h rfl (fun y hy => hset y (by simpa using hy)) (fun _ _ => Iff.rfl)
      (fun y x hy _ => ?_) hadmin hmember).imp_right fun hover => ⟨rfl, hover⟩
    intro heq
    subst heq
    exact nomatch (Function.update_self ..).symm.trans hy
  · refine .inl (hasActiveAdmin_mono hadmin (fun v hv => ?_) fun _ hv => hv.2)
    obtain ⟨x, hx, hrole⟩ := isAdmin_promote hv.1 (Succeeded.cases h v)
    exact ⟨x, (hset v fun heq => hc (Prod.mk.inj heq).1).trans hx, hrole⟩

theorem end_promotes (h : Succeeded u (· = c) R.members m) (hv : v ≠ u)
    (hno : ¬ IsAdmin R.members c v)
    (hyes : IsAdmin ({ R with members := m }.setMember (c, u) none).members c v) :
    OnlyAdmin R.members c u ∧ Longest R.members c u v :=
  departure_promotes (S := { R with members := m }.setMember (c, u) none) h
    (fun y hy => Function.update_of_ne (by simpa using hy) ..) hv hno hyes

theorem active_setUser {x : User} {v : UserId} (hv : v ≠ u) :
    Active (R.setUser u x) v ↔ Active R v := by
  simp only [Active, Rows.setUser, Function.update_of_ne hv]

/-- **What an effect does to the admins of a channel.** -/
theorem Effect.admins (h : Effect R o S) (c : ChannelId) :
    (HasActiveAdmin R c → HasActiveMember S c →
      HasActiveAdmin S c ∨ Demoted o R c ∨ Excused o R c) ∧
    ∀ u v, o.Departs c u → v ≠ u → ¬ IsAdmin R.members c v → IsAdmin S.members c v →
      OnlyAdmin R.members c u ∧ Longest R.members c u v := by
  cases h with
  | unchanged => exact ⟨fun hadmin _ => .inl hadmin, fun _ _ _ _ hno hyes => absurd hyes hno⟩
  | created c' now hnone =>
    exact ⟨fun hadmin _ => .inl (insert_keeps hnone hadmin), fun _ _ hdeparts => hdeparts.elim⟩
  | joined now hnone =>
    exact ⟨fun hadmin _ => .inl (insert_keeps hnone hadmin), fun _ _ hdeparts => hdeparts.elim⟩
  | added now hnone =>
    exact ⟨fun hadmin _ => .inl (insert_keeps hnone hadmin), fun _ _ hdeparts => hdeparts.elim⟩
  | @roleChanged c' caller u role x hx =>
    refine ⟨fun hadmin _ => ?_, fun _ _ hdeparts => hdeparts.elim⟩
    cases role with
    | admin =>
      exact .inl (hasActiveAdmin_mono hadmin (fun _ hv => setMember_keeps (fun _ => rfl) hv.1)
        fun _ hv => hv.2)
    | member =>
      by_cases hc : c = c'
      · subst hc
        rcases lastActive_or hadmin u with hlast | ⟨v, hv, hvadmin, hvactive⟩
        · exact .inr (.inl ⟨caller, u, rfl, hlast⟩)
        · obtain ⟨y, hy, hrole⟩ := hvadmin
          refine .inl ⟨v, ⟨y, ?_, hrole⟩, hvactive⟩
          exact (Function.update_of_ne (by simpa using hv) ..).trans hy
      · refine .inl (hasActiveAdmin_mono hadmin (fun v hv => ?_) fun _ hv => hv.2)
        obtain ⟨y, hy, hrole⟩ := hv.1
        refine ⟨y, (Function.update_of_ne ?_ ..).trans hy, hrole⟩
        exact fun heq => hc (Prod.mk.inj heq).1
  | @left c' u m hm =>
    constructor
    · intro hadmin hmember
      rcases end_keeps hm c hadmin hmember with hkept | ⟨hc, hover⟩
      · exact .inl hkept
      · subst hc
        exact .inr (.inr ⟨u, ⟨rfl, rfl⟩, hover⟩)
    · intro u' v hdeparts hv hno hyes
      obtain ⟨rfl, rfl⟩ := hdeparts
      exact end_promotes hm hv hno hyes
  | @removed c' caller u m hm =>
    constructor
    · intro hadmin hmember
      rcases end_keeps hm c hadmin hmember with hkept | ⟨hc, hover⟩
      · exact .inl hkept
      · subst hc
        exact .inr (.inr ⟨u, ⟨rfl, rfl⟩, hover⟩)
    · intro u' v hdeparts hv hno hyes
      obtain ⟨rfl, rfl⟩ := hdeparts
      exact end_promotes hm hv hno hyes
  | @deactivated u m x hm hx =>
    constructor
    · intro hadmin hmember
      refine (departure_keeps (S := { R with members := m }.setUser u (setActive false x)) hm
        trivial (fun _ _ => rfl) (fun y hy => active_setUser hy) (fun y z hy hactive => ?_) hadmin
        hmember).imp_right fun hover => .inr ⟨u, rfl, hover⟩
      intro heq
      subst heq
      obtain ⟨x', hx', hactive⟩ := hactive
      cases (Function.update_self ..).symm.trans hx'
      cases hactive
    · intro u' v hdeparts hv hno hyes
      subst hdeparts
      exact departure_promotes (S := { R with members := m }.setUser u' (setActive false x)) hm
        (fun _ _ => rfl) hv hno hyes
  | @reactivated u x hx =>
    refine ⟨fun hadmin _ => .inl (hasActiveAdmin_mono hadmin (fun _ hv => hv.1) fun v hv => ?_),
      fun _ _ hdeparts => hdeparts.elim⟩
    by_cases hvu : v = u
    · subst hvu
      exact ⟨_, Function.update_self .., rfl⟩
    · exact (active_setUser hvu).mpr hv.2

end Step

/-! ### Runs of whole requests -/

/-- Requests one after the other, each a process that runs to its end; in between anything may
happen but to the database.  Noted are the rows before each request, and after it. -/
inductive Serial (hash : RawToken → TokenHash) :
    ℕ → BackendWorld ℕ → List (Rows × Operation × Rows) → Prop where
  | nil (n : ℕ) (w : BackendWorld ℕ) : Serial hash n w []
  | cons {n : ℕ} {w w₁ w₂ : BackendWorld ℕ} {o : Operation} {cs : List Choice}
    {x : Except Exc Unit} {steps : List (Rows × Operation × Rows)}
    (hends : (machine ℕ hash).Ends n o.request w cs x w₁) (hdb : w₂.state.db = w₁.state.db)
    (h : Serial hash (n + 1) w₂ steps) :
    Serial hash n w ((committed w.state, o, committed w₁.state) :: steps)

/-- Processes from `n` on hold no rows. -/
def Fresh (n : ℕ) (w : BackendWorld ℕ) : Prop :=
  ∀ k τ, n ≤ k → ∀ j, ¬ (w.state.db τ).Holds k j

theorem Fresh.ends {n : ℕ} {w w' : BackendWorld ℕ} {p : Py α} {cs : List Choice}
    {x : Except Exc α} (h : Fresh n w) (hends : (machine ℕ hash).Ends n p w cs x w') :
    Fresh (n + 1) w' := by
  intro k τ hk j
  have hne : n ≠ k := by omega
  have hno := h k τ (by omega) j
  clear h
  induction hends with
  | ret a w => exact hno
  | raise e w => exact hno
  | call hexec _ ih => exact ih fun hholds => hno ((exec_keeps hne hexec τ).holds.mpr hholds)

/-- A request has one of its effects. -/
theorem effect_of_ends {n : ℕ} {w w' : BackendWorld ℕ} {cs : List Choice} {x : Except Exc Unit}
    (hfresh : Fresh n w) (hends : (machine ℕ hash).Ends n o.request w cs x w') :
    Effect (committed w.state) o (committed w'.state) := by
  have hstart : At n (Untouched (committed w.state)) w := by
    refine ⟨rfl, ?_⟩
    have hmembers := fun k => Table.view_of_not_holds (hfresh n .channelMembers le_rfl k)
    have husers := fun k => Table.view_of_not_holds (hfresh n .users le_rfl k)
    rw [seen, committed, funext hmembers, funext husers]
  have houtcome := Machine.triple_of_safe (safe_operation (R := committed w.state) o) w cs x w'
    hstart hends
  cases x with
  | ok a => exact houtcome
  | error e => exact houtcome

/-- **In every run of whole requests a channel that has a member left who is active keeps an active
admin, unless the last one is demoted, or departs while another admin, or a member that joined first
among the others, is deactivated; and who is promoted is another member that joined first.** -/
theorem active_admin_runs {w : BackendWorld ℕ} {steps : List (Rows × Operation × Rows)}
    (hfresh : Fresh 0 w) (h : Serial hash 0 w steps) :
    ∀ R o S, (R, o, S) ∈ steps → ∀ c,
      (HasActiveAdmin R c → HasActiveMember S c →
        HasActiveAdmin S c ∨ Demoted o R c ∨ Excused o R c) ∧
      ∀ u v, o.Departs c u → v ≠ u → ¬ IsAdmin R.members c v → IsAdmin S.members c v →
        OnlyAdmin R.members c u ∧ Longest R.members c u v := by
  suffices hall : ∀ n, Fresh n w → Serial hash n w steps → ∀ R o S, (R, o, S) ∈ steps →
      Effect R o S from fun R o S hmem c => (hall 0 hfresh h R o S hmem).admins c
  clear hfresh h
  intro n hfresh h
  induction h with
  | nil n w => simp
  | cons hends hdb _ ih =>
    intro R o S hmem
    rcases List.mem_cons.mp hmem with heq | hmem
    · cases heq
      exact effect_of_ends hfresh hends
    · refine ih ?_ R o S hmem
      intro k τ hk j
      rw [hdb]
      exact hfresh.ends hends k τ hk j

/-- A channel with an admin and two members that joined after them. -/
def threeMembers : BackendWorld ℕ :=
  ⟨State.ofRows fun
    | .users => [(1, ⟨['a'], [], [], [], [], true, false, false, 0⟩),
        (2, ⟨['b'], [], [], [], [], true, false, false, 0⟩),
        (3, ⟨['c'], [], [], [], [], true, false, false, 0⟩)]
    | .channels => [(1, ⟨['g'], false, 1, 0⟩)]
    | .channelMembers => [((1, 1), ⟨.admin, 0⟩), ((1, 2), ⟨.member, 1⟩), ((1, 3), ⟨.member, 2⟩)]
    | _ => [], []⟩

theorem fresh_threeMembers : Fresh 0 threeMembers := by
  intro k τ _ j h
  obtain ⟨p, hp⟩ := h
  cases hp

/-- Request `n` as it runs with `k` awaits. -/
def runs (n k : ℕ) (o : Operation) (w : BackendWorld ℕ) :
    Option (Except Exc Unit × BackendWorld ℕ) :=
  (machine ℕ id).solo n o.request w (List.replicate k (.ok [] 1))

/-- The admin leaves. -/
theorem active_admin_runs_leave : ∃ S,
    Serial id 0 threeMembers [(committed threeMembers.state, .leave 1 1, S)] ∧
      (HasActiveAdmin (committed threeMembers.state) 1 → HasActiveMember S 1 →
        HasActiveAdmin S 1 ∨ Demoted (.leave 1 1) (committed threeMembers.state) 1 ∨
          Excused (.leave 1 1) (committed threeMembers.state) 1) := by
  have hruns : (runs 0 12 (.leave 1 1) threeMembers).isSome = true := by decide
  obtain ⟨⟨x, w⟩, hw⟩ := Option.isSome_iff_exists.mp hruns
  have hserial : Serial id 0 threeMembers
      [(committed threeMembers.state, .leave 1 1, committed w.state)] :=
    .cons (Machine.ends_of_solo hw) rfl (.nil 1 w)
  exact ⟨committed w.state, hserial,
    (active_admin_runs fresh_threeMembers hserial _ _ _ (by simp) 1).1⟩

/-- **A member is deactivated and then the admin leaves: the member is promoted, and the third one
has no active admin.** -/
theorem overlooked : ∃ steps R S, Serial id 0 threeMembers steps ∧ (R, .leave 1 1, S) ∈ steps ∧
    HasActiveAdmin R 1 ∧ HasActiveMember S 1 ∧ ¬ HasActiveAdmin S 1 ∧
    ¬ IsAdmin R.members 1 2 ∧ IsAdmin S.members 1 2 ∧ ¬ Active S 2 := by
  have hruns : (runs 0 8 (.deactivate 2) threeMembers).any (fun a =>
      (runs 1 12 (.leave 1 1) a.2).any fun b =>
        let R := committed a.2.state
        let S := committed b.2.state
        decide (R.members (1, 1) = some ⟨.admin, 0⟩ ∧ R.members (1, 2) = some ⟨.member, 1⟩ ∧
          (R.users 1).any User.isActive ∧ S.members (1, 3) = some ⟨.member, 2⟩ ∧
          (S.users 3).any User.isActive ∧ S.members (1, 2) = some ⟨.admin, 1⟩ ∧
          ¬ (S.users 2).any User.isActive) &&
        (b.2.state.db .channelMembers).keys.all fun k =>
          decide (k.1 = 1 → (S.members k).any (fun m => m.role = .admin) → k.2 = 2)) = true := by
    decide
  obtain ⟨⟨x, w⟩, hw, hruns⟩ := (Option.any_eq_true _ _).mp hruns
  obtain ⟨⟨y, w'⟩, hw', hfacts⟩ := (Option.any_eq_true _ _).mp hruns
  simp only [Bool.and_eq_true, decide_eq_true_eq, List.all_eq_true] at hfacts
  obtain ⟨⟨hadmin, hmember, hactive, hthird, hthirdActive, hpromoted, hinactive⟩, hkeys⟩ := hfacts
  have hserial : Serial id 0 threeMembers
      [(committed threeMembers.state, .deactivate 2, committed w.state),
        (committed w.state, .leave 1 1, committed w'.state)] :=
    .cons (Machine.ends_of_solo hw) rfl (.cons (Machine.ends_of_solo hw') rfl (.nil 2 w'))
  have hno : ¬ Active (committed w'.state) 2 := by
    intro h
    obtain ⟨z, hz, hz'⟩ := h
    rw [hz] at hinactive
    exact hinactive hz'
  have hyes : ∀ R : Rows, ∀ u, (R.users u).any User.isActive = true → Active R u :=
    fun R u h => (Option.any_eq_true _ _).mp h
  refine ⟨_, _, _, hserial, by simp, ⟨1, ⟨_, hadmin, rfl⟩, hyes _ _ hactive⟩,
    ⟨3, _, hthird, hyes _ _ hthirdActive⟩, ?_, ?_, ⟨_, hpromoted, rfl⟩, hno⟩
  · intro h
    obtain ⟨u, ⟨z, hz, hrole⟩, hu⟩ := h
    have hmem : (1, u) ∈ (w'.state.db .channelMembers).keys := Table.mem_keys_of_committed hz
    have hu2 : u = 2 := hkeys _ hmem rfl (by rw [hz]; simpa using hrole)
    rw [hu2] at hu
    exact hno hu
  · intro h
    obtain ⟨z, hz, hrole⟩ := h
    rw [hmember] at hz
    cases hz
    cases hrole

end Chatspace.ActiveAdmins
