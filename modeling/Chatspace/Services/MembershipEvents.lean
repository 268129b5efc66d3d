import Chatspace.Backend.Tables
import Chatspace.Interleave.Outbox
import Chatspace.Services.AdminLocks
import Chatspace.Services.Channels

/-!
# The order of membership events

A join, a leave, an addition or a removal commits, and then publishes `channel.member_added` or
`channel.member_removed` to the topic of the user.

* `draft` — what a transaction will have to announce once it has committed;
* `outbox` — what has been committed and not yet been announced, and the last announcement;
* `Written` — what a transaction has written of the row, and what it has drafted;
* `announcing` — a request publishes what it owes, and commits a change only when it owes nothing;
* `orderly` — every publish succeeds and is in turn, and no transaction that found no row to delete
  commits when there is one;
* `membership_event_order` — **then, once every request has ended, the last event agrees with the
  committed membership**;
* `disordered` — a publish out of turn, and the announcement of a removal that removed nothing.
-/

namespace Chatspace.MembershipEvents

open Interleave Store Channels AdminLocks

/-- One request. -/
inductive Task where
  | join (channelId : ChannelId) (userId : UserId)
  | leave (channelId : ChannelId) (userId : UserId)
  | add (channelId : ChannelId) (callerId userId : UserId) (role : ChannelMemberRole)
  | remove (channelId : ChannelId) (callerId userId : UserId)

def Task.program : Task → Py Unit
  | .join c u => (joinChannelRoute c u).bind fun _ => .ret ()
  | .leave c u => leaveChannelRoute c u
  | .add c caller u role => (addChannelMemberRoute c caller u role).bind fun _ => .ret ()
  | .remove c caller u => removeChannelMemberRoute c caller u

variable {T α : Type} [DecidableEq T] {hash : RawToken → TokenHash} {task : T → Task} {t t' : T}
  {w w' : BackendWorld T} {c c' : ChannelId} {u u' caller : UserId} {s s' : State T} {o : Op}
  {ch : Choice} {r : Except Exc o.Res} {tr : List (Entry T Op Op.Res Exc)}

/-! ### What is still to be announced -/

/-- What an event tells of a membership. -/
inductive Change where
  | added
  | removed
deriving DecidableEq

section Trace

variable (c u)

/-- What an event tells the user of their membership in the channel. -/
def changeOf : Topic → Event → Option Change
  | .user userId, .memberAdded channelId .. =>
    if channelId = c ∧ userId = u then some .added else none
  | .user userId, .memberRemoved channelId _ =>
    if channelId = c ∧ userId = u then some .removed else none
  | _, _ => none

/-- The last event that tells the user of their membership in the channel. -/
def lastEvent (published : List (Topic × Event)) : Option Change :=
  (published.filterMap fun x => changeOf c u x.1 x.2).getLast?

/-- The announcement of a change of this row. -/
def about (k : ChannelId × UserId) (change : Change) : Option Change :=
  if k = (c, u) then some change else none

/-- An insertion of the row is to be announced, and so is a deletion, whether or not there was a row
to delete; at the end of a transaction there is nothing to announce. -/
def drafted : Entry T Op Op.Res Exc → Option (Option Change)
  | ⟨_, .sql (.insert .channelMembers k _), .ok (some _)⟩ => (about c u k .added).map some
  | ⟨_, .sql (.delete .channelMembers k), .ok _⟩ => (about c u k .removed).map some
  | ⟨_, .sql .commit, .ok _⟩ => some none
  | ⟨_, .sql .rollback, .ok _⟩ => some none
  | _ => none

/-- What the transaction of `t` will have to announce. -/
def draft (t : T) : List (Entry T Op Op.Res Exc) → Option Change
  | [] => none
  | x :: tr => if x.proc = t then (drafted c u x).getD (draft t tr) else draft t tr

/-- A commit makes its process owe what the transaction drafted. -/
def outbox : List (Entry T Op Op.Res Exc) → Outbox T Change
  | [] => {}
  | x :: tr =>
    match x with
    | ⟨t, .sql .commit, .ok _⟩ => (draft c u t tr).elim (outbox tr) ((outbox tr).owe t)
    | ⟨t, .redisPublish topic event, .ok _⟩ =>
      (changeOf c u topic event).elim (outbox tr) ((outbox tr).send t)
    | _ => outbox tr

end Trace

theorem draft_cons_of_ne (h : t' ≠ t) : draft c u t (⟨t', o, r⟩ :: tr) = draft c u t tr := if_neg h

theorem draft_cons :
    draft c u t (⟨t, o, r⟩ :: tr) = (drafted c u ⟨t, o, r⟩).getD (draft c u t tr) := if_pos rfl

/-- Operations that announce nothing and make nobody owe anything. -/
def Mute : Op → Prop
  | .sql .commit | .redisPublish .. => False
  | _ => True

/-- Operations that draft nothing either. -/
def Plain : Op → Prop
  | .sql .commit | .sql .rollback | .sql (.insert .channelMembers ..)
  | .sql (.delete .channelMembers _) | .redisPublish .. => False
  | _ => True

theorem Plain.mute (h : Plain o) : Mute o := by
  cases o with
  | sql q => cases q <;> trivial
  | redisPublish => exact h
  | _ => trivial

theorem outbox_of_mute (h : Mute o) : outbox c u (⟨t, o, r⟩ :: tr) = outbox c u tr := by
  cases o with
  | sql q =>
    cases q with
    | commit => exact h.elim
    | _ => cases r <;> rfl
  | redisPublish => exact h.elim
  | _ => cases r <;> rfl

omit [DecidableEq T] in
theorem drafted_of_plain (h : Plain o) : drafted c u ⟨t, o, r⟩ = none := by
  cases o with
  | sql q =>
    cases q with
    | insert τ k f => cases τ <;> first | exact h.elim | (cases r <;> rfl)
    | delete τ k => cases τ <;> first | exact h.elim | (cases r <;> rfl)
    | commit | rollback => exact h.elim
    | _ => cases r <;> rfl
  | redisPublish => exact h.elim
  | _ => cases r <;> rfl

theorem outbox_commit {v : Unit} : outbox c u (⟨t, .sql .commit, .ok v⟩ :: tr) =
    (draft c u t tr).elim (outbox c u tr) ((outbox c u tr).owe t) := rfl

theorem outbox_publish {topic : Topic} {event : Event} {v : Unit} :
    outbox c u (⟨t, .redisPublish topic event, .ok v⟩ :: tr) =
      (changeOf c u topic event).elim (outbox c u tr) ((outbox c u tr).send t) := rfl

theorem outbox_error {e : Exc} : outbox c u (⟨t, o, .error e⟩ :: tr) = outbox c u tr := by
  cases o with
  | sql q => cases q <;> rfl
  | _ => rfl

/-- What another process does leaves what a process owes. -/
theorem mem_outbox_cons_of_ne {change : Change} (h : t' ≠ t) :
    (t, change) ∈ (outbox c u (⟨t', o, r⟩ :: tr)).waiting ↔
      (t, change) ∈ (outbox c u tr).waiting := by
  by_cases hmute : Mute o
  · rw [outbox_of_mute hmute]
  · cases r with
    | error e => rw [outbox_error]
    | ok v =>
      cases o with
      | sql q =>
        cases q with
        | commit =>
          rw [outbox_commit]
          cases draft c u t' tr with
          | none => rfl
          | some d =>
            rw [Option.elim_some, Outbox.mem_owe]
            simp [Ne.symm h]
        | _ => exact absurd trivial hmute
      | redisPublish topic event =>
        rw [outbox_publish]
        cases changeOf c u topic event with
        | none => rfl
        | some d =>
          rw [Option.elim_some, Outbox.mem_send]
          simp [Ne.symm h]
      | _ => exact absurd trivial hmute

/-! ### What a request owes -/

/-- Request `t` has drafted this announcement, and owes that one. -/
structure Stage (c : ChannelId) (u : UserId) (t : T) (drafts due : Option Change)
    (w : BackendWorld T) : Prop where
  drafts : draft c u t w.trace = drafts
  due : ∀ change, (t, change) ∈ (outbox c u w.trace).waiting ↔ due = some change

/-- Request `t` owes nothing. -/
def Clear (c : ChannelId) (u : UserId) (t : T) (w : BackendWorld T) : Prop :=
  ∀ change, (t, change) ∉ (outbox c u w.trace).waiting

variable {drafts due : Option Change}

theorem Stage.clear (h : Stage c u t drafts none w) : Clear c u t w := by
  intro change hin
  cases (h.due change).mp hin

theorem stage_of_clear (h : Clear c u t w) : Stage c u t (draft c u t w.trace) none w :=
  ⟨rfl, fun change => by simp [h change]⟩

/-- A request publishes what it owes, and commits what it has drafted only when it owes nothing. -/
def Announced (c : ChannelId) (u : UserId) (t : T) (w : BackendWorld T) : Op → Prop
  | .sql .commit => draft c u t w.trace ≠ none → Clear c u t w
  | .redisPublish topic event =>
    ∀ change ∈ changeOf c u topic event, (t, change) ∈ (outbox c u w.trace).waiting
  | _ => True

/-- Every publish succeeds. -/
def published : Machine.Condition T Op Op.Res Exc Choice Tick (State T) where
  op _ o ch _ :=
    match o, ch with
    | .redisPublish .., .ok .. => True
    | .redisPublish .., _ => False
    | _, _ => True
  event _ _ := True

/-- Steps of a run in which every publish succeeds. -/
def announcing (hash : RawToken → TokenHash) (c : ChannelId) (u : UserId) :
    Contract (machine T hash) where
  inv _ := True
  pre := published
  guar t o _ w _ := Announced c u t w o

theorem stable_stage : (announcing hash c' u').Stable t (Stage c u t drafts due) := by
  rintro w w' - - ho ⟨hd, hw⟩
  cases ho with
  | proc hne hpre hexec hguar =>
    exact ⟨(draft_cons_of_ne hne).trans hd, fun change => (mem_outbox_cons_of_ne hne).trans (hw change)⟩
  | event hpre hexec => exact ⟨hd, hw⟩

theorem stable_clear : (announcing hash c' u').Stable t (Clear c u t) := by
  rintro w w' - - ho h
  cases ho with
  | proc hne hpre hexec hguar => exact fun change => (mem_outbox_cons_of_ne hne).not.mpr (h change)
  | event hpre hexec => exact h

theorem announced_of_mute (h : Mute o) : Announced c u t w o := by
  cases o with
  | sql q => cases q <;> trivial
  | redisPublish => exact h.elim
  | _ => trivial

/-- A mute operation drafts what it drafts. -/
theorem Stage.mute (h : Stage c u t drafts due w) (ho : Mute o) :
    Stage c u t ((drafted c u ⟨t, o, r⟩).getD drafts) due (w.after t o r s) where
  drafts := by rw [World.after_trace, draft_cons, h.drafts]
  due change := by
    rw [World.after_trace, outbox_of_mute ho]
    exact h.due change

theorem Clear.mute (h : Clear c u t w) (ho : Mute o) : Clear c u t (w.after t o r s) := by
  intro change
  rw [World.after_trace, outbox_of_mute ho]
  exact h change

theorem safe_mute (ho : Mute o) : (announcing hash c u).Safe t (Prog.perform o)
    (Stage c u t drafts due) (fun v => Stage c u t ((drafted c u ⟨t, o, .ok v⟩).getD drafts) due)
    fun e => Stage c u t ((drafted c u ⟨t, o, .error e⟩).getD drafts) due := by
  refine Contract.Safe.perform (fun _ => stable_stage) (fun _ => stable_stage) ?_
  intro w ch r s _ hw _ _
  refine ⟨trivial, announced_of_mute ho, ?_⟩
  cases r <;> exact hw.mute ho

/-- Plain operations change nothing. -/
theorem safe_plain {p : Py α} (hp : p.Only Plain) : (announcing hash c u).Safe t p
    (Stage c u t drafts due) (fun _ => Stage c u t drafts due) fun _ => Stage c u t drafts due := by
  refine Contract.Safe.only hp stable_stage fun o ho => ?_
  intro w ch r s _ hw _ _
  refine ⟨trivial, announced_of_mute ho.mute, ?_⟩
  have h := hw.mute (s := s) (r := r) ho.mute
  rw [drafted_of_plain ho] at h
  exact h

theorem safe_rollback : (announcing hash c u).Safe t Py.rollback (Clear c u t)
    (fun _ => Stage c u t none none) fun _ => Clear c u t := by
  refine Contract.Safe.perform (fun _ => stable_stage) (fun _ => stable_clear) ?_
  intro w ch r s _ hw _ _
  refine ⟨trivial, trivial, ?_⟩
  cases r with
  | ok v => exact ⟨draft_cons, ((stage_of_clear hw).mute (r := .ok v) trivial).due⟩
  | error e => exact hw.mute trivial

/-- After a commit the request owes what it has drafted. -/
theorem safe_commit : (announcing hash c u).Safe t Py.commit (Stage c u t drafts none)
    (fun _ => Stage c u t none drafts) fun _ => Clear c u t := by
  refine Contract.Safe.perform (fun _ => stable_stage) (fun _ => stable_clear) ?_
  intro w ch r s _ hw _ _
  refine ⟨trivial, fun _ => hw.clear, ?_⟩
  cases r with
  | error e =>
    intro change
    rw [World.after_trace, outbox_error]
    exact hw.clear change
  | ok v =>
    refine ⟨draft_cons, fun change => ?_⟩
    have hclear := hw.clear change
    rw [World.after_trace, outbox_commit, hw.drafts]
    cases drafts with
    | none => simp [hclear]
    | some d =>
      rw [Option.elim_some, Outbox.mem_owe]
      simp [hclear, eq_comm]

/-- After the publish it owes nothing. -/
theorem safe_publish {topic : Topic} {event : Event} (hdue : changeOf c u topic event = due) :
    (announcing hash c u).Safe t (publishChannelEvent event topic) (Stage c u t none due)
      (fun _ => Stage c u t none none) fun _ => Clear c u t := by
  have hperform : (announcing hash c u).Safe t (Prog.perform (Op.redisPublish topic event) : Py Unit)
      (Stage c u t none due) (fun _ => Stage c u t none none) fun _ _ => False := by
    refine Contract.Safe.perform (fun _ => stable_stage) (fun _ => .const False) ?_
    intro w ch r s _ hw hpre hexec
    refine ⟨trivial, fun change hin => (hw.due change).mpr (hdue ▸ hin), ?_⟩
    cases ch with
    | fail e | lost e => exact hpre.elim
    | ok order value =>
      cases hexec
      refine ⟨draft_cons.trans hw.drafts, fun change => ?_⟩
      have hw' := hw.due change
      rw [World.after_trace, outbox_publish, hdue]
      cases due with
      | none => simpa using hw'
      | some d =>
        rw [Option.elim_some, Outbox.mem_send]
        simp
  exact (Contract.Safe.handle hperform fun e => Contract.safe_false _).unraised

/-! ### The requests -/

theorem safe_request {body : Py α}
    (h : (announcing hash c u).Safe t body (Stage c u t none none)
      (fun _ => Stage c u t none none) fun _ => Clear c u t) :
    (announcing hash c u).Safe t (Py.getDbSession body) (Stage c u t none none)
      (fun _ => Clear c u t) fun _ => Clear c u t := by
  have hroll : (announcing hash c u).Safe t Py.rollback (Clear c u t) (fun _ => Clear c u t)
      fun _ => Clear c u t :=
    safe_rollback.mono (fun _ _ hw => hw) (fun _ _ _ hw => hw.clear) fun _ _ _ hw => hw
  exact Py.safe_session (safe_commit.mono (fun _ _ hw => hw) (fun _ _ _ hw => hw.clear)
    fun _ _ _ hw => hw) hroll hroll h

/-- Reading changes nothing. -/
theorem safe_read {p : Py α} (hp : p.Only Plain) : (announcing hash c u).Safe t p
    (Stage c u t drafts none) (fun _ => Stage c u t drafts none) fun _ => Clear c u t :=
  (safe_plain hp).mono (fun _ _ hw => hw) (fun _ _ _ hw => hw) fun _ _ _ hw => hw.clear

/-- Committing and announcing. -/
theorem safe_commitPublish {topic : Topic} {event : Event}
    (hdrafts : changeOf c u topic event = drafts) : (announcing hash c u).Safe t
      (Py.commit.bind fun _ => publishChannelEvent event topic) (Stage c u t drafts none)
      (fun _ => Stage c u t none none) fun _ => Clear c u t :=
  Contract.Safe.bind safe_commit fun _ => safe_publish hdrafts

theorem safe_flushInsert {k : ChannelId × UserId} {f : Time → ChannelMember} :
    (announcing hash c u).Safe t (Py.flushInsert .channelMembers k f) (Stage c u t none none)
      (fun _ => Stage c u t (about c u k .added) none) fun _ => Clear c u t := by
  refine Contract.Safe.bind (Q := fun row => Stage c u t
    (row.bind fun _ => about c u k .added) none) ?_ fun row => ?_
  · refine (safe_mute (o := .sql (.insert .channelMembers k f)) trivial).mono (fun _ _ hw => hw)
      (fun row _ _ hw => ?_) fun _ _ _ hw => hw.clear
    cases row with
    | none => exact hw
    | some m =>
      refine ⟨hw.drafts.trans ?_, hw.due⟩
      simp only [drafted, Option.bind_some]
      cases about c u k .added <;> rfl
  · cases row with
    | none => exact fun _ _ hw => hw.clear
    | some m => exact fun _ _ hw => hw

/-- Either the row is inserted, and drafted, or it was there. -/
theorem safe_insertMembership {role : ChannelMemberRole} : (announcing hash c u).Safe t
    (insertMembership c' u' role) (Stage c u t none none)
    (fun found => Stage c u t (found.elim (fun _ => about c u (c', u') .added) fun _ => none) none)
    fun _ => Clear c u t := by
  refine Contract.Safe.handle (R := fun _ => Clear c u t) ?_ fun e => ?_
  · exact Contract.Safe.bind safe_flushInsert fun _ _ _ hw => hw
  · split
    · refine Contract.Safe.bind safe_rollback fun _ => ?_
      have hget : (getMembership c' u').Only Plain := Prog.only_perform trivial
      refine Contract.Safe.bind (safe_read hget) fun found => ?_
      cases found with
      | none => exact fun _ _ hw => hw.clear
      | some existing => exact fun _ _ hw => hw
    · exact fun _ _ hw => hw

theorem safe_departMember {m : ChannelMember} : (announcing hash c u).Safe t
    (departMember c' u' m) (Stage c u t none none)
    (fun _ => Stage c u t (about c u (c', u') .removed) none) fun _ => Clear c u t := by
  have hdelete : (announcing hash c u).Safe t (Py.flushDelete .channelMembers (c', u'))
      (Stage c u t none none) (fun _ => Stage c u t (about c u (c', u') .removed) none)
      fun _ => Clear c u t := by
    refine Contract.Safe.bind (Q := fun _ => Stage c u t (about c u (c', u') .removed) none) ?_
      fun _ _ _ hw => hw
    refine (safe_mute (o := .sql (.delete .channelMembers (c', u'))) trivial).mono
      (fun _ _ hw => hw) (fun found _ _ hw => ⟨hw.drafts.trans ?_, hw.due⟩) fun _ _ _ hw => hw.clear
    simp only [drafted]
    cases about c u (c', u') .removed <;> rfl
  have hsucceed : (runSoleAdminSuccession u' (some c')).Only Plain :=
    only_runSoleAdminSuccession (fun _ => trivial) (fun _ _ => trivial) (fun _ => trivial) _ _
  unfold departMember
  split
  · exact Contract.Safe.bind (safe_read hsucceed) fun _ => hdelete
  · exact hdelete

theorem plain_authorizeAdmin : (authorizeAdmin c caller).Only Plain := by
  refine (Prog.only_perform trivial).bind fun channel => ?_
  cases channel with
  | none => trivial
  | some channel =>
    refine Prog.Only.bind ?_ fun ids => ?_
    · exact (only_selectForUpdate trivial fun _ => trivial).bind fun _ => trivial
    · show Prog.Only Plain (if _ then _ else (if _ then _ else _))
      split
      · trivial
      · split <;> trivial

theorem plain_get {τ : Tbl} {k : τ.Key} : (Py.get τ k).Only Plain :=
  Prog.only_perform (o := Op.sql (.get τ k)) trivial

theorem plain_countChannelMembers : (countChannelMembers c).Only Plain :=
  Prog.Only.bind (Prog.only_perform (o := Op.sql (.select .channelMembers _)) trivial)
    fun _ => trivial

theorem changeOf_added {channel : Channel} {m : ChannelMember} {count : ℕ} :
    changeOf c u (userTopic u') (.memberAdded c' channel u' m.role m.joinedAt count) =
      about c u (c', u') .added := by
  simp [changeOf, userTopic, about]

theorem changeOf_removed :
    changeOf c u (userTopic u') (.memberRemoved c' u') = about c u (c', u') .removed := by
  simp [changeOf, userTopic, about]

/-- What a join or an addition has drafted, by its outcome. -/
theorem safe_commitAdded {channel : Channel} {m : ChannelMember} {count : ℕ} :
    (announcing hash c u).Safe t
      (Py.commit.bind fun _ => (publishMemberAdded c' channel u' m count).bind fun _ => .ret m)
      (Stage c u t (about c u (c', u') .added) none) (fun _ => Stage c u t none none)
      fun _ => Clear c u t := by
  refine Contract.Safe.bind safe_commit fun _ => ?_
  exact Contract.Safe.bind (safe_publish changeOf_added) fun _ _ _ hw => hw

theorem safe_commitReturn {a : α} : (announcing hash c u).Safe t (Py.commit.bind fun _ => .ret a)
    (Stage c u t none none) (fun _ => Stage c u t none none) fun _ => Clear c u t :=
  Contract.Safe.bind safe_commit fun _ _ _ hw => hw

theorem safe_join : (announcing hash c u).Safe t (joinChannelRoute c' u') (Stage c u t none none)
    (fun _ => Clear c u t) fun _ => Clear c u t := by
  refine safe_request (Contract.Safe.bind (Q := fun outcome => Stage c u t
    (match outcome with
      | .joined .. => about c u (c', u') .added
      | _ => none) none) ?_ fun outcome => ?_)
  · refine Contract.Safe.bind (safe_read plain_get) fun channel => ?_
    match channel with
    | none => exact fun _ _ hw => hw
    | some channel =>
      refine Contract.Safe.bind (safe_read plain_get) fun found => ?_
      match found with
      | some m => exact fun _ _ hw => hw
      | none =>
        show (announcing hash c u).Safe t (if _ then _ else _) _ _ _
        split
        · exact fun _ _ hw => hw
        refine Contract.Safe.bind safe_insertMembership fun row => ?_
        match row with
        | .inr existing => exact fun _ _ hw => hw
        | .inl m =>
          exact Contract.Safe.bind (safe_read plain_countChannelMembers) fun _ _ _ hw => hw
  · cases outcome with
    | notFound => exact fun _ _ hw => hw.clear
    | isPrivate channel => exact fun _ _ hw => hw.clear
    | alreadyMember m channel => exact safe_commitReturn
    | joined m channel count => exact safe_commitAdded

theorem safe_leave : (announcing hash c u).Safe t (leaveChannelRoute c' u') (Stage c u t none none)
    (fun _ => Clear c u t) fun _ => Clear c u t := by
  refine safe_request (Contract.Safe.bind (Q := fun outcome => Stage c u t
    (match outcome with
      | .left => about c u (c', u') .removed
      | .notMember => none) none) ?_ fun outcome => ?_)
  · refine Contract.Safe.bind (safe_read plain_get) fun channel => ?_
    match channel with
    | none => exact fun _ _ hw => hw
    | some channel =>
      refine Contract.Safe.bind (safe_read plain_get) fun found => ?_
      match found with
      | none => exact fun _ _ hw => hw
      | some m => exact Contract.Safe.bind safe_departMember fun _ _ _ hw => hw
  · cases outcome with
    | notMember => exact fun _ _ hw => hw
    | left => exact safe_commitPublish changeOf_removed

theorem safe_add {role : ChannelMemberRole} : (announcing hash c u).Safe t
    (addChannelMemberRoute c' caller u' role) (Stage c u t none none) (fun _ => Clear c u t)
    fun _ => Clear c u t := by
  refine safe_request (Contract.Safe.bind (Q := fun outcome => Stage c u t
    (match outcome with
      | .added .. => about c u (c', u') .added
      | _ => none) none) ?_ fun outcome => ?_)
  · refine Contract.Safe.bind (safe_read plain_authorizeAdmin) fun authorized => ?_
    match authorized with
    | .error refusal => exact fun _ _ hw => hw
    | .ok channel =>
      refine Contract.Safe.bind (safe_read plain_get) fun user => ?_
      match user with
      | none => exact fun _ _ hw => hw
      | some user =>
        refine Contract.Safe.bind (safe_read plain_get) fun found => ?_
        match found with
        | some m => exact fun _ _ hw => hw
        | none =>
          refine Contract.Safe.bind safe_insertMembership fun row => ?_
          match row with
          | .inr existing => exact fun _ _ hw => hw
          | .inl m =>
            exact Contract.Safe.bind (safe_read plain_countChannelMembers) fun _ _ _ hw => hw
  · cases outcome with
    | refused refusal => exact fun _ _ hw => hw.clear
    | alreadyMember m channel => exact safe_commitReturn
    | added m channel count => exact safe_commitAdded

theorem safe_remove : (announcing hash c u).Safe t (removeChannelMemberRoute c' caller u')
    (Stage c u t none none) (fun _ => Clear c u t) fun _ => Clear c u t := by
  refine safe_request (Contract.Safe.bind (Q := fun outcome => Stage c u t
    (match outcome with
      | .removed => about c u (c', u') .removed
      | _ => none) none) ?_ fun outcome => ?_)
  · refine Contract.Safe.bind (safe_read plain_authorizeAdmin) fun authorized => ?_
    match authorized with
    | .error refusal => exact fun _ _ hw => hw
    | .ok channel =>
      refine Contract.Safe.bind (safe_read plain_get) fun user => ?_
      match user with
      | none => exact fun _ _ hw => hw
      | some user =>
        refine Contract.Safe.bind (safe_read plain_get) fun found => ?_
        match found with
        | none => exact fun _ _ hw => hw
        | some m => exact Contract.Safe.bind safe_departMember fun _ _ _ hw => hw
  · cases outcome with
    | refused refusal => exact fun _ _ hw => hw.clear
    | notMember => exact safe_commit
    | removed => exact safe_commitPublish changeOf_removed

/-- Every request announces what it commits. -/
theorem safe_task (task : Task) : (announcing hash c u).Safe t task.program
    (Stage c u t none none) (fun _ => Clear c u t) fun _ => Clear c u t := by
  cases task with
  | join c u => exact Contract.Safe.bind safe_join fun _ _ _ hw => hw
  | leave c u => exact safe_leave
  | add c caller u role => exact Contract.Safe.bind safe_add fun _ _ _ hw => hw
  | remove c caller u => exact safe_remove

/-! ### What a transaction has written -/

/-- What a transaction has written of the row, by the announcement it has drafted: a new row if it is
to be announced; no row only if its removal is; and, if nothing is, a row only where there is one. -/
structure Fits (held : Option (Option (Option ChannelMember) × Option ChannelMember))
    (drafts : Option Change) : Prop where
  added : drafts = some .added → ∃ m x, held = some (some (some m), x)
  kept : drafts = none → ∀ m x, held = some (some (some m), x) → x.isSome
  gone : ∀ x, held = some (some none, x) → drafts = some .removed

/-- What each transaction has written of the row. -/
def Written (c : ChannelId) (u : UserId) (w : BackendWorld T) : Prop :=
  ∀ t, Fits ((w.state.db .channelMembers).mine t (c, u)) (draft c u t w.trace)

variable {held : Option (Option (Option ChannelMember) × Option ChannelMember)}
  {m : ChannelMember} {x : Option ChannelMember}

theorem fits_none : Fits none none := ⟨nofun, fun _ => nofun, nofun⟩

/-- A deletion is drafted whatever it found. -/
theorem fits_removed : Fits held (some .removed) := ⟨nofun, nofun, fun _ _ => rfl⟩

theorem Fits.locked (h : Fits held drafts) (hfree : ∀ v x, held ≠ some (some v, x)) :
    Fits (some (none, x)) drafts where
  added hd := by
    obtain ⟨m, y, hm⟩ := h.added hd
    exact absurd hm (hfree _ _)
  kept _ _ _ hm := nomatch hm
  gone _ hm := nomatch hm

theorem Fits.updated (h : Fits held drafts) (hkept : (∃ m, held = some (some (some m), x)) ∨ x.isSome) :
    Fits (some (some (some m), x)) drafts where
  added _ := ⟨m, x, rfl⟩
  kept hd m' y hm := by
    cases hm
    obtain ⟨m', hheld⟩ | hsome := hkept
    · exact h.kept hd m' x hheld
    · exact hsome
  gone _ hm := nomatch hm

theorem fits_added : Fits (some (some (some m), x)) (some .added) :=
  ⟨fun _ => ⟨m, x, rfl⟩, nofun, nofun⟩

omit [DecidableEq T] in
/-- An operation that leaves the memberships alone drafts nothing. -/
theorem drafted_of_spares (h : Spares .channelMembers o) : drafted c u ⟨t, o, r⟩ = none := by
  cases o with
  | sql q =>
    cases q with
    | insert τ k f => cases τ <;> first | exact absurd rfl h | (cases r <;> rfl)
    | delete τ k => cases τ <;> first | exact absurd rfl h | (cases r <;> rfl)
    | commit | rollback => exact h.elim
    | _ => cases r <;> rfl
  | _ => cases r <;> rfl

/-- Where a transaction has written no version, the row it sees is the committed one. -/
theorem held_of_view {tb : Table T (ChannelId × UserId) ChannelMember} {k : ChannelId × UserId}
    {m : ChannelMember} (hv : tb.view t k = some m) :
    (∃ m, tb.mine t k = some (some (some m), tb.committed k)) ∨ (tb.committed k).isSome := by
  obtain h | ⟨v, hhold, h⟩ := tb.view_cases t k
  · exact .inr (by rw [← h, hv]; rfl)
  · exact .inl ⟨m, Table.mine_eq_some.mpr ⟨by rw [hhold, ← h, hv], rfl⟩⟩

section Step

variable (h : Fits ((w.state.db .channelMembers).mine t (c, u)) (draft c u t w.trace))
  {k : ChannelId × UserId}
include h

theorem Fits.lock {p : ChannelMember → Bool} {r : Except Exc (Option ChannelMember)}
    (hx : (machine T hash).exec t (.sql (.lock .channelMembers k p)) ch w.state = some (r, s)) :
    Fits ((s.db .channelMembers).mine t (c, u)) (draft c u t w.trace) := by
  obtain ⟨rfl, -⟩ | ⟨y, hfree, -, rfl, -⟩ := exec_lockTable hx
  · exact h
  · rw [State.set_db]
    by_cases hk : (c, u) = k
    · subst hk
      by_cases hw : ∃ v x, (w.state.db .channelMembers).mine t (c, u) = some (some v, x)
      · obtain ⟨v, x, hm⟩ := hw
        rw [Table.mine_lock_of_written hm, ← hm]
        exact h
      · have hw' : ∀ v x, (w.state.db .channelMembers).mine t (c, u) ≠ some (some v, x) :=
          fun v x hm => hw ⟨v, x, hm⟩
        rw [Table.mine_lock_self hfree hw']
        exact h.locked hw'
    · rw [Table.mine_lock_of_ne hk]
      exact h

theorem Fits.update {p : ChannelMember → Bool} {f : ChannelMember → ChannelMember}
    {r : Except Exc Bool}
    (hx : (machine T hash).exec t (.sql (.update .channelMembers k p f)) ch w.state = some (r, s)) :
    Fits ((s.db .channelMembers).mine t (c, u)) (draft c u t w.trace) := by
  obtain ⟨rfl, -⟩ | ⟨y, -, hv, -, rfl, -⟩ := exec_updateTable hx
  · exact h
  · rw [State.set_db]
    by_cases hk : (c, u) = k
    · subst hk
      rw [Table.mine_write_self]
      exact h.updated (held_of_view hv)
    · rw [Table.mine_write_of_ne hk]
      exact h

theorem Fits.insert {f : Time → ChannelMember} {r : Except Exc (Option ChannelMember)}
    (hx : (machine T hash).exec t (.sql (.insert .channelMembers k f)) ch w.state = some (r, s)) :
    Fits ((s.db .channelMembers).mine t (c, u))
      (draft c u t (⟨t, .sql (.insert .channelMembers k f), r⟩ :: w.trace)) := by
  rw [draft_cons]
  obtain ⟨rfl, hr⟩ | ⟨now, -, -, rfl, rfl⟩ := exec_insertTable hx
  · have hsame : drafted c u ⟨t, .sql (.insert .channelMembers k f), r⟩ = none := by
      cases r with
      | error e => rfl
      | ok found =>
        cases found with
        | none => rfl
        | some m => exact absurd rfl (hr m)
    rw [hsame]
    exact h
  · rw [State.set_db]
    by_cases hk : (c, u) = k
    · subst hk
      rw [Table.mine_write_self]
      simp only [drafted, about]
      exact fits_added
    · rw [Table.mine_write_of_ne hk]
      simp only [drafted, about, if_neg (Ne.symm hk)]
      exact h

theorem Fits.delete {r : Except Exc Bool}
    (hx : (machine T hash).exec t (.sql (.delete .channelMembers k)) ch w.state = some (r, s)) :
    Fits ((s.db .channelMembers).mine t (c, u))
      (draft c u t (⟨t, .sql (.delete .channelMembers k), r⟩ :: w.trace)) := by
  rw [draft_cons]
  by_cases hk : (c, u) = k
  · subst hk
    cases r with
    | error e =>
      obtain ⟨rfl, -⟩ | ⟨y, -, -, -, hr⟩ := exec_deleteTable hx
      · exact h
      · cases hr
    | ok found =>
      simp only [drafted, about]
      exact fits_removed
  · have hsame : drafted c u ⟨t, .sql (.delete .channelMembers k), r⟩ = none := by
      cases r with
      | error e => rfl
      | ok found =>
        simp only [drafted, about, if_neg (Ne.symm hk)]
        rfl
    rw [hsame]
    obtain ⟨rfl, -⟩ | ⟨y, -, -, rfl, -⟩ := exec_deleteTable hx
    · exact h
    · rw [State.set_db, Table.mine_write_of_ne hk]
      exact h

/-- A step of the transaction itself. -/
theorem Fits.step (hx : (machine T hash).exec t o ch w.state = some (r, s)) :
    Fits ((s.db .channelMembers).mine t (c, u)) (draft c u t (⟨t, o, r⟩ :: w.trace)) := by
  by_cases hspares : Spares .channelMembers o
  · rw [draft_cons, exec_spares hspares hx, drafted_of_spares hspares]
    exact h
  · cases o with
    | sql q =>
      cases q with
      | lock τ k p =>
        obtain rfl := not_not.mp hspares
        have hsame : draft c u t (⟨t, .sql (.lock .channelMembers k p), r⟩ :: w.trace) =
            draft c u t w.trace := by
          rw [draft_cons, drafted_of_plain (o := Op.sql (.lock .channelMembers k p)) trivial]
          rfl
        rw [hsame]
        exact h.lock hx
      | update τ k p f =>
        obtain rfl := not_not.mp hspares
        have hsame : draft c u t (⟨t, .sql (.update .channelMembers k p f), r⟩ :: w.trace) =
            draft c u t w.trace := by
          rw [draft_cons, drafted_of_plain (o := Op.sql (.update .channelMembers k p f)) trivial]
          rfl
        rw [hsame]
        exact h.update hx
      | insert τ k f =>
        obtain rfl := not_not.mp hspares
        exact h.insert hx
      | delete τ k =>
        obtain rfl := not_not.mp hspares
        exact h.delete hx
      | commit =>
        rw [draft_cons]
        obtain ⟨rfl, e, rfl⟩ | ⟨rfl, rfl⟩ := exec_commitAll hx
        · exact h
        · simp only [Db.commit_apply, Table.mine_commit]
          exact fits_none
      | rollback =>
        rw [draft_cons]
        obtain ⟨rfl, e, rfl⟩ | ⟨rfl, rfl⟩ := exec_rollbackAll hx
        · exact h
        · simp only [Db.rollback_apply, Table.mine_rollback]
          exact fits_none
      | select | get => exact absurd trivial hspares
    | _ => exact absurd trivial hspares

end Step

theorem Written.step (h : Written c u w)
    (hx : (machine T hash).exec t o ch w.state = some (r, s)) : Written c u (w.after t o r s) := by
  intro t'
  by_cases ht : t = t'
  · subst ht
    exact (h t).step hx
  · rw [World.after_state, World.after_trace, draft_cons_of_ne ht,
      (exec_keeps ht hx .channelMembers).mine]
    exact h t'

/-- What a commit makes of the row, by the announcement drafted. -/
theorem Fits.view (h : Fits ((w.state.db .channelMembers).mine t (c, u)) drafts) :
    (drafts = some .added → ((w.state.db .channelMembers).view t (c, u)).isSome) ∧
      (drafts = none → ((w.state.db .channelMembers).view t (c, u)).isSome =
        (membership w c u).isSome) := by
  constructor
  · intro hd
    obtain ⟨m, x, hm⟩ := h.added hd
    rw [Table.view_of_mine hm]
    rfl
  · intro hd
    obtain hv | ⟨v, hhold, hv⟩ := (w.state.db .channelMembers).view_cases t (c, u)
    · rw [hv]
      rfl
    · have hm := Table.mine_eq_some.mpr ⟨hhold, rfl⟩
      cases v with
      | none => exact nomatch hd.symm.trans (h.gone _ hm)
      | some m =>
        rw [hv]
        exact (h.kept hd m _ hm).symm

/-! ### In the order of the commits -/

/-- Every publish succeeds; an event is published only when no earlier change of the row is still to
be announced by another request; and a transaction that has asked for the row to be deleted commits
only where it leaves no row. -/
def orderly (c : ChannelId) (u : UserId) :
    Machine.Condition T Op Op.Res Exc Choice Tick (State T) where
  op t o ch w := published.op t o ch w ∧
    match o with
    | .redisPublish topic event =>
      (changeOf c u topic event).isSome → (outbox c u w.trace).InTurn t
    | .sql .commit => draft c u t w.trace = some .removed →
      (w.state.db .channelMembers).view t (c, u) = none
    | _ => True
  event _ _ := True

/-- The announcement of the latest change, made or not, agrees with the row. -/
structure InOrder (c : ChannelId) (u : UserId) (w : BackendWorld T) : Prop where
  single : (outbox c u w.trace).Single
  last : (outbox c u w.trace).last = lastEvent c u w.state.published
  latest : ∀ change, (outbox c u w.trace).latest = some change →
    (change = .added ↔ (membership w c u).isSome)

theorem lastEvent_append {published : List (Topic × Event)} {topic : Topic} {event : Event} :
    lastEvent c u (published ++ [(topic, event)]) =
      (changeOf c u topic event).or (lastEvent c u published) := by
  cases hc : changeOf c u topic event with
  | none => simp [lastEvent, List.filterMap_append, hc]
  | some change => simp [lastEvent, List.filterMap_append, hc]

/-- A step that announces nothing and commits nothing. -/
theorem InOrder.aside (h : InOrder c u w) (hb : outbox c u (⟨t, o, r⟩ :: w.trace) = outbox c u w.trace)
    (hp : lastEvent c u s.published = lastEvent c u w.state.published)
    (hm : (s.db .channelMembers).committed (c, u) = membership w c u) :
    InOrder c u (w.after t o r s) where
  single := by
    rw [World.after_trace, hb]
    exact h.single
  last := by
    rw [World.after_trace, World.after_state, hb, hp]
    exact h.last
  latest := by
    show ∀ change, (outbox c u (⟨t, o, r⟩ :: w.trace)).latest = some change →
      (change = .added ↔ ((s.db .channelMembers).committed (c, u)).isSome)
    rw [hb, hm]
    exact h.latest

/-- A commit makes the row what the transaction sees, and owes what it has drafted. -/
theorem InOrder.commit (h : InOrder c u w) (hw : Written c u w)
    (hclear : draft c u t w.trace ≠ none → Clear c u t w)
    (hgone : draft c u t w.trace = some .removed →
      (w.state.db .channelMembers).view t (c, u) = none) :
    InOrder c u (w.after t (.sql .commit) (.ok ()) { w.state with db := w.state.db.commit t }) := by
  have hview := (hw t).view
  cases hd : draft c u t w.trace with
  | none =>
    have hb : outbox c u (⟨t, .sql .commit, .ok ()⟩ :: w.trace) = outbox c u w.trace := by
      rw [outbox_commit, hd]
      rfl
    refine ⟨?_, ?_, fun change hlatest => ?_⟩
    · rw [World.after_trace, hb]
      exact h.single
    · rw [World.after_trace, hb]
      exact h.last
    · rw [World.after_trace, hb] at hlatest
      rw [h.latest change hlatest, ← hview.2 hd]
      rfl
  | some d =>
    have hb : outbox c u (⟨t, .sql .commit, .ok ()⟩ :: w.trace) = (outbox c u w.trace).owe t d := by
      rw [outbox_commit, hd]
      rfl
    refine ⟨?_, ?_, fun change hlatest => ?_⟩
    · rw [World.after_trace, hb]
      refine h.single.owe (hclear ?_)
      rw [hd]
      exact nofun
    · rw [World.after_trace, hb]
      exact h.last
    · rw [World.after_trace, hb, Outbox.latest_owe] at hlatest
      cases hlatest
      show d = .added ↔ ((w.state.db .channelMembers).view t (c, u)).isSome
      cases d with
      | added => simp [hview.1 hd]
      | removed => simp [hgone hd]

/-- **A step of an orderly run keeps the order.** -/
theorem InOrder.step (h : InOrder c u w) (hw : Written c u w) (hC : (orderly c u).op t o ch w)
    (hx : (machine T hash).exec t o ch w.state = some (r, s)) (hg : Announced c u t w o) :
    InOrder c u (w.after t o r s) := by
  obtain ⟨hsucceeds, hcond⟩ := hC
  by_cases hmute : Mute o
  · have hcommit : o ≠ .sql .commit := by
      rintro rfl
      exact hmute
    have hpublish : ∀ topic event, o ≠ .redisPublish topic event := by
      rintro topic event rfl
      exact hmute
    exact h.aside (outbox_of_mute hmute) (by rw [exec_published hpublish hx])
      (congrFun (exec_committed_db hcommit hx .channelMembers) (c, u))
  · cases o with
    | sql q =>
      cases q with
      | commit =>
        obtain ⟨rfl, e, rfl⟩ | ⟨rfl, rfl⟩ := exec_commitAll hx
        · exact h.aside outbox_error rfl rfl
        · exact h.commit hw hg hcond
      | _ => exact absurd trivial hmute
    | redisPublish topic event =>
      cases ch with
      | fail e | lost e => exact hsucceeds.elim
      | ok order value =>
        cases hx
        cases hc : changeOf c u topic event with
        | none =>
          refine h.aside ?_ ?_ rfl
          · rw [outbox_publish, hc]
            rfl
          · rw [lastEvent_append, hc]
            rfl
        | some change =>
          have hb : outbox c u (⟨t, .redisPublish topic event, .ok ()⟩ :: w.trace) =
              (outbox c u w.trace).send t change := by
            rw [outbox_publish, hc]
            rfl
          have hturn : (outbox c u w.trace).InTurn t := hcond (by rw [hc]; rfl)
          have hdue : (t, change) ∈ (outbox c u w.trace).waiting := hg change hc
          refine ⟨?_, ?_, ?_⟩
          · rw [World.after_trace, hb]
            exact h.single.send
          · rw [World.after_trace, hb, World.after_state, lastEvent_append, hc]
            rfl
          · rw [World.after_trace, hb, Outbox.latest_send h.single hturn hdue]
            exact h.latest
    | _ => exact absurd trivial hmute

/-! ### The result -/

/-- Before the first request: no transaction on the memberships, and nothing published. -/
structure Start (task : T → Task) (p : Pool T Op Op.Res Exc Unit (State T)) : Prop where
  prog : ∀ t, p.prog t = (task t).program
  trace : p.world.trace = []
  hold : ∀ k, (p.world.state.db .channelMembers).hold k = none
  published : p.world.state.published = []

variable {p q : Pool T Op Op.Res Exc Unit (State T)} {ls : List (Label T Choice Tick)}

theorem Start.stage (h : Start task p) : Stage c u t none none p.world where
  drafts := by rw [h.trace]; rfl
  due change := by rw [h.trace]; simp [outbox]

theorem Start.sound (h : Start task p) : (announcing hash c u).Sound (fun t _ => Clear c u t)
    (fun t _ => Clear c u t) p where
  inv := trivial
  safe t := ⟨Stage c u t none none, stable_stage, h.stage, by rw [h.prog]; exact safe_task (task t)⟩

theorem Start.written (h : Start task p) : Written c u p.world := by
  intro t
  have hfree : (p.world.state.db .channelMembers).mine t (c, u) = none := by
    simp [Table.mine, h.hold]
  rw [hfree, h.trace]
  exact fits_none

theorem Start.inOrder (h : Start task p) : InOrder c u p.world where
  single := by
    rw [h.trace]
    exact List.nodup_nil
  last := by
    rw [h.trace, h.published]
    rfl
  latest change hlatest := by
    rw [h.trace] at hlatest
    cases hlatest

/-- **The order of membership events.**  In a run of joins, leaves, additions and removals in which
every publish succeeds and is in turn, and every transaction that has asked for the row to be deleted
leaves no row, the last event that tells the user of their membership in the channel agrees with the
membership, once every request has ended. -/
theorem membership_event_order (hp : Start task p)
    (hC : (machine T hash).Meets (orderly c u) p ls) (hr : (machine T hash).run p ls = some q)
    (hend : ∀ t, (q.prog t).next = none) {change : Change}
    (hlast : lastEvent c u q.world.state.published = some change) :
    change = .added ↔ (membership q.world c u).isSome := by
  have hstart : (announcing hash c u).Sound (fun t _ => Clear c u t) (fun t _ => Clear c u t) p :=
    hp.sound
  have h := hstart.invariant (C := orderly c u)
    (P := fun w => Written c u w ∧ InOrder c u w) (fun _ _ _ _ hop => hop.1) (fun _ _ _ => trivial)
    (fun t o ch r w s hw hop hx hg => ⟨hw.1.step hx, hw.2.step hw.1 hop hx hg⟩) ?_
    (fun _ _ _ _ _ _ => trivial) ⟨hp.written, hp.inOrder⟩ hC hr
  · obtain ⟨hsound, -, hord⟩ := h
    have hnil : (outbox c u q.world.trace).waiting = [] := by
      refine List.eq_nil_iff_forall_not_mem.mpr ?_
      rintro ⟨t, change⟩ hin
      have hclear : Clear c u t q.world := by
        cases hq : q.prog t with
        | ret a => exact hsound.ret hq
        | raise e => exact hsound.raise hq
        | call o k => exact absurd hq (Prog.ne_call_of_next (hend t) o k)
      exact hclear change hin
    refine hord.latest change ?_
    rw [Outbox.latest_of_waiting_nil hnil, hord.last, hlast]
  · rintro e w s ⟨hw, hord⟩ hx
    cases hx
    exact ⟨hw, hord.single, hord.last, hord.latest⟩

/-- User 9, a member of channel 1, leaves twice and joins. -/
def comeAndGo : Fin 3 → Task
  | 0 => .leave 1 9
  | 1 => .leave 1 9
  | 2 => .join 1 9

def member9 : Pool (Fin 3) Op Op.Res Exc Unit (State (Fin 3)) where
  world := ⟨State.ofRows fun
    | .channels => [(1, ⟨['a'], false, 10, 0⟩)]
    | .channelMembers => [((1, 10), ⟨.admin, 0⟩), ((1, 9), ⟨.member, 0⟩)]
    | _ => [], []⟩
  prog t := (comeAndGo t).program

theorem start_member9 : Start comeAndGo member9 := ⟨fun _ => rfl, rfl, fun _ => rfl, rfl⟩

/-- `k` awaits of request `t`. -/
def awaits (t : Fin 3) (k : ℕ) : List (Label (Fin 3) Choice Tick) :=
  List.replicate k (.proc t (.ok [] 1))

instance (t : T) (o : Op) (ch : Choice) (w : BackendWorld T) :
    Decidable ((published (T := T)).op t o ch w) := by
  unfold published
  dsimp only
  split <;> infer_instance

instance (e : Tick) (w : BackendWorld T) : Decidable ((published (T := T)).event e w) :=
  .isTrue trivial

instance (t : T) (o : Op) (ch : Choice) (w : BackendWorld T) :
    Decidable ((orderly c u).op t o ch w) := by
  unfold orderly
  dsimp only
  split <;> infer_instance

instance (e : Tick) (w : BackendWorld T) : Decidable ((orderly (T := T) c u).event e w) :=
  .isTrue trivial

/-- One leave after the other, and the join. -/
def oneByOne : List (Label (Fin 3) Choice Tick) := awaits 0 7 ++ awaits 1 4 ++ awaits 2 8

theorem membership_event_order_oneByOne : ∃ q, (machine (Fin 3) id).run member9 oneByOne = some q ∧
    lastEvent 1 9 q.world.state.published = some .added ∧
    (Change.added = .added ↔ (membership q.world 1 9).isSome) := by
  obtain ⟨q, hq⟩ : ∃ q, (machine (Fin 3) id).run member9 oneByOne = some q :=
    Option.isSome_iff_exists.mp (by decide +kernel)
  have hfacts : ((machine (Fin 3) id).run member9 oneByOne).all fun q =>
      decide (∀ t, (q.prog t).next.isNone = true) &&
        decide (lastEvent 1 9 q.world.state.published = some .added) := by decide +kernel
  simp only [hq, Option.all_some, Bool.and_eq_true, decide_eq_true_eq,
    Option.isNone_iff_eq_none] at hfacts
  exact ⟨q, hq, hfacts.2,
    membership_event_order start_member9 (by decide +kernel) hq hfacts.1 hfacts.2⟩

/-- The user joins between the commit and the publish of the leave. -/
def overtaken : List (Label (Fin 3) Choice Tick) :=
  awaits 0 4 ++ awaits 1 4 ++ awaits 2 8 ++ awaits 0 3

/-- Both leaves read the row before one deletes it, and the user joins before the other commits. -/
def removedNothing : List (Label (Fin 3) Choice Tick) :=
  awaits 0 2 ++ awaits 1 2 ++ awaits 0 5 ++ awaits 1 1 ++ awaits 2 8 ++ awaits 1 4

/-- All requests return, and a member was told last that they were removed. -/
def EndsDisordered (ls : List (Label (Fin 3) Choice Tick)) : Prop :=
  ∃ q, (machine (Fin 3) id).run member9 ls = some q ∧
    (machine (Fin 3) id).Meets published member9 ls ∧ (∀ t, (q.prog t).next = none) ∧
    lastEvent 1 9 q.world.state.published = some .removed ∧ (membership q.world 1 9).isSome

/-- **In both the user is told last that they were removed, and is a member.** -/
theorem disordered : EndsDisordered overtaken ∧ EndsDisordered removedNothing := by
  have hboth : ∀ ls ∈ [overtaken, removedNothing],
      (machine (Fin 3) id).Meets published member9 ls ∧
        ((machine (Fin 3) id).run member9 ls).any (fun q =>
          decide (∀ t, (q.prog t).next.isNone = true) &&
            (decide (lastEvent 1 9 q.world.state.published = some .removed) &&
              (membership q.world 1 9).isSome)) := by decide +kernel
  have hends : ∀ ls ∈ [overtaken, removedNothing], EndsDisordered ls := by
    intro ls hls
    obtain ⟨hC, hany⟩ := hboth ls hls
    simp only [Option.any_eq_true, Bool.and_eq_true, decide_eq_true_eq,
      Option.isNone_iff_eq_none] at hany
    obtain ⟨q, hq, hfacts⟩ := hany
    exact ⟨q, hq, hC, hfacts.1, hfacts.2.1, hfacts.2.2⟩
  exact ⟨hends _ (by simp), hends _ (by simp)⟩

end Chatspace.MembershipEvents
