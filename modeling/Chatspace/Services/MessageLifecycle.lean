import Chatspace.Backend.Tables
import Chatspace.Services.MessageEdits

/-!
# The life of a message

Edits and deletions of one message, step by step in any order.

* `noLostUpdate` — an edit or a deletion updates no row that is deleted already;
* `message_settles` — **then a deleted message never changes, its deletion is published exactly
  once, and no edit that commits later is published**;
* `deleted_twice` — two deletions that both found the message not deleted.
-/

namespace Chatspace.MessageLifecycle

open Interleave Store Messages

/-- One call of the author. -/
inductive Task where
  | edit (content : Text)
  | delete
deriving DecidableEq

def Task.deletes : Task → Bool
  | .edit _ => false
  | .delete => true

def Task.program (messageId : MessageId) (callerId : UserId) : Task → Py Unit
  | .edit content => (editMessageRoute messageId callerId content).bind fun _ => .ret ()
  | .delete => deleteMessageRoute messageId callerId

variable {T : Type} [DecidableEq T] {hash : RawToken → TokenHash} {task : T → Task} {t t' : T}
  {m : MessageId} {u : UserId} {w w' : BackendWorld T} {s : State T} {o : Op}
  {r : Except Exc o.Res}

/-- The committed message. -/
def message (w : BackendWorld T) (m : MessageId) : Option Message :=
  (w.state.db .messages).committed m

def deletedAt (w : BackendWorld T) (m : MessageId) : Option Time :=
  (message w m).bind MessageOf.deletedAt

/-- The message whose deletion, or whose edit, an event announces. -/
def deletedId : Event → Option MessageId
  | .messageDeleted _ id _ => some id
  | _ => none

def editedId : Event → Option MessageId
  | .messageEdited _ id _ _ => some id
  | _ => none

/-- How often the deletion of the message has been published. -/
def deletions (w : BackendWorld T) (m : MessageId) : ℕ :=
  w.state.published.countP fun e => deletedId e.2 = some m

/-- Call `t` updated the row. -/
def Updates (t : T) (m : MessageId) : Entry T Op Op.Res Exc → Prop
  | ⟨p, .sql (.update .messages k _ _), .ok true⟩ => p = t ∧ k = m
  | _ => False

/-- Call `t` published the deletion. -/
def Announces (t : T) (m : MessageId) : Entry T Op Op.Res Exc → Prop
  | ⟨p, .redisPublish _ event, .ok ()⟩ => p = t ∧ deletedId event = some m
  | _ => False

/-- Call `t` published an edit. -/
def AnnouncesEdit (t : T) (m : MessageId) : Entry T Op Op.Res Exc → Prop
  | ⟨p, .redisPublish _ event, .ok ()⟩ => p = t ∧ editedId event = some m
  | _ => False

/-- Call `t` updated the row, and committed after that. -/
def Changed (m : MessageId) (t : T) (w : BackendWorld T) : Prop :=
  CommittedWhen t (fun older => ∃ e ∈ older, Updates t m e) w

omit [DecidableEq T] in
theorem Updates.proc {e : Entry T Op Op.Res Exc} (h : Updates t m e) : e.proc = t := by
  unfold Updates at h
  split at h
  · exact h.1
  · exact h.elim

omit [DecidableEq T] in
theorem Announces.proc {e : Entry T Op Op.Res Exc} (h : Announces t m e) : e.proc = t := by
  unfold Announces at h
  split at h
  · exact h.1
  · exact h.elim

/-- An update meets a row that is not deleted, and a publish succeeds. -/
abbrev noLostUpdate (m : MessageId) :
    Machine.Condition T Op Op.Res Exc Choice Tick (State T) where
  op _ o c w := (∀ k ∈ o.updated .messages, k = m → deletedAt w m = none) ∧
    (o.isPublish = true → c.isOk = true)
  event _ _ := True

/-! ### What a call knows -/

def watched : List Tbl := [.messages]

theorem messages_mem : Tbl.messages ∈ watched := by simp [watched]

/-- A publish. -/
def Noted : Op → Prop
  | .redisPublish .. => True
  | _ => False

/-- The call has not updated the row, -/
def NoUpdates (m : MessageId) (t : T) (w : BackendWorld T) : Prop :=
  ∀ e ∈ w.trace, e.proc = t → ¬ Updates t m e

/-- and it has not published the deletion. -/
def Silent (m : MessageId) (t : T) (w : BackendWorld T) : Prop :=
  ∀ e ∈ w.trace, e.proc = t → ¬ Announces t m e

def Announced (m : MessageId) (t : T) (w : BackendWorld T) : Prop :=
  ∃ e ∈ w.trace, Announces t m e

/-- Before the update. -/
def Idle (m : MessageId) (t : T) (w : BackendWorld T) : Prop :=
  Unwritten .messages t w ∧ NoUpdates m t w ∧ Silent m t w

/-- After the update: the committed row is not deleted. -/
def Pending (task : T → Task) (m : MessageId) (t : T) (w : BackendWorld T) : Prop :=
  (∃ x x' : Message, (w.state.db .messages).mine t m = some (some (some x'), some x) ∧
      x.deletedAt = none ∧ x'.deletedAt.isSome = (task t).deletes) ∧
    (∃ e ∈ w.trace, Updates t m e) ∧ ¬ Changed m t w ∧ Silent m t w

/-- After the commit, before the publish. -/
def Owing (m : MessageId) (t : T) (w : BackendWorld T) : Prop :=
  Unwritten .messages t w ∧ Changed m t w ∧ Silent m t w

/-- The call has changed nothing, or has published what it had to. -/
def Done (task : T → Task) (m : MessageId) (t : T) (w : BackendWorld T) : Prop :=
  Unwritten .messages t w ∧
    (NoUpdates m t w ∨ Changed m t w ∧ ((task t).deletes = true → Announced m t w))

/-- What is left of that when the call raises. -/
def Paid (task : T → Task) (m : MessageId) (t : T) (w : BackendWorld T) : Prop :=
  ¬ Changed m t w ∨ ((task t).deletes = true → Announced m t w)

/-- What a call may commit. -/
def Fit (task : T → Task) (m : MessageId) (t : T) (w : BackendWorld T) : Prop :=
  (Unwritten .messages t w ∧ (NoUpdates m t w ∨ Changed m t w)) ∨ Pending task m t w

/-- What is known of a call that performs the operation. -/
def Disciplined (task : T → Task) (m : MessageId) (t : T) :
    (o : Op) → Except Exc o.Res → BackendWorld T → Prop
  | .sql .commit, .ok _, w => Fit task m t w
  | .redisPublish _ event, _, w =>
    (deletedId event = some m → (task t).deletes = true ∧ Owing m t w) ∧
      (editedId event = some m → Changed m t w)
  | _, _, _ => True

/-- Every step is disciplined. -/
def discipline (hash : RawToken → TokenHash) (task : T → Task) (m : MessageId) :
    Contract (machine T hash) where
  inv _ := True
  pre := noLostUpdate m
  guar t o r w _ := Disciplined task m t o r w

theorem aboutCommitted : AboutCommitted (discipline hash task m) watched Noted := by
  intro t o r w s hN _ hne _ _
  refine ⟨trivial, ?_⟩
  show Disciplined task m t o r w
  unfold Disciplined
  split
  · exact absurd rfl (hne t)
  · exact absurd trivial hN
  · trivial

theorem allows : Allows (discipline hash task m) watched Noted :=
  aboutCommitted.allows messages_mem fun _ => id

variable {K : Contract (machine T hash)} {A : BackendWorld T → Prop}

theorem kept_noUpdates : Kept K watched Noted t (NoUpdates m t) := by
  refine Kept.own fun e he h => ?_
  unfold Updates at h
  split at h
  · exact absurd rfl (he.spares .messages messages_mem)
  · exact h

theorem kept_silent : Kept K watched Noted t (Silent m t) := by
  refine Kept.own fun e he h => ?_
  unfold Announces at h
  split at h
  · exact he.unnoted trivial
  · exact h

theorem kept_idle : Kept K watched Noted t (Idle m t) :=
  (kept_unwritten messages_mem).and (kept_noUpdates.and kept_silent)

theorem kept_pending : Kept K watched Noted t (Pending task m t) :=
  (Kept.mine messages_mem (P := fun n => ∃ x x' : Message, n m = some (some (some x'), some x) ∧
      x.deletedAt = none ∧ x'.deletedAt.isSome = (task t).deletes)).and
    (Kept.seen.and ((Kept.notCommittedWhen messages_mem).and kept_silent))

theorem kept_owing : Kept K watched Noted t (Owing m t) :=
  (kept_unwritten messages_mem).and (Kept.committedWhen.and kept_silent)

theorem kept_done : Kept K watched Noted t (Done task m t) :=
  (kept_unwritten messages_mem).and (kept_noUpdates.or (Kept.committedWhen.and (.imp .seen)))

theorem kept_paid : Kept K watched Noted t (Paid task m t) :=
  (Kept.notCommittedWhen messages_mem).or (.imp .seen)

omit [DecidableEq T] in
theorem not_changed_of_noUpdates (h : NoUpdates m t w) : ¬ Changed m t w := by
  rintro ⟨newer, older, htrace, e, he, hupdates⟩
  have hmem : e ∈ w.trace := by
    rw [htrace]
    exact List.mem_append_right _ (List.mem_cons_of_mem _ he)
  exact h e hmem hupdates.proc hupdates

theorem paid_of_idle (h : Idle m t w) : Paid task m t w := .inl (not_changed_of_noUpdates h.2.1)

theorem paid_of_pending (h : Pending task m t w) : Paid task m t w := .inl h.2.2.1

theorem paid_of_done (h : Done task m t w) : Paid task m t w :=
  h.2.imp not_changed_of_noUpdates And.right

omit [DecidableEq T] in
theorem paid_of_edits (ht : (task t).deletes = false) : Paid task m t w :=
  .inr fun hd => nomatch ht.symm.trans hd

omit [DecidableEq T] in
/-- What was paid is paid after any step but a commit. -/
theorem Paid.after (h : Paid task m t w)
    (hne : (⟨t, o, r⟩ : Entry T Op Op.Res Exc) ≠ ⟨t, .sql .commit, .ok ()⟩) :
    Paid task m t (w.after t o r s) := by
  refine h.imp (fun h hc => ?_) fun h hd => ?_
  · rcases committedWhen_after hc with hc | ⟨he, -⟩
    · exact h hc
    · exact hne he
  · rcases h hd with ⟨e, he, ha⟩
    exact ⟨e, List.mem_cons_of_mem _ he, ha⟩

/-- Quiet operations, whose exceptions leave nothing unpaid. -/
theorem safe_quiet {α : Type} {p : Py α} (hA : Kept (discipline hash task m) watched Noted t A)
    (hpaid : ∀ w, A w → Paid task m t w) (hp : p.Only (Quiet watched Noted)) :
    (discipline hash task m).Safe t p A (fun _ => A) fun _ => Paid task m t :=
  (Contract.Safe.only hp hA.stable fun _ ho => hA.step allows ho).mono (fun _ _ hw => hw)
    (fun _ _ _ hw => hw) fun _ w _ hw => hpaid w hw

/-! ### Commits and rollbacks -/

/-- A commit: if it fails nothing is left unpaid, and if it is carried out the rows are let go. -/
theorem safe_commit {B : BackendWorld T → Prop} (hA : ∀ w, A w → Fit task m t w)
    (hpaid : ∀ w, A w → Paid task m t w) (hB : (discipline hash task m).Stable t B)
    (h : ∀ w s, A w → (∀ k, (s.db .messages).mine t k = none) →
      B (w.after t (.sql .commit) (.ok ()) s)) :
    (discipline hash task m).Safe t Py.commit A (fun _ => B) fun _ => Paid task m t := by
  refine Contract.Safe.perform (fun _ => hB) (fun _ => kept_paid.stable) fun w ch r s hi hw _ hx => ?_
  rcases exec_commitAll hx with ⟨rfl, e, rfl⟩ | ⟨rfl, rfl⟩
  · rcases aboutCommitted.failed id hi with ⟨hi', hg⟩
    exact ⟨hi', hg, (hpaid w hw).after nofun⟩
  · exact ⟨trivial, hA w hw, h w _ hw fun _ => Table.mine_commit⟩

omit [DecidableEq T] in
theorem NoUpdates.after (h : NoUpdates m t w) (ho : ¬ Updates t m ⟨t, o, r⟩) :
    NoUpdates m t (w.after t o r s) := own_after h ho

omit [DecidableEq T] in
theorem Silent.after (h : Silent m t w) (ho : ¬ Announces t m ⟨t, o, r⟩) :
    Silent m t (w.after t o r s) := own_after h ho

/-- A call that is done stays so when it lets go of its rows. -/
theorem Done.after (h : Done task m t w) (ho : ¬ Updates t m ⟨t, o, r⟩)
    (hs : Unwritten .messages t (w.after t o r s)) : Done task m t (w.after t o r s) := by
  refine ⟨hs, h.2.imp (fun h => h.after ho) fun ⟨hchanged, hann⟩ => ⟨hchanged.after, fun hd => ?_⟩⟩
  rcases hann hd with ⟨e, he, ha⟩
  exact ⟨e, List.mem_cons_of_mem _ he, ha⟩

theorem done_of_idle (h : Idle m t w) : Done task m t w := ⟨h.1, .inl h.2.1⟩

/-- The commit of a call that is done. -/
theorem safe_commitDone : (discipline hash task m).Safe t Py.commit (Done task m t)
    (fun _ => Done task m t) fun _ => Paid task m t :=
  safe_commit (fun _ h => .inl ⟨h.1, h.2.imp id And.left⟩) (fun _ h => paid_of_done h)
    kept_done.stable fun _ _ h hmine => h.after id (unwritten_of_released hmine)

/-- The commit of the update. -/
theorem safe_commitPending : (discipline hash task m).Safe t Py.commit (Pending task m t)
    (fun _ => Owing m t) fun _ => Paid task m t := by
  refine safe_commit (fun _ h => .inr h) (fun _ h => paid_of_pending h) kept_owing.stable
    fun w s h hmine => ⟨unwritten_of_released hmine, ?_, h.2.2.2.after id⟩
  exact ⟨[], w.trace, rfl, h.2.1⟩

theorem step_rollback {B : BackendWorld T → Prop}
    (h : ∀ w r s, B w → Unwritten .messages t (w.after t (.sql .rollback) r s) ∨ s = w.state →
      B (w.after t (.sql .rollback) r s)) :
    (discipline hash task m).StepOk t B (.sql .rollback) fun _ => B := by
  intro w ch r s hi hw _ hx
  rcases aboutCommitted.uncommitted (q := .rollback) nofun id hx hi with ⟨hi', hg⟩
  refine ⟨hi', hg, h w r s hw ?_⟩
  rcases exec_rollbackAll hx with ⟨rfl, -⟩ | ⟨rfl, -⟩
  · exact .inr rfl
  · exact .inl (unwritten_of_released fun _ => Table.mine_rollback)

theorem safe_rollbackPaid : (discipline hash task m).Safe t Py.rollback (Paid task m t)
    (fun _ => Paid task m t) fun _ => Paid task m t :=
  Contract.Safe.only (Prog.only_perform (P := (· = .sql .rollback)) rfl) kept_paid.stable
    fun o ho => by
      subst ho
      exact step_rollback fun w r s h _ => h.after nofun

theorem safe_rollbackDone : (discipline hash task m).Safe t Py.rollback (Done task m t)
    (fun _ => Done task m t) fun _ => Paid task m t := by
  refine (Contract.Safe.only (Prog.only_perform (P := (· = .sql .rollback)) rfl) kept_done.stable
    fun o ho => ?_).mono (fun _ _ hw => hw) (fun _ _ _ hw => hw) fun _ _ _ hw => paid_of_done hw
  subst ho
  refine step_rollback fun w r s h hs => h.after id ?_
  rcases hs with hs | rfl
  · exact hs
  · exact h.1

/-! ### The calls -/

/-- The update: the row it meets is not deleted. -/
theorem safe_update {f : Message → Message}
    (hf : ∀ x, x.deletedAt = none → (f x).deletedAt.isSome = (task t).deletes) :
    (discipline hash task m).Safe t (Py.flushUpdate .messages m f) (Idle m t)
      (fun _ => Pending task m t) fun _ => Paid task m t := by
  refine Contract.Safe.await (fun matched w => (matched = true → Pending task m t w) ∧
    (matched = false → Paid task m t w)) (fun _ => .and (.imp fun _ => kept_pending.stable)
    (.imp fun _ => kept_paid.stable)) (fun _ => kept_paid.stable) (fun w ch r s hi hw hp h => ?_)
    fun matched => ?_
  · rcases aboutCommitted.uncommitted (q := .update ..) nofun id h hi with ⟨hi', hg⟩
    refine ⟨hi', hg, ?_⟩
    have hpaid : Paid task m t (w.after t (.sql (.update .messages m (fun _ => true) f)) r s) :=
      (paid_of_idle hw).after nofun
    rcases hw with ⟨hunwritten, hno, hsilent⟩
    rcases exec_updateTable h with ⟨rfl, hr⟩ | ⟨x, -, hx, -, rfl, rfl⟩
    · cases r with
      | error e => exact hpaid
      | ok matched =>
        refine ⟨fun hm => absurd (by rw [hm]) hr, fun _ => hpaid⟩
    refine ⟨fun _ => ⟨⟨x, f x, ?_, ?_, ?_⟩, ⟨_, List.mem_cons_self, rfl, rfl⟩, ?_, hsilent.after id⟩,
      nofun⟩
    · rw [view_of_unwritten hunwritten] at hx
      rw [World.after_state, State.set_db, Table.mine_write_self, hx]
    · have hrow : deletedAt w m = none := hp.1 m rfl rfl
      rw [view_of_unwritten hunwritten] at hx
      simpa [deletedAt, message, hx] using hrow
    · refine hf x ?_
      have hrow : deletedAt w m = none := hp.1 m rfl rfl
      rw [view_of_unwritten hunwritten] at hx
      simpa [deletedAt, message, hx] using hrow
    · intro hc
      rcases committedWhen_after hc with hc | ⟨he, -⟩
      · exact not_changed_of_noUpdates hno hc
      · cases he
  · cases matched with
    | true => exact fun _ _ hw => hw.1 rfl
    | false => exact fun _ _ hw => hw.2 rfl

/-- The publish, which succeeds: the call has published what it had to. -/
theorem safe_publish {event : Event} {topic : Topic}
    (hann : (task t).deletes = true ↔ deletedId event = some m) :
    (discipline hash task m).Safe t (publishMessageEvent event topic) (Owing m t)
      (fun _ => Done task m t) fun _ => Paid task m t := by
  refine Contract.Safe.handle (R := fun _ _ => False) ?_ fun e => Contract.safe_false _
  refine Contract.Safe.perform (fun _ => kept_done.stable) (fun _ => .const False)
    fun w ch r s hi hw hp h => ?_
  rcases Choice.eq_ok (hp.2 rfl) with ⟨order, value, rfl⟩
  cases h
  refine ⟨trivial, ⟨fun hd => ⟨hann.mpr hd, hw⟩, fun _ => hw.2.1⟩, hw.1, .inr ⟨hw.2.1.after, ?_⟩⟩
  intro hd
  exact ⟨_, List.mem_cons_self, rfl, hann.mp hd⟩

theorem safe_ensureCallerCanSee {x : Message} :
    (discipline hash task m).Safe t (ensureCallerCanSeeMessage x u) (Idle m t)
      (fun _ => Idle m t) fun _ => Paid task m t :=
  safe_quiet kept_idle (fun _ => paid_of_idle)
    (only_ensureCallerCanSeeMessage (fun _ _ => quiet_get id) _ _)

theorem safe_getMessage : (discipline hash task m).Safe t (Py.get .messages m) (Idle m t)
    (fun _ => Idle m t) fun _ => Paid task m t :=
  safe_quiet kept_idle (fun _ => paid_of_idle) (Prog.only_perform (quiet_get id))

theorem safe_utcNow : (discipline hash task m).Safe t (Prog.perform Op.utcNow) (Idle m t)
    (fun _ => Idle m t) fun _ => Paid task m t :=
  safe_quiet kept_idle (fun _ => paid_of_idle) (Prog.only_perform (quiet_other nofun nofun id))

/-- A call that changes nothing. -/
theorem safe_commitIdle {α : Type} {a : α} :
    (discipline hash task m).Safe t (Py.commit.bind fun _ => .ret a) (Idle m t)
      (fun _ => Done task m t) fun _ => Paid task m t :=
  Contract.Safe.bind (safe_commitDone.weaken fun _ _ => done_of_idle) fun _ _ _ hw => hw

theorem safe_editMessage {content : Text} (ht : (task t).deletes = false) :
    (discipline hash task m).Safe t (editMessage m u content) (Idle m t)
      (fun _ => Done task m t) fun _ => Paid task m t := by
  refine Contract.Safe.bind safe_getMessage fun found => ?_
  cases found with
  | none => exact fun _ _ hw => paid_of_idle hw
  | some x =>
    refine Contract.Safe.bind safe_ensureCallerCanSee fun _ => ?_
    show Contract.Safe _ _ (if _ then _ else if _ then _ else if _ then _ else if _ then _ else _)
      _ _ _
    split
    · exact fun _ _ hw => paid_of_idle hw
    split
    · exact fun _ _ hw => paid_of_idle hw
    split
    · exact fun _ _ hw => paid_of_idle hw
    split
    · exact safe_commitIdle
    refine Contract.Safe.bind (Q := fun _ => Pending task m t) ?_ fun edited => ?_
    · refine Contract.Safe.bind safe_utcNow fun now => ?_
      refine Contract.Safe.bind (safe_update fun y hy => ?_) fun _ _ _ hw => hw
      rw [ht, hy]
      rfl
    refine Contract.Safe.bind safe_commitPending fun _ => ?_
    refine Contract.Safe.bind (safe_quiet kept_owing (fun _ _ => paid_of_edits ht)
      (only_getMessageMedia (fun _ _ => quiet_select id) _)) fun media => ?_
    refine Contract.Safe.bind (safe_publish ?_) fun _ _ _ hw => hw
    rw [ht]
    exact ⟨nofun, nofun⟩

theorem safe_deleteMessage (ht : (task t).deletes = true) :
    (discipline hash task m).Safe t (deleteMessage m u) (Idle m t)
      (fun _ => Done task m t) fun _ => Paid task m t := by
  refine Contract.Safe.bind safe_getMessage fun found => ?_
  cases found with
  | none => exact fun _ _ hw => paid_of_idle hw
  | some x =>
    refine Contract.Safe.bind safe_ensureCallerCanSee fun _ => ?_
    show Contract.Safe _ _ (if _ then _ else if _ then _ else _) _ _ _
    split
    · exact fun _ _ hw => paid_of_idle hw
    split
    · exact safe_commitIdle
    refine Contract.Safe.bind (Q := fun _ => Pending task m t) ?_ fun deleted => ?_
    · refine Contract.Safe.bind safe_utcNow fun now => ?_
      refine Contract.Safe.bind (safe_update fun y _ => ?_) fun _ _ _ hw => hw
      rw [ht]
      rfl
    refine Contract.Safe.bind safe_commitPending fun _ => ?_
    refine Contract.Safe.bind (safe_publish ?_) fun _ _ _ hw => hw
    rw [ht]
    exact ⟨fun _ => rfl, fun _ => rfl⟩

/-- Every call keeps to the discipline, and ends with nothing left to publish. -/
theorem safe_task :
    (discipline hash task m).Safe t ((task t).program m u) (Idle m t)
      (fun _ => Paid task m t) fun _ => Paid task m t := by
  have hsession : ∀ {α : Type} {body : Py α},
      (discipline hash task m).Safe t body (Idle m t) (fun _ => Done task m t)
        (fun _ => Paid task m t) →
      (discipline hash task m).Safe t (Py.getDbSession body) (Idle m t) (fun _ => Paid task m t)
        fun _ => Paid task m t := fun h =>
    (Py.safe_session safe_commitDone safe_rollbackDone safe_rollbackPaid h).mono
      (fun _ _ hw => hw) (fun _ _ _ hw => paid_of_done hw) fun _ _ _ hw => hw
  cases ht : task t with
  | edit content =>
    refine Contract.Safe.bind (hsession ?_) fun _ _ _ hw => hw
    refine Contract.Safe.bind (Contract.Safe.handle (safe_editMessage (by rw [ht]; rfl))
      fun e _ _ hw => hw) fun x => ?_
    exact Contract.Safe.bind (safe_quiet kept_done (fun _ => paid_of_done)
      (only_getMessageMedia (fun _ _ => quiet_select id) _)) fun _ _ _ hw => hw
  | delete =>
    refine hsession ?_
    exact Contract.Safe.bind (Contract.Safe.handle (safe_deleteMessage (by rw [ht]; rfl))
      fun e _ _ hw => hw) fun _ _ _ hw => hw

/-! ### The invariant -/

/-- One call has deleted the message, and its deletion is published if that call has published it. -/
structure Inv (task : T → Task) (m : MessageId) (w : BackendWorld T) : Prop where
  alive : deletedAt w m = none →
    deletions w m = 0 ∧ ∀ t, (task t).deletes = true → ¬ Changed m t w
  deleted : deletedAt w m ≠ none → ∃ t, (task t).deletes = true ∧ Changed m t w ∧
    (∀ t', (task t').deletes = true → Changed m t' w → t' = t) ∧
    ((Announced m t w ∧ deletions w m = 1) ∨ (¬ Announced m t w ∧ deletions w m = 0))
  edited : ∀ t, (∃ e ∈ w.trace, AnnouncesEdit t m e) → Changed m t w

/-- A deleted message stays as it is, and nobody changes it any more. -/
def Frozen (m : MessageId) (w w' : BackendWorld T) : Prop :=
  deletedAt w m ≠ none → message w' m = message w m ∧ ∀ t, Changed m t w' → Changed m t w

/-- A step that neither commits an update nor publishes. -/
structure Same (m : MessageId) (w w' : BackendWorld T) : Prop where
  message : message w' m = message w m
  deletions : deletions w' m = deletions w m
  changed : ∀ t, Changed m t w' ↔ Changed m t w
  announced : ∀ t, Announced m t w' ↔ Announced m t w
  edited : ∀ t, (∃ e ∈ w'.trace, AnnouncesEdit t m e) → ∃ e ∈ w.trace, AnnouncesEdit t m e

omit [DecidableEq T] in
theorem Same.deletedAt (h : Same m w w') : deletedAt w' m = deletedAt w m := by
  unfold MessageLifecycle.deletedAt
  rw [h.message]

omit [DecidableEq T] in
theorem Same.inv (h : Same m w w') (hi : Inv task m w) : Inv task m w' where
  alive ha := by
    rw [h.deletedAt] at ha
    rcases hi.alive ha with ⟨hzero, hnone⟩
    exact ⟨h.deletions.trans hzero, fun t ht hc => hnone t ht ((h.changed t).mp hc)⟩
  deleted hd := by
    rw [h.deletedAt] at hd
    rcases hi.deleted hd with ⟨t, ht, hchanged, honly, hcount⟩
    refine ⟨t, ht, (h.changed t).mpr hchanged, fun t' ht' hc => honly t' ht' ((h.changed t').mp hc), ?_⟩
    rw [h.deletions, h.announced]
    exact hcount
  edited t he := (h.changed t).mpr (hi.edited t (h.edited t he))

omit [DecidableEq T] in
theorem Same.frozen (h : Same m w w') : Frozen m w w' :=
  fun _ => ⟨h.message, fun t => (h.changed t).mp⟩

omit [DecidableEq T] in
/-- A step that is no publish, and commits no update. -/
theorem same_after (hm : (s.db .messages).committed m = message w m)
    (hp : s.published = w.state.published) (ho : ∀ topic event, o ≠ .redisPublish topic event)
    (hc : ∀ t', Changed m t' (w.after t o r s) → Changed m t' w) : Same m w (w.after t o r s) := by
  refine ⟨hm, ?_, fun t' => ⟨hc t', .after⟩, fun t' => ⟨?_, ?_⟩, fun t' => ?_⟩
  · unfold deletions
    rw [World.after_state, hp]
  · rintro ⟨e, he, ha⟩
    rcases List.mem_cons.mp he with rfl | he
    · unfold Announces at ha
      split at ha
      · rename_i heq
        cases heq
        exact absurd rfl (ho _ _)
      · exact ha.elim
    · exact ⟨e, he, ha⟩
  · exact fun ⟨e, he, ha⟩ => ⟨e, List.mem_cons_of_mem _ he, ha⟩
  · rintro ⟨e, he, ha⟩
    rcases List.mem_cons.mp he with rfl | he
    · unfold AnnouncesEdit at ha
      split at ha
      · rename_i heq
        cases heq
        exact absurd rfl (ho _ _)
      · exact ha.elim
    · exact ⟨e, he, ha⟩

omit [DecidableEq T] in
/-- Changes of the others are theirs. -/
theorem changed_after (h : Changed m t' (w.after t o r s))
    (hown : (⟨t, o, r⟩ : Entry T Op Op.Res Exc) = ⟨t', .sql .commit, .ok ()⟩ →
      (∃ e ∈ w.trace, Updates t' m e) → Changed m t' w) : Changed m t' w := by
  rcases committedWhen_after h with h | ⟨he, hupdates⟩
  · exact h
  · exact hown he hupdates

/-- The commit of an update: the message was not deleted, so nobody had deleted it. -/
theorem inv_commitPending (hi : Inv task m w) (h : Pending task m t w) :
    Inv task m (afterCommit t w) ∧ Frozen m w (afterCommit t w) := by
  rcases h with ⟨⟨x, x', hmine, hx, hx'⟩, hupdates, hnot, hsilent⟩
  have halive : deletedAt w m = none := by
    unfold deletedAt message
    rw [(Table.mine_eq_some.mp hmine).2]
    exact hx
  rcases hi.alive halive with ⟨hzero, hnone⟩
  have hrow : deletedAt (afterCommit t w) m = x'.deletedAt := by
    have hview : message (afterCommit t w) m = some x' := Table.view_of_mine hmine
    unfold deletedAt
    rw [hview]
    rfl
  have hcount : deletions (afterCommit t w) m = 0 := hzero
  have hchanged : ∀ t', (task t').deletes = true → Changed m t' (afterCommit t w) → t' = t := by
    intro t' ht' hc
    rcases committedWhen_after hc with hc | ⟨he, -⟩
    · exact absurd hc (hnone t' ht')
    · cases he
      rfl
  have hnew : Changed m t (afterCommit t w) := ⟨[], w.trace, rfl, hupdates⟩
  refine ⟨⟨fun ha => ⟨hcount, fun t' ht' hc => ?_⟩, fun hd => ?_, fun t' => ?_⟩,
    fun hd => absurd halive hd⟩
  · rw [hrow] at ha
    rw [ha, ← hchanged t' ht' hc, ht'] at hx'
    cases hx'
  · have ht : (task t).deletes = true := by
      rw [← hx', Option.isSome_iff_ne_none, ← hrow]
      exact hd
    refine ⟨t, ht, hnew, hchanged, .inr ⟨?_, hcount⟩⟩
    rintro ⟨e, he, ha⟩
    rcases List.mem_cons.mp he with rfl | he
    · exact ha
    · exact hsilent e he ha.proc ha
  · rintro ⟨e, he, ha⟩
    rcases List.mem_cons.mp he with rfl | he
    · exact ha.elim
    · exact (hi.edited t' ⟨e, he, ha⟩).after

/-- A publish: the deletion is published by the call that deleted the message, which has not done
so before. -/
theorem inv_publish {topic : Topic} {event : Event} (hi : Inv task m w)
    (hd : Disciplined task m t (.redisPublish topic event) (.ok ()) w) :
    Inv task m (w.after t (.redisPublish topic event) (.ok ())
      { w.state with published := w.state.published ++ [(topic, event)] }) := by
  have hchanged : ∀ t', Changed m t' (w.after t (.redisPublish topic event) (.ok ())
      { w.state with published := w.state.published ++ [(topic, event)] }) ↔ Changed m t' w :=
    fun t' => ⟨fun h => changed_after h fun he => (nomatch he), .after⟩
  have hcount : deletions (w.after t (.redisPublish topic event) (.ok ())
      { w.state with published := w.state.published ++ [(topic, event)] }) m =
      deletions w m + if deletedId event = some m then 1 else 0 := by
    simp [deletions, List.countP_append, List.countP_cons]
  have hannounced : ∀ t', Announced m t' (w.after t (.redisPublish topic event) (.ok ())
      { w.state with published := w.state.published ++ [(topic, event)] }) ↔
      (t = t' ∧ deletedId event = some m) ∨ Announced m t' w :=
    fun t' => List.exists_mem_cons_iff ..
  refine ⟨fun ha => ?_, fun hdel => ?_, fun t' he => ?_⟩
  · rcases hi.alive ha with ⟨hzero, hnone⟩
    refine ⟨?_, fun t' ht' hc => hnone t' ht' ((hchanged t').mp hc)⟩
    rw [hcount, hzero, if_neg]
    intro hm
    rcases hd.1 hm with ⟨ht, -, hc, -⟩
    exact hnone t ht hc
  · rcases hi.deleted hdel with ⟨t₀, ht₀, hc₀, honly, hpublished⟩
    refine ⟨t₀, ht₀, (hchanged t₀).mpr hc₀,
      fun t' ht' hc => honly t' ht' ((hchanged t').mp hc), ?_⟩
    rw [hannounced, hcount]
    by_cases hm : deletedId event = some m
    · rcases hd.1 hm with ⟨ht, -, hc, hsilent⟩
      obtain rfl := honly t ht hc
      rcases hpublished with ⟨⟨e, he, ha⟩, -⟩ | ⟨-, hzero⟩
      · exact absurd ha (hsilent e he ha.proc)
      · rw [if_pos hm, hzero]
        exact .inl ⟨.inl ⟨rfl, hm⟩, rfl⟩
    · rw [if_neg hm]
      simpa [hm] using hpublished
  · rw [hchanged]
    rcases (List.exists_mem_cons_iff ..).mp he with ⟨rfl, hm⟩ | he
    · exact hd.2 hm
    · exact hi.edited t' he

/-- Every disciplined step keeps the invariant, and a deleted message. -/
theorem inv_step {c : Choice} (hi : Inv task m w) (hp : (noLostUpdate m).op t o c w)
    (hx : (machine T hash).exec t o c w.state = some (r, s)) (hd : Disciplined task m t o r w) :
    Inv task m (w.after t o r s) ∧ Frozen m w (w.after t o r s) := by
  by_cases hpublish : ∃ topic event, o = .redisPublish topic event
  · rcases hpublish with ⟨topic, event, rfl⟩
    rcases Choice.eq_ok (hp.2 rfl) with ⟨order, value, rfl⟩
    cases hx
    refine ⟨inv_publish hi hd, fun _ => ⟨rfl, fun t' h => changed_after h fun he => (nomatch he)⟩⟩
  have ho : ∀ topic event, o ≠ .redisPublish topic event := fun a b h => hpublish ⟨a, b, h⟩
  have hpublished := exec_published ho hx
  by_cases hcommit : o = .sql .commit
  · subst hcommit
    rcases exec_commitAll hx with ⟨rfl, e, rfl⟩ | ⟨rfl, rfl⟩
    · have hsame := same_after (t := t) (r := .error e) (m := m) rfl hpublished ho fun t' h =>
        changed_after h fun he => (nomatch he)
      exact ⟨hsame.inv hi, hsame.frozen⟩
    have hfit : Fit task m t w := hd
    rcases hfit with ⟨hunwritten, hno⟩ | hpending
    · have hsame : Same m w (afterCommit t w) := by
        refine same_after (view_of_unwritten hunwritten m) rfl ho fun t' h => ?_
        refine changed_after h fun he ⟨e, he', hupdates⟩ => ?_
        cases he
        rcases hno with hno | hchanged
        · exact absurd hupdates (hno e he' hupdates.proc)
        · exact hchanged
      exact ⟨hsame.inv hi, hsame.frozen⟩
    · exact inv_commitPending hi hpending
  · have hsame := same_after (t := t) (r := r) (m := m)
      (congrFun (exec_committed_db hcommit hx .messages) m) hpublished ho fun t' h =>
        changed_after h fun he => by
          cases he
          exact absurd rfl hcommit
    exact ⟨hsame.inv hi, hsame.frozen⟩

/-! ### The result -/

abbrev MessagePool (T : Type) : Type := Pool T Op Op.Res Exc Unit (State T)

/-- Before the first call: the message is not deleted, and no transaction is open. -/
structure Start (task : T → Task) (m : MessageId) (u : UserId) (p : MessagePool T) : Prop where
  prog : ∀ t, p.prog t = (task t).program m u
  trace : p.world.trace = []
  hold : ∀ k, (p.world.state.db .messages).hold k = none
  alive : deletedAt p.world m = none
  unpublished : deletions p.world m = 0

/-- The call has returned or raised. -/
def Ended (p : MessagePool T) (t : T) : Prop :=
  (∃ a, p.prog t = .ret a) ∨ ∃ e, p.prog t = .raise e

variable {p₀ p q : MessagePool T} {ls ls' : List (Label T Choice Tick)}

theorem eventsOk : (discipline hash task m).EventsOk := fun _ _ _ _ _ _ => trivial

theorem Start.sound (h : Start task m u p) (hash : RawToken → TokenHash) :
    (discipline hash task m).Sound (fun t _ => Paid task m t) (fun t _ => Paid task m t) p where
  inv := trivial
  safe t := by
    refine ⟨Idle m t, kept_idle.stable, ⟨fun k v x hv => ?_, fun e he => ?_, fun e he => ?_⟩, ?_⟩
    · have hhold := (Table.mine_eq_some.mp hv).1
      rw [h.hold] at hhold
      cases hhold
    · rw [h.trace] at he
      cases he
    · rw [h.trace] at he
      cases he
    · rw [h.prog]
      exact safe_task

omit [DecidableEq T] in
theorem Start.inv (h : Start task m u p) : Inv task m p.world := by
  refine ⟨fun _ => ⟨h.unpublished, ?_⟩, fun hd => absurd h.alive hd, ?_⟩
  · rintro t - ⟨newer, older, htrace, -⟩
    rw [h.trace] at htrace
    simp at htrace
  · rintro t ⟨e, he, -⟩
    rw [h.trace] at he
    cases he

/-- The invariant holds after every run, and a deleted message stays as it is. -/
theorem inv_run (hs : (discipline hash task m).Sound (fun t _ => Paid task m t)
      (fun t _ => Paid task m t) p) (hi : Inv task m p.world)
    (hC : (machine T hash).Meets (noLostUpdate m) p ls) (hr : (machine T hash).run p ls = some q) :
    (discipline hash task m).Sound (fun t _ => Paid task m t) (fun t _ => Paid task m t) q ∧
      Inv task m q.world ∧ Frozen m p.world q.world := by
  refine hs.invariant (C := noLostUpdate m) (fun _ _ _ _ h => h) (fun _ _ h => h)
    (P := fun w => Inv task m w ∧ Frozen m p.world w) (fun t o c r w s hP hp hx hd => ?_)
    (fun e w s hP hx => ?_) eventsOk ⟨hi, fun _ => ⟨rfl, fun _ => id⟩⟩ hC hr
  · rcases inv_step hP.1 hp hx hd with ⟨hinv, hfrozen⟩
    refine ⟨hinv, fun hdel => ?_⟩
    rcases hP.2 hdel with ⟨hrow, hchanged⟩
    have hdel' : deletedAt w m ≠ none := by
      unfold deletedAt
      rw [hrow]
      exact hdel
    rcases hfrozen hdel' with ⟨hrow', hchanged'⟩
    exact ⟨hrow'.trans hrow, fun t h => hchanged t (hchanged' t h)⟩
  · cases hx
    exact ⟨⟨hP.1.alive, hP.1.deleted, hP.1.edited⟩, hP.2⟩

/-- **A deleted message is settled.** In every interleaving of edits and deletions of one message
whose updates meet a row that is not deleted, and whose publishes succeed: once a deletion has
committed the row never changes, and every edit that is ever published had committed before it; the
deletion is published at most once, not before it has committed, and exactly once when the calls
have ended. -/
theorem message_settles (h₀ : Start task m u p₀)
    (hC : (machine T hash).Meets (noLostUpdate m) p₀ (ls ++ ls'))
    (hp : (machine T hash).run p₀ ls = some p) (hq : (machine T hash).run p ls' = some q) :
    (deletedAt p.world m ≠ none → message q.world m = message p.world m ∧
        ∀ t, (∃ e ∈ q.world.trace, AnnouncesEdit t m e) → Changed m t p.world) ∧
      deletions q.world m ≤ 1 ∧ (deletedAt q.world m = none → deletions q.world m = 0) ∧
      (deletedAt q.world m ≠ none → (∀ t, Ended q t) → deletions q.world m = 1) := by
  rcases Machine.meets_append hC with ⟨hC₁, hC₂⟩
  rcases inv_run (h₀.sound hash) h₀.inv hC₁ hp with ⟨hsound, hinv, -⟩
  rcases inv_run hsound hinv (hC₂ p hp) hq with ⟨hsound', hinv', hfrozen⟩
  refine ⟨fun hd => ?_, ?_, fun ha => (hinv'.alive ha).1, fun hd hended => ?_⟩
  · rcases hfrozen hd with ⟨hrow, hchanged⟩
    exact ⟨hrow, fun t he => hchanged t (hinv'.edited t he)⟩
  · by_cases ha : deletedAt q.world m = none
    · rw [(hinv'.alive ha).1]
      omega
    · rcases hinv'.deleted ha with ⟨-, -, -, -, ⟨-, h⟩ | ⟨-, h⟩⟩ <;> omega
  · rcases hinv'.deleted hd with ⟨t, ht, hchanged, -, hcount⟩
    have hpaid : Paid task m t q.world := by
      rcases hended t with ⟨a, ha⟩ | ⟨e, he⟩
      · exact hsound'.ret ha
      · exact hsound'.raise he
    rcases hpaid with hpaid | hpaid
    · exact absurd hchanged hpaid
    · rcases hcount with ⟨-, h⟩ | ⟨hnot, -⟩
      · exact h
      · exact absurd (hpaid ht) hnot

/-! ### Two deletions and an edit -/

/-- User 10 deletes his direct message 1 twice, and edits it. -/
def deletionsAndEdit : Fin 3 → Task
  | 0 => .delete
  | 1 => .delete
  | 2 => .edit ['h', 'o']

def directMessage : MessagePool (Fin 3) where
  world := ⟨State.ofRows fun
    | .messages => [(1, ⟨.dm 11, 10, ['h', 'i'], 0, none, none⟩)]
    | _ => [], []⟩
  prog t := (deletionsAndEdit t).program 1 10

theorem directMessage_start : Start deletionsAndEdit 1 10 directMessage where
  prog _ := rfl
  trace := rfl
  hold _ := rfl
  alive := rfl
  unpublished := rfl

/-- `k` awaits of call `t`. -/
def awaits (t : Fin 3) (k : ℕ) : List (Label (Fin 3) Choice Tick) :=
  List.replicate k (.proc t (.ok [] 1))

/-- **A deletion that is undone.** All three calls have read the message when the first deletion
commits; later the second one changes the time of the deletion and is published again, and the edit
changes the content of the deleted message and is published. -/
theorem deleted_twice :
    Start deletionsAndEdit 1 10 directMessage ∧ ∃ p q,
      (machine (Fin 3) id).run directMessage
        (awaits 1 1 ++ awaits 2 1 ++ awaits 0 7) = some p ∧
      (machine (Fin 3) id).run p (.event (.tick 5) :: awaits 1 6 ++ awaits 2 8) = some q ∧
      (message p.world 1).map MessageOf.content = some ['h', 'i'] ∧ deletedAt p.world 1 = some 0 ∧
      (message q.world 1).map MessageOf.content = some ['h', 'o'] ∧ deletedAt q.world 1 = some 5 ∧
      deletions q.world 1 = 2 ∧ ¬ Changed 1 2 p.world ∧ ∃ e ∈ q.world.trace, AnnouncesEdit 2 1 e := by
  rcases Option.isSome_iff_exists.mp (show ((machine (Fin 3) id).run directMessage
    (awaits 1 1 ++ awaits 2 1 ++ awaits 0 7)).isSome = true by decide) with ⟨p, hp⟩
  refine ⟨directMessage_start, p, ?_⟩
  cases hp
  refine ⟨_, rfl, rfl, rfl, rfl, rfl, rfl, by decide, ?_, ?_⟩
  · refine not_changed_of_noUpdates fun e he hproc hupdates => ?_
    repeat
      rcases List.mem_cons.mp he with rfl | he
      · first
        | exact absurd hproc (by decide)
        | exact hupdates
    cases he
  · exact ⟨_, List.mem_of_getElem? (i := 3) rfl, rfl, rfl⟩

/-- Calls that start when the message is deleted change nothing. -/
theorem message_settles_deleted :
    ∃ p q, (machine (Fin 3) id).run directMessage (awaits 0 7) = some p ∧
      (machine (Fin 3) id).run p (awaits 1 4 ++ awaits 2 3) = some q ∧
      deletedAt p.world 1 = some 0 ∧ message q.world 1 = message p.world 1 ∧
      deletions q.world 1 = 1 := by
  rcases Option.isSome_iff_exists.mp (show ((machine (Fin 3) id).run directMessage
    (awaits 0 7)).isSome = true by decide) with ⟨p, hp⟩
  have hend : deletedAt p.world 1 = some 0 ∧ ∃ q, (machine (Fin 3) id).run p
      (awaits 1 4 ++ awaits 2 3) = some q ∧ deletedAt q.world 1 ≠ none ∧ ∀ t, Ended q t := by
    cases hp
    refine ⟨rfl, _, rfl, nofun, fun t => ?_⟩
    match t with
    | 0 => exact .inl ⟨_, rfl⟩
    | 1 => exact .inl ⟨_, rfl⟩
    | 2 => exact .inr ⟨_, rfl⟩
  rcases hend with ⟨hdel, q, hq, hdel', hended⟩
  rcases message_settles directMessage_start (by decide) hp hq with ⟨hfrozen, -, -, honce⟩
  exact ⟨p, q, hp, hq, hdel, (hfrozen (by rw [hdel]; exact nofun)).1, honce hdel' hended⟩

end Chatspace.MessageLifecycle
