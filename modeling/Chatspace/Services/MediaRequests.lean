import Chatspace.Backend.Tables
import Chatspace.Services.IdempotentSend
import Chatspace.Services.MediaSweep

/-!
# Sends and sweeps, and what each has written when it commits

Sends and passes of the media sweep, interleaved step by step and failing at any of them.  Whatever
the others do,

* a send that commits has written nothing, or its message and, under it, exactly the rows it named
  (`Ready`);
* a sweep that commits has deleted rows only, each of them bound to no message (`Swept`);
* a sweep that deletes an object holds the object's row, bound to no message (`Orphan`).

`Fresh.sound` — **every step of every run is of this kind.**
-/

namespace Chatspace.MediaRequests

open Interleave Store Messages MediaSweep

/-- A send, or one pass of the sweep. -/
inductive Task where
  | send (call : IdempotentSend.SendCall)
  | sweep (ttl : Time) (batchSize : ℕ)

def Task.program : Task → Py Unit
  | .send call => (Py.getDbSession call.send).bind fun _ => .ret ()
  | .sweep ttl batchSize => (mediaOrphanSweep ttl batchSize).bind fun _ => .ret ()

def Task.sweeps : Task → Bool
  | .send _ => false
  | .sweep .. => true

variable {T : Type} [DecidableEq T] {hash : RawToken → TokenHash} {task : T → Task} {t t' : T}
  {call : IdempotentSend.SendCall} {m m' : MessageId} {a : AttachmentId} {w : BackendWorld T}
  {s : State T} {o : Op} {r : Except Exc o.Res} {ttl : Time} {n : ℕ}

/-- Request `t` inserted the message. -/
def Inserts (t : T) (m : MessageId) : Entry T Op Op.Res Exc → Prop
  | ⟨p, .sql (.insert .messages m' _), .ok (some _)⟩ => p = t ∧ m' = m
  | _ => False

/-- Request `t` inserted the message, and committed after that. -/
def Created (t : T) (m : MessageId) (w : BackendWorld T) : Prop :=
  CommittedWhen t (fun older => ∃ e ∈ older, Inserts t m e) w

omit [DecidableEq T] in
theorem Inserts.proc {e : Entry T Op Op.Res Exc} (h : Inserts t m e) : e.proc = t := by
  unfold Inserts at h
  split at h
  · exact h.1
  · exact h.elim

/-- The request has inserted no message but `m`. -/
def InsertsOnly (t : T) (P : MessageId → Prop) (w : BackendWorld T) : Prop :=
  ∀ e ∈ w.trace, e.proc = t → ∀ m, Inserts t m e → P m

omit [DecidableEq T] in
theorem InsertsOnly.after {P : MessageId → Prop} (h : InsertsOnly t P w)
    (ho : ∀ m, Inserts t m (⟨t, o, r⟩ : Entry T Op Op.Res Exc) → P m) :
    InsertsOnly t P (w.after t o r s) :=
  own_after h ho

/-! ### What a request has written -/

def watched : List Tbl := [.messages, .attachments]

theorem messages_mem : Tbl.messages ∈ watched := by simp [watched]

theorem attachments_mem : Tbl.attachments ∈ watched := by simp [watched]

/-- Before the insertion. -/
def Idle (t : T) (w : BackendWorld T) : Prop :=
  (Unwritten .messages t w ∧ Unwritten .attachments t w) ∧ InsertsOnly t (fun _ => False) w

/-- After the insertion: the message, with these rows bound to it. -/
def Written (call : IdempotentSend.SendCall) (t : T) (m : MessageId) (done : List AttachmentId)
    (w : BackendWorld T) : Prop :=
  ((∃ x : Message, x.senderId = call.senderId ∧
      (w.state.db .messages).mine t m = some (some (some x), none)) ∧
    ∀ k v x, (w.state.db .messages).mine t k = some (some v, x) → k = m) ∧
  ((∀ a ∈ done, ∃ y : Attachment, isBindable call.senderId y = true ∧
      (w.state.db .attachments).mine t a = some (some (some { y with messageId := some m }), some y)) ∧
    ∀ a v x, (w.state.db .attachments).mine t a = some (some v, x) → a ∈ done) ∧
  InsertsOnly t (· = m) w ∧ ∃ e ∈ w.trace, Inserts t m e

/-- The request is about to create a message with the rows it named. -/
def Ready (call : IdempotentSend.SendCall) (t : T) (w : BackendWorld T) : Prop :=
  ∃ m done, Written call t m done w ∧ done.Nodup ∧ done.Perm call.mediaIds

/-- The request has written nothing, or has created its message already. -/
def Settled (t : T) (w : BackendWorld T) : Prop :=
  (Unwritten .messages t w ∧ Unwritten .attachments t w) ∧
    (InsertsOnly t (fun _ => False) w ∨ ∃ m, Created t m w ∧ InsertsOnly t (· = m) w)

/-- The sweep has deleted rows that are bound to no message, and nothing else. -/
def Swept (t : T) (w : BackendWorld T) : Prop :=
  Unwritten .messages t w ∧ ∀ a v x, (w.state.db .attachments).mine t a = some (some v, x) →
    v = none ∧ ∃ y : Attachment, x = some y ∧ y.messageId = none

/-- The request holds a row that is bound to no message. -/
def Orphan (t : T) (a : AttachmentId) (w : BackendWorld T) : Prop :=
  ∃ y : Attachment, (w.state.db .attachments).mine t a = some (none, some y) ∧ y.messageId = none

/-- What a request has written when it commits. -/
def Fit (task : T → Task) (t : T) (w : BackendWorld T) : Prop :=
  match task t with
  | .send call => Settled t w ∨ Ready call t w
  | .sweep .. => Swept t w

/-- What is known of a request that performs the operation. -/
def Disciplined (task : T → Task) (t : T) : (o : Op) → Except Exc o.Res → BackendWorld T → Prop
  | .sql .commit, .ok _, w => Fit task t w
  | .deleteObject a, _, w => (∃ ttl n, task t = .sweep ttl n) ∧ Orphan t a w
  | _, _, _ => True

/-- The deletion of an object. -/
def Noted : Op → Prop
  | .deleteObject _ => True
  | _ => False

/-- Every step is disciplined. -/
def discipline (hash : RawToken → TokenHash) (task : T → Task) : Contract (machine T hash) where
  inv _ := True
  pre := .always
  guar t o r w _ := Disciplined task t o r w

theorem aboutCommitted : AboutCommitted (discipline hash task) watched Noted := by
  intro t o r w s hN _ hne _ _
  refine ⟨trivial, ?_⟩
  show Disciplined task t o r w
  unfold Disciplined
  split
  · exact absurd rfl (hne t)
  · exact absurd trivial hN
  · trivial

theorem allows : Allows (discipline hash task) watched Noted :=
  aboutCommitted.allows messages_mem fun _ => id

variable {K : Contract (machine T hash)}

theorem kept_insertsOnly {P : MessageId → Prop} : Kept K watched Noted t (InsertsOnly t P) := by
  refine Kept.own fun e he m h => ?_
  unfold Inserts at h
  split at h
  · exact absurd rfl (he.spares .messages messages_mem)
  · exact h.elim

theorem kept_unwrittenBoth :
    Kept K watched Noted t fun w => Unwritten .messages t w ∧ Unwritten .attachments t w :=
  (kept_unwritten messages_mem).and (kept_unwritten attachments_mem)

theorem kept_idle : Kept K watched Noted t (Idle t) := kept_unwrittenBoth.and kept_insertsOnly

theorem kept_written {done : List AttachmentId} : Kept K watched Noted t (Written call t m done) :=
  (Kept.mine messages_mem (P := fun n => (∃ x : Message, x.senderId = call.senderId ∧
      n m = some (some (some x), none)) ∧ ∀ k v x, n k = some (some v, x) → k = m)).and
    ((Kept.mine attachments_mem (P := fun n => (∀ a ∈ done, ∃ y : Attachment,
        isBindable call.senderId y = true ∧
          n a = some (some (some { y with messageId := some m }), some y)) ∧
        ∀ a v x, n a = some (some v, x) → a ∈ done)).and
      (kept_insertsOnly.and .seen))

theorem kept_ready : Kept K watched Noted t (Ready call t) :=
  .exists fun _ => .exists fun _ => kept_written.and (.const _)

theorem kept_settled : Kept K watched Noted t (Settled t) :=
  kept_unwrittenBoth.and (kept_insertsOnly.or (.exists fun _ =>
    Kept.committedWhen.and kept_insertsOnly))

theorem kept_swept : Kept K watched Noted t (Swept t) :=
  (kept_unwritten messages_mem).and (Kept.mine attachments_mem (P := fun n =>
    ∀ a v x, n a = some (some v, x) → v = none ∧ ∃ y : Attachment, x = some y ∧ y.messageId = none))

theorem stable_orphan : K.Stable t (Orphan t a) :=
  stable_mine (τ := .attachments) (P := fun n =>
    ∃ y : Attachment, n a = some (none, some y) ∧ y.messageId = none)

theorem settled_of_idle (h : Idle t w) : Settled t w := ⟨h.1, .inl h.2⟩

/-! ### Operations of a send -/

/-- A send that commits what it may has settled. -/
theorem safe_commit (ht : task t = .send call) :
    (discipline hash task).Safe t Py.commit (fun w => Settled t w ∨ Ready call t w)
      (fun _ => Settled t) fun _ _ => True := by
  refine Contract.Safe.perform (fun _ => kept_settled.stable) (fun _ => .const True)
    fun w ch r s hi hw _ h => ?_
  rcases exec_commitAll h with ⟨rfl, e, rfl⟩ | ⟨rfl, rfl⟩
  · rcases aboutCommitted.failed id hi with ⟨hi', hg⟩
    exact ⟨hi', hg, trivial⟩
  refine ⟨trivial, ?_, ⟨unwritten_of_released fun _ => Table.mine_commit,
    unwritten_of_released fun _ => Table.mine_commit⟩, ?_⟩
  · show Fit task t w
    unfold Fit
    rw [ht]
    exact hw
  rcases hw with ⟨-, hins | ⟨m, hcreated, hins⟩⟩ | ⟨m, done, ⟨-, -, hins, hinserted⟩, -⟩
  · exact .inl (hins.after fun _ => False.elim)
  · exact .inr ⟨m, hcreated.after, hins.after fun _ => False.elim⟩
  · exact .inr ⟨m, ⟨[], w.trace, rfl, hinserted⟩, hins.after fun _ => False.elim⟩

theorem safe_keep : (discipline hash task).Safe t Py.rollback (Settled t)
    (fun _ => Settled t) fun _ _ => True := by
  refine safe_rollback aboutCommitted id kept_settled.stable fun w s hw _ hmine => ?_
  refine ⟨⟨unwritten_of_released (hmine .messages), unwritten_of_released (hmine .attachments)⟩, ?_⟩
  exact hw.2.imp (fun h => h.after fun _ => False.elim)
    fun ⟨m, hcreated, h⟩ => ⟨m, hcreated.after, h.after fun _ => False.elim⟩

/-- Before the insertion a send may also roll back. -/
theorem step_idle (ho : Quiet watched Noted o ∨ o = .sql .rollback) :
    (discipline hash task).StepOk t (Idle t) o fun _ => Idle t := by
  rcases ho with ho | rfl
  · exact kept_idle.step allows ho
  intro w ch r s hi hw _ h
  rcases aboutCommitted.uncommitted (q := .rollback) nofun id h hi with ⟨hi', hg⟩
  refine ⟨hi', hg, ?_, hw.2.after fun _ => False.elim⟩
  rcases exec_rollbackAll h with ⟨rfl, -⟩ | ⟨rfl, -⟩
  · exact hw.1
  · exact ⟨unwritten_of_released fun _ => Table.mine_rollback,
      unwritten_of_released fun _ => Table.mine_rollback⟩

theorem safe_idle {α : Type} {p : Py α}
    (hp : p.Only fun o => Quiet watched Noted o ∨ o = .sql .rollback) :
    (discipline hash task).Safe t p (Idle t) (fun _ => Idle t) fun _ _ => True :=
  (Contract.Safe.only hp kept_idle.stable fun _ => step_idle).mono (fun _ _ hw => hw)
    (fun _ _ _ hw => hw) fun _ _ _ _ => trivial

theorem safe_resolve {senderId : UserId} {idempotencyKey : Text} :
    (discipline hash task).Safe t (resolveExistingClaim senderId idempotencyKey) (Idle t)
      (fun _ => Idle t) fun _ _ => True :=
  safe_idle (only_resolveExistingClaim (fun _ _ => .inl (quiet_select id)) (fun _ _ => .inl (quiet_get id))
    (fun _ => .inl (quiet_other nofun nofun id)) (.inl (quiet_other nofun nofun id)) (.inr rfl) _ _)

/-- The insertion of the message. -/
theorem safe_insertMessage {build : Time → Message}
    (hbuild : ∀ now, (build now).senderId = call.senderId) :
    (discipline hash task).Safe t (Py.flushInsert .messages m build) (Idle t)
      (fun _ => Written call t m []) fun _ _ => True := by
  refine Contract.Safe.await (fun row w => row.isSome → Written call t m [] w)
    (fun _ => .imp fun _ => kept_written.stable) (fun _ => .const True)
    (fun w ch r s hi hw _ h => ?_) fun row => ?_
  · rcases aboutCommitted.uncommitted (q := .insert ..) nofun id h hi with ⟨hi', hg⟩
    refine ⟨hi', hg, ?_⟩
    rcases hw with ⟨⟨hmessages, hattachments⟩, hins⟩
    rcases exec_insertTable h with ⟨rfl, hr⟩ | ⟨now, -, hnone, rfl, rfl⟩
    · cases r with
      | error e => trivial
      | ok row =>
        cases row with
        | none => exact nofun
        | some x => exact absurd rfl (hr x)
    intro _
    rw [view_of_unwritten hmessages] at hnone
    refine ⟨⟨⟨build now, hbuild now, ?_⟩, fun k v x hv => ?_⟩, ⟨by simp, fun a v x hv => ?_⟩,
      fun e he hproc k hk => ?_, _, List.mem_cons_self, rfl, rfl⟩
    · rw [World.after_state, State.set_db, Table.mine_write_self, hnone]
    · rw [World.after_state, State.set_db] at hv
      exact (hmessages.mine_write hv).1
    · rw [World.after_state, State.set_db_of_ne (by simp)] at hv
      exact absurd hv (hattachments a v x)
    · rcases List.mem_cons.mp he with rfl | he
      · exact hk.2.symm
      · exact (hins e he hproc k hk).elim
  · cases row with
    | none => exact fun _ _ _ => trivial
    | some x => exact fun _ _ hw => hw rfl

/-- The rows updated so far, while the rows with these keys are still to come. -/
def Binding (call : IdempotentSend.SendCall) (t : T) (m : MessageId) (ks : List AttachmentId)
    (matched : List Bool) (w : BackendWorld T) : Prop :=
  ∃ done, Written call t m done w ∧ (done ++ ks).Nodup ∧ (∀ a ∈ done ++ ks, a ∈ call.mediaIds) ∧
    done.length = matched.count true

theorem kept_binding {ks : List AttachmentId} {matched : List Bool} :
    Kept K watched Noted t (Binding call t m ks matched) :=
  .exists fun _ => kept_written.and (.const _)

theorem Written.after {done : List AttachmentId} (h : Written call t m done w)
    (ho : ∀ m, ¬ Inserts t m (⟨t, o, r⟩ : Entry T Op Op.Res Exc)) :
    Written call t m done (w.after t o r w.state) := by
  rcases h with ⟨hmessages, hattachments, hins, e, he, hk⟩
  exact ⟨hmessages, hattachments, hins.after fun m hm => absurd hm (ho m), e,
    List.mem_cons_of_mem _ he, hk⟩

/-- The update of one row: what it writes is the committed row with the message's id. -/
theorem Written.write {done : List AttachmentId} {x : Attachment} (h : Written call t m done w) (ha : a ∉ done)
    (hx : (w.state.db .attachments).view t a = some x) (hp : isBindable call.senderId x = true) :
    Written call t m (done ++ [a])
      (w.after t (.sql (.update .attachments a (isBindable call.senderId) fun y =>
          { y with messageId := some m })) (.ok true)
        (w.state.set .attachments
          ((w.state.db .attachments).write t a (some { x with messageId := some m })))) := by
  rcases h with ⟨⟨⟨y, hy, hmine⟩, honly⟩, ⟨hdone, hrest⟩, hins, hinserted⟩
  have hx' : (w.state.db .attachments).committed a = some x := by
    rw [← hx, Table.view_of_unwritten]
    exact fun v z hv => ha (hrest a v z hv)
  refine ⟨⟨⟨y, hy, ?_⟩, fun k v z hv => ?_⟩, ⟨fun b hb => ?_, fun b v z hv => ?_⟩,
    hins.after fun _ => False.elim, ?_⟩
  · rw [World.after_state, State.set_db_of_ne (by simp)]
    exact hmine
  · rw [World.after_state, State.set_db_of_ne (by simp)] at hv
    exact honly k v z hv
  · rw [World.after_state, State.set_db]
    rcases List.mem_append.mp hb with hold | hnew
    · have hne : b ≠ a := fun he => ha (he ▸ hold)
      rw [Table.mine_write_of_ne hne]
      exact hdone b hold
    · rw [List.mem_singleton.mp hnew, Table.mine_write_self, hx']
      exact ⟨x, hp, rfl⟩
  · rw [World.after_state, State.set_db] at hv
    by_cases hb : b = a
    · simp [hb]
    · rw [Table.mine_write_of_ne hb] at hv
      exact List.mem_append_left _ (hrest b v z hv)
  · rcases hinserted with ⟨e, he, hk⟩
    exact ⟨e, List.mem_cons_of_mem _ he, hk⟩

theorem safe_updateRow {ks : List AttachmentId} {matched : List Bool}
    {senderId : UserId} (hs : senderId = call.senderId) :
    (discipline hash task).Safe t
      (Py.sql (.update .attachments a (isBindable senderId) fun y => { y with messageId := some m }))
      (Binding call t m (a :: ks) matched) (fun b => Binding call t m ks (matched ++ [b]))
      fun _ _ => True := by
  subst hs
  refine Contract.Safe.perform (fun _ => kept_binding.stable) (fun _ => .const True)
    fun w ch r s hi hw _ h => ?_
  rcases aboutCommitted.uncommitted (q := .update ..) nofun id h hi with ⟨hi', hg⟩
  refine ⟨hi', hg, ?_⟩
  rcases hw with ⟨done, hwritten, hnodup, hnamed, hlen⟩
  rcases exec_updateTable h with ⟨rfl, hr⟩ | ⟨x, -, hx, hp, rfl, rfl⟩
  · cases r with
    | error e => trivial
    | ok b =>
      cases b with
      | true => exact absurd rfl hr
      | false =>
        refine ⟨done, ?_, hnodup.sublist (List.sublist_cons_self _ _ |>.append_left _), ?_, ?_⟩
        · exact hwritten.after (by simp [Inserts])
        · exact fun b hb => hnamed b (by simp only [List.mem_append, List.mem_cons] at hb ⊢; tauto)
        · rw [hlen]
          simp
  · have ha : a ∉ done := fun ha =>
      List.disjoint_of_nodup_append hnodup ha List.mem_cons_self
    refine ⟨done ++ [a], hwritten.write ha hx hp, ?_, ?_, ?_⟩
    · simpa using hnodup
    · simpa using hnamed
    · simp [hlen]

/-- The rows of a conditional update whose count is the number of rows named are the rows named. -/
theorem ready_of_binding {matched : List Bool} (h : Binding call t m [] matched w)
    (hcount : matched.count true = call.mediaIds.length) : Ready call t w := by
  rcases h with ⟨done, hwritten, hnodup, hnamed, hlen⟩
  rw [List.append_nil] at hnodup hnamed
  refine ⟨m, done, hwritten, hnodup, ?_⟩
  have hsub : done.Subperm call.mediaIds := List.subperm_of_subset hnodup hnamed
  exact hsub.perm_of_length_le (by omega)

theorem safe_bindMedia {senderId : UserId} (hs : senderId = call.senderId) :
    (discipline hash task).Safe t (bindMediaAtomically m call.mediaIds senderId)
      (Written call t m []) (fun _ => Ready call t) fun _ _ => True := by
  unfold bindMediaAtomically
  split
  · rename_i hnil
    exact fun w _ hw => ⟨m, [], hw, List.nodup_nil, by rw [hnil]⟩
  refine Contract.Safe.bind (Q := fun matched => Binding call t m [] matched) ?_ fun matched => ?_
  · refine Contract.Safe.await (fun rows => Binding call t m (rows.map Prod.fst) [])
      (fun _ => kept_binding.stable) (fun _ => .const True) (fun w ch r s hi hw _ h => ?_)
      fun rows => ?_
    · rcases aboutCommitted.uncommitted (q := .select ..) nofun id h hi with ⟨hi', hg⟩
      rcases exec_selectTable h with ⟨rfl, hperm⟩
      refine ⟨hi', hg, ?_⟩
      cases r with
      | error e => trivial
      | ok rows =>
        refine ⟨[], hw.after (by simp [Inserts]), ?_, fun a ha => ?_, rfl⟩
        · exact ((hperm rows rfl).map Prod.fst).nodup_iff.mpr (Table.nodup_scan _)
        · rcases List.mem_map.mp ha with ⟨x, hx, rfl⟩
          have hcond := (Table.mem_scan.mp ((hperm rows rfl).mem_iff.mp hx)).2
          simp only [Bool.and_eq_true, decide_eq_true_eq] at hcond
          exact hcond.1
    · exact (Contract.Safe.forEach
        (I := fun rows matched => Binding call t m (rows.map Prod.fst) matched)
        (fun x xs bs => safe_updateRow hs) rows []).mono (fun _ _ hw => hw)
        (fun _ _ _ hw => by simpa using hw) fun _ _ _ _ => trivial
  · show Contract.Safe _ _ (if _ then _ else _) _ _ _
    split
    · exact fun _ _ _ => trivial
    · rename_i hcount
      refine Contract.Safe.weaken (kept_ready.only allows
        (only_getMessageMedia (fun _ _ => quiet_select id) _)) fun w _ hw => ?_
      exact ready_of_binding hw (by simpa using hcount)

/-! ### A send -/

theorem safe_insertBindCommit {build : Time → Message} {senderId : UserId}
    (hs : senderId = call.senderId) (hbuild : ∀ now, (build now).senderId = call.senderId)
    (ht : task t = .send call) :
    (discipline hash task).Safe t (insertBindCommit senderId call.mediaIds build m) (Idle t)
      (fun _ => Settled t) fun _ _ => True := by
  refine Contract.Safe.bind (safe_insertMessage hbuild) fun message => ?_
  refine Contract.Safe.bind (safe_bindMedia hs) fun media => ?_
  refine Contract.Safe.bind ((safe_commit ht).weaken fun _ _ hw => .inr hw) fun _ => ?_
  exact fun _ _ hw => hw

theorem safe_persistAndPublish {build : Time → Message} {senderId : UserId} {key : Text}
    (hs : senderId = call.senderId) (hbuild : ∀ now, (build now).senderId = call.senderId)
    (ht : task t = .send call) :
    (discipline hash task).Safe t (persistAndPublish senderId key call.mediaIds build m) (Idle t)
      (fun _ => Settled t) fun _ _ => True := by
  have hrelease : (discipline hash task).Safe t (releaseIdempotencyKey senderId key)
      (fun _ => True) (fun _ _ => True) fun _ _ => True :=
    (Kept.const True).perform allows (quiet_other nofun nofun id)
  refine Contract.Safe.bind (Py.safe_exceptException (safe_insertBindCommit hs hbuild ht)
    (fun e _ => ?_) fun _ _ _ _ _ => trivial) fun x => ?_
  · refine Contract.Safe.bind (safe_abort aboutCommitted id) fun _ => ?_
    exact Contract.Safe.bind hrelease fun _ => fun _ _ _ => trivial
  · refine Contract.Safe.bind (kept_settled.only allows ?_) fun _ => fun _ _ hw => hw
    refine Prog.Only.handle (Prog.only_perform (quiet_other nofun nofun id)) fun e => ?_
    split <;> trivial

/-- The rounds of the claim: at most one of them inserts, and it ends the send. -/
theorem safe_claimRounds {build : Time → Message} {senderId : UserId} {key : Text}
    (hs : senderId = call.senderId) (hbuild : ∀ now, (build now).senderId = call.senderId)
    (ht : task t = .send call) (n : ℕ) :
    (discipline hash task).Safe t (claimRounds senderId key call.mediaIds build m n) (Idle t)
      (fun _ => Settled t) fun _ _ => True := by
  induction n with
  | zero => exact fun _ _ _ => trivial
  | succ n ih =>
    have hclaim : (discipline hash task).Safe t (claimIdempotencyKey senderId key m) (Idle t)
        (fun _ => Idle t) fun _ _ => True := kept_idle.perform allows (quiet_other nofun nofun id)
    refine Contract.Safe.bind hclaim fun claimed => ?_
    cases claimed with
    | true => exact safe_persistAndPublish hs hbuild ht
    | false =>
      refine Contract.Safe.bind safe_resolve fun resolved => ?_
      cases resolved with
      | none => exact ih
      | some x => exact fun _ _ hw => settled_of_idle hw

theorem safe_claimAndPersist {build : Time → Message} {senderId : UserId} {key : Text}
    (hs : senderId = call.senderId) (hbuild : ∀ now, (build now).senderId = call.senderId)
    (ht : task t = .send call) :
    (discipline hash task).Safe t (claimAndPersistMessage senderId key call.mediaIds build) (Idle t)
      (fun _ => Settled t) fun _ _ => True :=
  Contract.Safe.bind (kept_idle.perform allows (quiet_other nofun nofun id)) fun _ =>
    safe_claimRounds hs hbuild ht _

/-- The body of a send. -/
theorem safe_send (ht : task t = .send call) :
    (discipline hash task).Safe t call.send (Idle t) (fun _ => Settled t) fun _ _ => True := by
  have hvalidate : (discipline hash task).Safe t
      (validateAndLoadMedia call.mediaIds call.senderId) (Idle t) (fun _ => Idle t) fun _ _ => True :=
    safe_idle (only_validateAndLoadMedia (fun _ _ => .inl (quiet_select id)) _ _)
  unfold IdempotentSend.SendCall.send
  split
  all_goals
    refine Contract.Safe.bind safe_resolve fun resolved => ?_
    cases resolved with
    | some x => exact fun _ _ hw => settled_of_idle hw
    | none => ?_
  · refine Contract.Safe.bind (safe_idle (only_ensureChannelAndMembership
      (fun _ _ => .inl (quiet_get id)) _ _)) fun _ => ?_
    show Contract.Safe _ _ (if _ then _ else _) _ _ _
    split
    · exact fun _ _ _ => trivial
    · exact Contract.Safe.bind hvalidate fun _ => safe_claimAndPersist rfl (fun _ => rfl) ht
  · refine Contract.Safe.bind (safe_idle (only_rejectSelfDm _ _)) fun _ => ?_
    refine Contract.Safe.bind (safe_idle (only_ensureActiveRecipientExists
      (fun _ _ => .inl (quiet_get id)) _)) fun _ => ?_
    show Contract.Safe _ _ (if _ then _ else _) _ _ _
    split
    · exact fun _ _ _ => trivial
    · exact Contract.Safe.bind hvalidate fun _ => safe_claimAndPersist rfl (fun _ => rfl) ht

/-! ### A sweep -/

/-- A row the sweep has locked is bound to no message, and has not been deleted. -/
theorem Swept.lock {x : Attachment} (h : Swept t w)
    (hfree : (w.state.db .attachments).Free t a)
    (hx : (w.state.db .attachments).view t a = some x) :
    Swept t (w.after t o r (w.state.set .attachments ((w.state.db .attachments).lock t a))) ∧
      ((w.state.db .attachments).lock t a).mine t a = some (none, some x) := by
  rcases h with ⟨hmessages, hswept⟩
  have hnone : ∀ v y, (w.state.db .attachments).mine t a ≠ some (some v, y) := by
    intro v y hv
    rw [Table.view_of_mine hv, (hswept a v y hv).1] at hx
    cases hx
  have hself := Table.mine_lock_self hfree hnone
  rw [← Table.view_of_unwritten hnone, hx] at hself
  refine ⟨⟨hmessages.set (by simp), fun b v y hv => ?_⟩, hself⟩
  rw [World.after_state, State.set_db] at hv
  by_cases hb : b = a
  · rw [hb, hself] at hv
    cases hv
  · rw [Table.mine_lock_of_ne hb] at hv
    exact hswept b v y hv

theorem stable_sweptOrphan : K.Stable t fun w => Swept t w ∧ Orphan t a w :=
  kept_swept.stable.and stable_orphan

/-- `SELECT … WHERE message_id IS NULL FOR UPDATE`. -/
theorem safe_lockOrphan {A : BackendWorld T → Prop} (hA : ∀ w, A w → Swept t w) :
    (discipline hash task).Safe t (Py.sql (.lock .attachments a fun x => x.messageId.isNone)) A
      (fun x w => Swept t w ∧ (x.isSome → Orphan t a w)) fun _ _ => True := by
  refine Contract.Safe.perform (fun _ => kept_swept.stable.and (.imp fun _ => stable_orphan))
    (fun _ => .const True) fun w ch r s hi hw _ h => ?_
  rcases aboutCommitted.uncommitted (q := .lock ..) nofun id h hi with ⟨hi', hg⟩
  refine ⟨hi', hg, ?_⟩
  rcases exec_lockTable h with ⟨rfl, hr⟩ | ⟨x, hfree, hx, rfl, rfl⟩
  · cases r with
    | error e => trivial
    | ok x =>
      rw [(hr x rfl).1]
      exact ⟨hA w hw, nofun⟩
  · rcases (hA w hw).lock hfree hx with ⟨hswept, hself⟩
    refine ⟨hswept, fun hsome => ⟨x, ?_, ?_⟩⟩
    · rw [World.after_state, State.set_db]
      exact hself
    · by_cases hx' : x.messageId.isNone = true
      · simpa using hx'
      · rw [if_neg hx'] at hsome
        cases hsome

/-- The deletion of the object of a row that is held. -/
theorem safe_purgeObject (ht : task t = .sweep ttl n) :
    (discipline hash task).Safe t (purgeObject a) (fun w => Swept t w ∧ Orphan t a w)
      (fun _ w => Swept t w ∧ Orphan t a w) fun _ _ => True := by
  refine Contract.Safe.handle (R := fun _ w => Swept t w ∧ Orphan t a w) ?_ fun e => ?_
  · refine Contract.Safe.await (fun _ w => Swept t w ∧ Orphan t a w) (fun _ => stable_sweptOrphan)
      (fun _ => stable_sweptOrphan) (fun w ch r s hi hw _ h => ?_) fun _ _ _ hw => hw
    have hdb : s.db = w.state.db := by
      rcases exec_deleteObject h with ⟨rfl, -⟩ | rfl <;> rfl
    have hkeep : Swept t (w.after t (.deleteObject a) r s) ∧
        Orphan t a (w.after t (.deleteObject a) r s) := by
      unfold Swept Unwritten Orphan
      rw [World.after_state, hdb]
      exact hw
    refine ⟨trivial, ⟨⟨_, _, ht⟩, hw.2⟩, ?_⟩
    cases r <;> exact hkeep
  · split
    · exact fun _ _ hw => hw
    · exact fun _ _ _ => trivial

/-- `DELETE … WHERE message_id IS NULL`. -/
theorem safe_deleteUnbound :
    (discipline hash task).Safe t (deleteUnbound a) (fun w => Swept t w ∧ Orphan t a w)
      (fun _ => Swept t) fun _ _ => True := by
  refine Contract.Safe.bind (safe_lockOrphan fun _ hw => hw.1) fun x => ?_
  cases x with
  | none => exact fun _ _ hw => hw.1
  | some x =>
    refine Contract.Safe.perform (fun _ => kept_swept.stable) (fun _ => .const True)
      fun w ch r s hi hw _ h => ?_
    rcases aboutCommitted.uncommitted (q := .delete ..) nofun id h hi with ⟨hi', hg⟩
    refine ⟨hi', hg, ?_⟩
    rcases hw with ⟨⟨hmessages, hswept⟩, hold⟩
    rcases hold rfl with ⟨y, hy, hnone⟩
    rcases exec_deleteTable h with ⟨rfl, -⟩ | ⟨z, -, -, rfl, rfl⟩
    · cases r with
      | error e => trivial
      | ok b => exact ⟨hmessages, hswept⟩
    refine ⟨hmessages.set (by simp), fun b v z hv => ?_⟩
    rw [World.after_state, State.set_db] at hv
    by_cases hb : b = a
    · rw [hb, Table.mine_write_self, (Table.mine_eq_some.mp hy).2] at hv
      cases hv
      exact ⟨rfl, y, rfl, hnone⟩
    · rw [Table.mine_write_of_ne hb] at hv
      exact hswept b v z hv

theorem safe_sweepRow (ht : task t = .sweep ttl n) :
    (discipline hash task).Safe t (sweepRow a) (Swept t) (fun _ => Swept t) fun _ _ => True := by
  refine Contract.Safe.bind (safe_lockOrphan fun _ hw => hw) fun x => ?_
  cases x with
  | none => exact fun _ _ hw => hw.1
  | some x =>
    refine Contract.Safe.bind ((safe_purgeObject ht).weaken fun _ _ hw => ⟨hw.1, hw.2 rfl⟩)
      fun purged => ?_
    cases purged with
    | false => exact fun _ _ hw => hw.1
    | true =>
      refine Contract.Safe.bind safe_deleteUnbound fun deleted => ?_
      cases deleted <;> exact fun _ _ hw => hw

theorem safe_sweep (ht : task t = .sweep ttl n) :
    (discipline hash task).Safe t (mediaOrphanSweep ttl n) (Swept t) (fun _ _ => True)
      fun _ _ => True := by
  have habort : (discipline hash task).Safe t Py.rollback (fun _ => True) (fun _ _ => True)
      fun _ _ => True := safe_abort aboutCommitted id
  refine Contract.Safe.bind (Q := fun _ _ => True) (Contract.Safe.handle (R := fun _ _ => True) ?_
    fun e => Contract.Safe.bind habort fun _ => fun _ _ _ => trivial) fun a =>
    Contract.Safe.bind habort fun _ => fun _ _ _ => trivial
  refine Contract.Safe.bind (kept_swept.perform allows (quiet_other nofun nofun id)) fun now => ?_
  refine Contract.Safe.bind (kept_swept.perform allows (quiet_select id)) fun rows => ?_
  refine Contract.Safe.bind (Contract.Safe.forEach (I := fun _ _ => Swept t)
    (fun x _ _ => safe_sweepRow ht) _ []) fun swept => ?_
  refine Contract.Safe.bind (Q := fun _ _ => True) ?_ fun _ => fun _ _ _ => trivial
  refine Contract.Safe.perform (fun _ => .const True) (fun _ => .const True)
    fun w ch r s hi hw _ h => ?_
  have hfit : Fit task t w := by
    unfold Fit
    rw [ht]
    exact hw
  refine ⟨trivial, ?_, ?_⟩
  · cases r with
    | ok x => exact hfit
    | error e => trivial
  · cases r <;> trivial

/-! ### Every run is disciplined -/

theorem swept_of_idle (h : Idle t w) : Swept t w :=
  ⟨h.1.1, fun b v x hv => absurd hv (h.1.2 b v x)⟩

theorem safe_task :
    (discipline hash task).Safe t (task t).program (Idle t) (fun _ _ => True) fun _ _ => True := by
  cases ht : task t with
  | send call =>
    refine Contract.Safe.bind (Q := fun _ _ => True) ?_ fun _ => fun _ _ _ => trivial
    exact safe_request ((safe_commit ht).weaken fun _ _ hw => .inl hw) safe_keep
      (safe_abort aboutCommitted id) (safe_send ht)
  | sweep ttl n =>
    refine Contract.Safe.bind ((safe_sweep ht).weaken fun _ _ hw => swept_of_idle hw) fun _ => ?_
    exact fun _ _ _ => trivial

abbrev MediaPool (T : Type) : Type := Pool T Op Op.Res Exc Unit (State T)

/-- Before the first step: no transaction is open. -/
structure Fresh (task : T → Task) (p : MediaPool T) : Prop where
  prog : ∀ t, p.prog t = (task t).program
  trace : p.world.trace = []
  hold : ∀ τ k, (p.world.state.db τ).hold k = none

theorem Fresh.idle {p : MediaPool T} (h : Fresh task p) : Idle t p.world := by
  have hnone : ∀ τ k, (p.world.state.db τ).mine t k = none := by
    intro τ k
    rw [Table.mine_eq_none]
    rintro ⟨q, hq⟩
    rw [h.hold] at hq
    cases hq
  refine ⟨⟨unwritten_of_released (hnone .messages), unwritten_of_released (hnone .attachments)⟩, ?_⟩
  intro e he
  rw [h.trace] at he
  cases he

theorem eventsOk : (discipline hash task).EventsOk := fun _ _ _ _ _ _ => trivial

/-- **Every request keeps to the discipline**, whatever the others do. -/
theorem Fresh.sound {p : MediaPool T} (h : Fresh task p) (hash : RawToken → TokenHash) :
    (discipline hash task).Sound (fun _ _ _ => True) (fun _ _ _ => True) p where
  inv := trivial
  safe t := by
    refine ⟨Idle t, kept_idle.stable, h.idle, ?_⟩
    rw [h.prog]
    exact safe_task

end Chatspace.MediaRequests
