import Chatspace.Backend.Readers
import Chatspace.Services.IdempotentSend
import Chatspace.Services.MessageEdits

/-!
# Whose messages they are

Sends, edits and deletions by any callers, interleaved step by step with each other and with
whatever else leaves the messages alone, and failing at any await.

* `Change` — what a step may do to the messages: post one, edit or delete one, or nothing;
* `Descends`, `Evolves` — what can have become of a message, and of all of them;
* `messages_authored` — **a message is posted by its sender, who was entitled to, and is changed
  by nobody else.**
-/

namespace Chatspace.Authorship

open Interleave Store Messages

/-- A request about a message, or another one. -/
inductive Task where
  | send (call : IdempotentSend.SendCall)
  | edit (messageId : MessageId) (callerId : UserId) (content : Text)
  | delete (messageId : MessageId) (callerId : UserId)
  | other (p : Py Unit)

def Task.program : Task → Py Unit
  | .send call => (Py.getDbSession call.send).bind fun _ => .ret ()
  | .edit m u content => (editMessageRoute m u content).bind fun _ => .ret ()
  | .delete m u => deleteMessageRoute m u
  | .other p => p

/-! ### What may become of the messages -/

abbrev Log : Type := MessageId → Option Message

/-- Which rows were found under which keys. -/
abbrev Rows : Type := (τ : Tbl) → τ.Key → Option τ.Row → Prop

/-- The message a send writes. -/
def posted (call : IdempotentSend.SendCall) (now : Time) : Message :=
  ⟨call.target, call.senderId, call.content, now, none, none⟩

/-- The content is valid; the channel is there and the sender one of its members, or the recipient
is active and another user. -/
def MaySend (R : Rows) (call : IdempotentSend.SendCall) : Prop :=
  isValidContent call.content = true ∧
    match call.target with
    | .channel c =>
      (∃ x, R .channels c (some x)) ∧ ∃ x, R .channelMembers (c, call.senderId) (some x)
    | .dm r => r ≠ call.senderId ∧ ∃ x : User, R .users r (some x) ∧ x.isActive = true

/-- The user is a member of the channel the message is in. -/
def MaySee (R : Rows) (target : MessageTarget) (u : UserId) : Prop :=
  match target with
  | .channel c => ∃ x, R .channelMembers (c, u) (some x)
  | .dm _ => True

/-- What a step of a request does to the messages. -/
inductive Change (task : Task) (R : Rows) (log : Log) : Log → Prop
  | same : Change task R log log
  | post {call : IdempotentSend.SendCall} {m : MessageId} {now : Time} (ht : task = .send call)
      (hmay : MaySend R call) (hnew : log m = none) :
      Change task R log (Function.update log m (some (posted call now)))
  | edit {m : MessageId} {content : Text} {x : Message} {now : Time}
      (ht : task = .edit m x.senderId content) (hx : log m = some x)
      (hmay : MaySee R x.target x.senderId) (hvalid : isValidContent content = true) :
      Change task R log
        (Function.update log m (some { x with content := content, editedAt := some now }))
  | delete {m : MessageId} {x : Message} {now : Time} (ht : task = .delete m x.senderId)
      (hx : log m = some x) (hmay : MaySee R x.target x.senderId) :
      Change task R log (Function.update log m (some { x with deletedAt := some now }))

/-- What can have become of message `m`: its place, its sender and its time are what they were, its
content is one its sender has made it by an edit, and it is deleted once its sender has deleted
it. -/
structure Descends {T : Type} (task : T → Task) (R : T → Rows) (m : MessageId) (x y : Message) :
    Prop where
  target : y.target = x.target
  senderId : y.senderId = x.senderId
  createdAt : y.createdAt = x.createdAt
  content : y.content = x.content ∨ ∃ t, task t = .edit m x.senderId y.content ∧
    isValidContent y.content = true ∧ MaySee (R t) x.target x.senderId
  deleted : x.deletedAt ≠ none → y.deletedAt ≠ none
  deletedAt : y.deletedAt = x.deletedAt ∨ ∃ t, task t = .delete m x.senderId ∧
    MaySee (R t) x.target x.senderId

variable {T : Type} {task : T → Task} {t t' : T} {R R' : Rows} {S S' : T → Rows} {log log' : Log}
  {m : MessageId} {u : UserId} {x y z : Message} {call : IdempotentSend.SendCall}

theorem posted_channel {c : ChannelId} (h : call.target = .channel c) :
    posted call = fun now => ⟨.channel c, call.senderId, call.content, now, none, none⟩ := by
  funext now
  rw [posted, h]

theorem posted_dm {recipientId : UserId} (h : call.target = .dm recipientId) :
    posted call = fun now => ⟨.dm recipientId, call.senderId, call.content, now, none, none⟩ := by
  funext now
  rw [posted, h]

theorem MaySend.mono (hR : ∀ {τ k a}, R τ k a → R' τ k a) (h : MaySend R call) :
    MaySend R' call := by
  unfold MaySend at h ⊢
  refine ⟨h.1, ?_⟩
  have hmay := h.2
  split at hmay
  · exact ⟨hmay.1.imp fun _ => hR, hmay.2.imp fun _ => hR⟩
  · exact ⟨hmay.1, hmay.2.imp fun _ hx => ⟨hR hx.1, hx.2⟩⟩

theorem MaySee.mono {target : MessageTarget} (hR : ∀ {τ k a}, R τ k a → R' τ k a)
    (h : MaySee R target u) : MaySee R' target u := by
  unfold MaySee at h ⊢
  split at h
  · exact h.imp fun _ => hR
  · trivial

theorem Descends.refl : Descends task S m x x :=
  ⟨rfl, rfl, rfl, .inl rfl, id, .inl rfl⟩

theorem Descends.trans (h : Descends task S m x y) (h' : Descends task S m y z) :
    Descends task S m x z where
  target := h'.target.trans h.target
  senderId := h'.senderId.trans h.senderId
  createdAt := h'.createdAt.trans h.createdAt
  content := by
    rcases h'.content with heq | hedit
    · rw [heq]
      exact h.content
    · rw [h.senderId, h.target] at hedit
      exact .inr hedit
  deleted hx := h'.deleted (h.deleted hx)
  deletedAt := by
    rcases h'.deletedAt with heq | hdelete
    · rw [heq]
      exact h.deletedAt
    · rw [h.senderId, h.target] at hdelete
      exact .inr hdelete

theorem Descends.mono (hS : ∀ {t τ k a}, S t τ k a → S' t τ k a) (h : Descends task S m x y) :
    Descends task S' m x y where
  target := h.target
  senderId := h.senderId
  createdAt := h.createdAt
  content := by
    rcases h.content with heq | hedit
    · exact .inl heq
    · obtain ⟨t, ht, hvalid, hmay⟩ := hedit
      exact .inr ⟨t, ht, hvalid, hmay.mono hS⟩
  deleted := h.deleted
  deletedAt := by
    rcases h.deletedAt with heq | hdelete
    · exact .inl heq
    · obtain ⟨t, ht, hmay⟩ := hdelete
      exact .inr ⟨t, ht, hmay.mono hS⟩

/-- A step keeps every message that is there. -/
theorem Change.descends (h : Change (task t) R log log') (hR : ∀ {τ k a}, R τ k a → S t τ k a)
    (hx : log m = some x) : ∃ y, log' m = some y ∧ Descends task S m x y := by
  cases h with
  | same => exact ⟨x, hx, .refl⟩
  | @post call m' now ht hmay hnew =>
    have hne : m ≠ m' := by
      rintro rfl
      cases hnew.symm.trans hx
    exact ⟨x, (Function.update_of_ne hne _ _).trans hx, .refl⟩
  | @edit m' content x' now ht hx' hmay hvalid =>
    by_cases hm : m = m'
    · subst hm
      obtain rfl := Option.some.inj (hx.symm.trans hx')
      exact ⟨_, Function.update_self .., rfl, rfl, rfl, .inr ⟨t, ht, hvalid, hmay.mono hR⟩, id,
        .inl rfl⟩
    · exact ⟨x, (Function.update_of_ne hm _ _).trans hx, .refl⟩
  | @delete m' x' now ht hx' hmay =>
    by_cases hm : m = m'
    · subst hm
      obtain rfl := Option.some.inj (hx.symm.trans hx')
      exact ⟨_, Function.update_self .., rfl, rfl, rfl, .inl rfl, fun _ => Option.some_ne_none _,
        .inr ⟨t, ht, hmay.mono hR⟩⟩
    · exact ⟨x, (Function.update_of_ne hm _ _).trans hx, .refl⟩

/-- A message that was not there is posted by a send. -/
theorem Change.posted (h : Change (task t) R log log') (hnone : log m = none)
    (hy : log' m = some y) : ∃ call now, task t = .send call ∧ MaySend R call ∧
      y = Authorship.posted call now := by
  cases h with
  | same => cases hnone.symm.trans hy
  | @post call m' now ht hmay hnew =>
    by_cases hm : m = m'
    · subst hm
      rw [Function.update_self] at hy
      exact ⟨call, now, ht, hmay, (Option.some.inj hy).symm⟩
    · rw [Function.update_of_ne hm] at hy
      cases hnone.symm.trans hy
  | @edit m' content x' now ht hx' hmay hvalid =>
    have hm : m ≠ m' := by
      rintro rfl
      cases hnone.symm.trans hx'
    rw [Function.update_of_ne hm] at hy
    cases hnone.symm.trans hy
  | @delete m' x' now ht hx' hmay =>
    have hm : m ≠ m' := by
      rintro rfl
      cases hnone.symm.trans hx'
    rw [Function.update_of_ne hm] at hy
    cases hnone.symm.trans hy

theorem Change.mono (hR : (∀ q, task t ≠ .other q) → ∀ {τ k a}, R τ k a → R' τ k a)
    (h : Change (task t) R log log') : Change (task t) R' log log' := by
  cases h with
  | same => exact .same
  | post ht hmay hnew => exact .post ht (hmay.mono (hR (by simp [ht]))) hnew
  | edit ht hx hmay hvalid => exact .edit ht hx (hmay.mono (hR (by simp [ht]))) hvalid
  | delete ht hx hmay => exact .delete ht hx (hmay.mono (hR (by simp [ht])))

/-- What can have become of the messages: those that were there have only been edited and deleted,
each by its sender, and the others have been sent. -/
structure Evolves (task : T → Task) (S : T → Rows) (log log' : Log) : Prop where
  kept : ∀ m x, log m = some x → ∃ y, log' m = some y ∧ Descends task S m x y
  sent : ∀ m y, log' m = some y → log m = none → ∃ t call now,
    task t = .send call ∧ MaySend (S t) call ∧ Descends task S m (posted call now) y

theorem Evolves.refl : Evolves task S log log :=
  ⟨fun _ x hx => ⟨x, hx, .refl⟩, fun _ _ hy hnone => nomatch hnone.symm.trans hy⟩

theorem Evolves.mono (hS : ∀ {t τ k a}, S t τ k a → S' t τ k a) (h : Evolves task S log log') :
    Evolves task S' log log' where
  kept m x hx := by
    obtain ⟨y, hy, hdesc⟩ := h.kept m x hx
    exact ⟨y, hy, hdesc.mono hS⟩
  sent m y hy hnone := by
    obtain ⟨t, call, now, ht, hmay, hdesc⟩ := h.sent m y hy hnone
    exact ⟨t, call, now, ht, hmay.mono hS, hdesc.mono hS⟩

theorem Evolves.change {log'' : Log} (h : Evolves task S log log')
    (hc : Change (task t) (S t) log' log'') : Evolves task S log log'' where
  kept m x hx := by
    obtain ⟨y, hy, hdesc⟩ := h.kept m x hx
    obtain ⟨z, hz, hdesc'⟩ := hc.descends (S := S) id hy
    exact ⟨z, hz, hdesc.trans hdesc'⟩
  sent m z hz hnone := by
    cases hy : log' m with
    | none =>
      obtain ⟨call, now, ht, hmay, rfl⟩ := hc.posted hy hz
      exact ⟨t, call, now, ht, hmay, .refl⟩
    | some y =>
      obtain ⟨t', call, now, ht, hmay, hdesc⟩ := h.sent m y hy hnone
      obtain ⟨z', hz', hdesc'⟩ := hc.descends (S := S) id hy
      obtain rfl := Option.some.inj (hz.symm.trans hz')
      exact ⟨t', call, now, ht, hmay, hdesc.trans hdesc'⟩

/-! ### What a request knows -/

variable [DecidableEq T] {hash : RawToken → TokenHash} {w w' : BackendWorld T} {s : State T}
  {o : Op} {r : Except Exc o.Res} {A E : BackendWorld T → Prop}

/-- The committed messages. -/
def messages (w : BackendWorld T) : Log := (w.state.db .messages).committed

/-- The tables that say who may. -/
def consulted : List Tbl := [.users, .channels, .channelMembers]

/-- The rows of these request `t` has been told of. -/
def told (t : T) (w : BackendWorld T) : Rows :=
  fun τ k a => τ ∈ consulted ∧ Seen t (.sql (.get τ k)) a w

/-- Every step is a change its request may make. -/
def authored (hash : RawToken → TokenHash) (task : T → Task) : Contract (machine T hash) where
  inv _ := True
  pre := .always
  guar t _ _ w w' := Change (task t) (told t w) (messages w) (messages w')

def watched : List Tbl := [.messages]

theorem messages_mem : Tbl.messages ∈ watched := by simp [watched]

/-- Nothing but the messages is looked at. -/
def Noted (_ : Op) : Prop := False

theorem aboutCommitted : AboutCommitted (authored hash task) watched Noted := by
  intro t o r w s _ _ _ hcommitted _
  refine ⟨trivial, ?_⟩
  show Change (task t) (told t w) (messages w) (s.db .messages).committed
  rw [hcommitted .messages messages_mem]
  exact .same

theorem allows : Allows (authored hash task) watched Noted :=
  aboutCommitted.allows messages_mem fun _ => id

/-- The request has written no message. -/
abbrev Idle (t : T) (w : BackendWorld T) : Prop := Unwritten .messages t w

/-- The message is there, and will keep its sender and its place. -/
def Owned (m : MessageId) (u : UserId) (target : MessageTarget) (w : BackendWorld T) : Prop :=
  ∃ x, messages w m = some x ∧ x.senderId = u ∧ x.target = target

/-- The one message the request has written: a new one, -/
def Posting (call : IdempotentSend.SendCall) (m : MessageId) (t : T) (w : BackendWorld T) : Prop :=
  (∃ now, (w.state.db .messages).mine t m = some (some (some (posted call now)), none)) ∧
    ∀ k v x, (w.state.db .messages).mine t k = some (some v, x) → k = m

/-- or one that is there. -/
def Rewriting (m : MessageId) (u : UserId) (target : MessageTarget) (f : Message → Message) (t : T)
    (w : BackendWorld T) : Prop :=
  (∃ x, (w.state.db .messages).mine t m = some (some (some (f x)), some x) ∧ x.senderId = u ∧
      x.target = target) ∧
    ∀ k v x, (w.state.db .messages).mine t k = some (some v, x) → k = m

variable {target : MessageTarget} {f : Message → Message}

theorem kept_idle : Kept (authored hash task) watched Noted t (Idle t) :=
  kept_unwritten messages_mem

theorem kept_posting : Kept (authored hash task) watched Noted t (Posting call m t) :=
  Kept.mine messages_mem (P := fun n => (∃ now, n m = some (some (some (posted call now)), none)) ∧
    ∀ k v x, n k = some (some v, x) → k = m)

theorem kept_rewriting :
    Kept (authored hash task) watched Noted t (Rewriting m u target f t) :=
  Kept.mine messages_mem (P := fun n => (∃ x, n m = some (some (some (f x)), some x) ∧
    x.senderId = u ∧ x.target = target) ∧ ∀ k v x, n k = some (some v, x) → k = m)

theorem Owned.change (h : Owned m u target w)
    (hc : Change (task t') (told t' w) (messages w) (messages w')) : Owned m u target w' := by
  obtain ⟨x, hx, hsender, htarget⟩ := h
  obtain ⟨y, hy, hdesc⟩ := hc.descends (S := fun _ _ _ _ => True) (fun _ => trivial) hx
  exact ⟨y, hy, hdesc.senderId.trans hsender, hdesc.target.trans htarget⟩

theorem kept_owned : Kept (authored hash task) watched Noted t (Owned m u target) where
  stable w w' _ _ ho h := by
    cases ho with
    | proc hne hpre hexec hguar => exact h.change hguar
    | event hpre hexec =>
      cases hexec
      exact h
  quiet w o r s _ hun h := by
    obtain ⟨x, hx, hrest⟩ := h
    refine ⟨x, ?_, hrest⟩
    show (s.db .messages).committed m = some x
    rw [hun.db .messages messages_mem]
    exact hx

/-- What is told is known. -/
theorem kept_known (hE : Known t E) : Kept (authored hash task) watched Noted t E :=
  ⟨hE.stable, fun _ _ _ _ _ _ hw => hE.after hw⟩

theorem known_told {P : Rows → Prop}
    (hP : ∀ {R R'}, (∀ {τ k a}, R τ k a → R' τ k a) → P R → P R') :
    Known t fun w : BackendWorld T => P (told t w) :=
  fun _ _ h hw => hP (fun ha => ⟨ha.1, h _ ha.2⟩) hw

theorem known_told_of {τ : Tbl} {k : τ.Key} {a : Option τ.Row} :
    Known t fun w : BackendWorld T => told t w τ k a :=
  known_told (P := fun R => R τ k a) fun h => h

theorem known_maySend : Known t fun w : BackendWorld T => MaySend (told t w) call :=
  known_told (P := fun R => MaySend R call) fun h hmay => MaySend.mono h hmay

theorem known_maySee : Known t fun w : BackendWorld T => MaySee (told t w) target u :=
  known_told (P := fun R => MaySee R target u) fun h hmay => MaySee.mono h hmay

/-! ### Commits -/

/-- What a transaction that has written one message sees. -/
theorem view_of_written {v a : Option Message}
    (hm : (w.state.db .messages).mine t m = some (some v, a))
    (honly : ∀ k v x, (w.state.db .messages).mine t k = some (some v, x) → k = m) :
    (w.state.db .messages).view t = Function.update (messages w) m v := by
  funext k
  by_cases hk : k = m
  · subst hk
    rw [Function.update_self]
    exact Table.view_of_mine hm
  · rw [Function.update_of_ne hk]
    exact Table.view_of_unwritten fun v x hv => hk (honly k v x hv)

theorem safe_commit
    (h : ∀ w, A w →
      Change (task t) (told t w) (messages w) ((w.state.db .messages).view t)) :
    (authored hash task).Safe t Py.commit A (fun _ => Idle t) fun _ _ => True := by
  refine Contract.Safe.perform (fun _ => kept_idle.stable) (fun _ => .const True)
    fun w ch r s hi hw _ hx => ?_
  rcases exec_commitAll hx with ⟨rfl, e, rfl⟩ | ⟨rfl, rfl⟩
  · obtain ⟨hi', hg⟩ := aboutCommitted.failed id hi
    exact ⟨hi', hg, trivial⟩
  · refine ⟨trivial, h w hw, fun k v x hv => ?_⟩
    cases (Table.mine_commit (k := k)).symm.trans hv

theorem change_of_idle (h : Idle t w) :
    Change (task t) (told t w) (messages w) ((w.state.db .messages).view t) := by
  have heq : (w.state.db .messages).view t = messages w := funext (view_of_unwritten h)
  rw [heq]
  exact .same

theorem safe_commitIdle :
    (authored hash task).Safe t Py.commit (Idle t) (fun _ => Idle t) fun _ _ => True :=
  safe_commit fun _ => change_of_idle

/-- A step that leaves the messages alone. -/
theorem step_leaves (hE : Known t E) (ho : Leaves .messages o) :
    (authored hash task).StepOk t (fun w => Idle t w ∧ E w) o fun _ w => Idle t w ∧ E w := by
  intro w ch r s hi hw _ hx
  by_cases hc : o = .sql .commit
  · subst hc
    rcases exec_commitAll hx with ⟨rfl, e, rfl⟩ | ⟨rfl, rfl⟩
    · obtain ⟨hi', hg⟩ := aboutCommitted.failed id hi
      exact ⟨hi', hg, hw.1, hE.after hw.2⟩
    · refine ⟨trivial, change_of_idle hw.1, fun k v x hv => ?_, hE.after hw.2⟩
      cases (Table.mine_commit (k := k)).symm.trans hv
  · refine ⟨trivial, ?_, fun k v x hv => ?_, hE.after hw.2⟩
    · show Change (task t) (told t w) (messages w) (s.db .messages).committed
      rw [exec_committed_db hc hx]
      exact .same
    · rcases ho.spares with hspares | rfl | rfl
      · rw [World.after_state, exec_spares hspares hx] at hv
        exact hw.1 k v x hv
      · exact hc rfl
      · rcases exec_rollbackAll hx with ⟨rfl, -⟩ | ⟨rfl, -⟩
        · exact hw.1 k v x hv
        · cases (Table.mine_rollback (k := k)).symm.trans hv

theorem safe_leaves {α : Type} {p : Py α} (hE : Known t E) (hp : p.Only (Leaves .messages)) :
    (authored hash task).Safe t p (fun w => Idle t w ∧ E w) (fun _ w => Idle t w ∧ E w)
      fun _ _ => True :=
  (Contract.Safe.only hp (kept_idle.stable.and hE.stable) fun _ ho => step_leaves hE ho).mono
    (fun _ _ hw => hw) (fun _ _ _ hw => hw) fun _ _ _ _ => trivial

/-! ### A send -/

/-- Asking for a row. -/
theorem safe_get {τ : Tbl} {k : τ.Key} (hτ : τ ∈ consulted)
    (hA : Kept (authored hash task) watched Noted t A) :
    (authored hash task).Safe t (Py.get τ k) A (fun a w => A w ∧ told t w τ k a)
      fun _ _ => True := by
  refine Contract.Safe.perform (fun a => hA.stable.and known_told_of.stable)
    (fun _ => .const True) fun w ch r s hi hw hp hx => ?_
  obtain ⟨hi', hg, hw'⟩ := hA.step allows (quiet_get id) w ch r s hi hw hp hx
  refine ⟨hi', hg, ?_⟩
  cases r with
  | error e => trivial
  | ok a =>
    refine ⟨hw', hτ, ?_⟩
    rw [Seen, World.own_after]
    exact List.mem_cons_self

theorem safe_ensureMembership {c : ChannelId} :
    (authored hash task).Safe t (ensureChannelAndMembership c u) (Idle t)
      (fun _ w => Idle t w ∧ (∃ x, told t w .channels c (some x)) ∧
        ∃ x, told t w .channelMembers (c, u) (some x)) fun _ _ => True := by
  refine Contract.Safe.bind (safe_get (by simp [consulted]) kept_idle) fun channel => ?_
  cases channel with
  | none => exact fun _ _ _ => trivial
  | some channel =>
    refine Contract.Safe.bind (safe_get (by simp [consulted])
      (kept_idle.and (kept_known known_told_of))) fun membership => ?_
    cases membership with
    | none => exact fun _ _ _ => trivial
    | some membership => exact fun w _ hw => ⟨hw.1.1, ⟨channel, hw.1.2⟩, membership, hw.2⟩

theorem safe_ensureRecipient {recipientId : UserId} :
    (authored hash task).Safe t (ensureActiveRecipientExists recipientId) (Idle t)
      (fun _ w => Idle t w ∧ ∃ x : User, told t w .users recipientId (some x) ∧ x.isActive = true)
      fun _ _ => True := by
  refine Contract.Safe.bind (safe_get (by simp [consulted]) kept_idle) fun recipient => ?_
  cases recipient with
  | none => exact fun _ _ _ => trivial
  | some recipient =>
    show Contract.Safe _ _ (if _ then _ else _) _ _ _
    split
    · rename_i hactive
      exact fun w _ hw => ⟨hw.1, recipient, hw.2, hactive⟩
    · exact fun _ _ _ => trivial

theorem safe_resolve {senderId : UserId} {key : Text} (hE : Known t E) :
    (authored hash task).Safe t (resolveExistingClaim senderId key) (fun w => Idle t w ∧ E w)
      (fun _ w => Idle t w ∧ E w) fun _ _ => True :=
  safe_leaves hE (only_resolveExistingClaim (fun _ _ => trivial) (fun _ _ => trivial)
    (fun _ => trivial) trivial trivial _ _)

/-- The message is inserted with its media, and committed. -/
theorem safe_insertBindCommit {mediaIds : List AttachmentId} {senderId : UserId}
    (ht : task t = .send call) :
    (authored hash task).Safe t (insertBindCommit senderId mediaIds (posted call) m)
      (fun w => Idle t w ∧ MaySend (told t w) call) (fun _ => Idle t) fun _ _ => True := by
  have hinsert : (authored hash task).Safe t (Py.flushInsert .messages m (posted call))
      (fun w => Idle t w ∧ MaySend (told t w) call)
      (fun _ w => Posting call m t w ∧ MaySend (told t w) call) fun _ _ => True := by
    refine aboutCommitted.flushInsert id (kept_posting.and (kept_known known_maySend)).stable
      fun w now hw _ hview => ⟨⟨⟨now, ?_⟩, fun k v x hv => ?_⟩, known_maySend.after hw.2⟩
    · rw [World.after_state, State.set_db, Table.mine_write_self, ← view_of_unwritten hw.1, hview]
    · rw [World.after_state, State.set_db] at hv
      exact (hw.1.mine_write hv).1
  refine Contract.Safe.bind hinsert fun message => ?_
  refine Contract.Safe.bind ((kept_posting.and (kept_known known_maySend)).only allows
    (only_bindMediaAtomically (fun _ _ => quiet_select id)
      (fun _ _ _ => quiet_update (by simp [watched]) id) _ _ _)) fun media => ?_
  refine Contract.Safe.bind (safe_commit fun w hw => ?_) fun _ _ _ hw => hw
  obtain ⟨⟨⟨now, hm⟩, honly⟩, hmay⟩ := hw
  rw [view_of_written hm honly]
  exact .post ht hmay (Table.mine_eq_some.mp hm).2

theorem safe_claimRounds {mediaIds : List AttachmentId} {senderId : UserId} {key : Text}
    (ht : task t = .send call) (n : ℕ) :
    (authored hash task).Safe t (claimRounds senderId key mediaIds (posted call) m n)
      (fun w => Idle t w ∧ MaySend (told t w) call) (fun _ => Idle t) fun _ _ => True := by
  have habort : (authored hash task).Safe t Py.rollback (fun _ => True) (fun _ _ => True)
      fun _ _ => True := safe_abort aboutCommitted id
  induction n with
  | zero => exact fun _ _ _ => trivial
  | succ n ih =>
    refine Contract.Safe.bind ((kept_idle.and (kept_known known_maySend)).perform allows
      (quiet_other nofun nofun id) : (authored hash task).Safe t (claimIdempotencyKey senderId key m)
        _ _ _) fun claimed => ?_
    cases claimed with
    | true =>
      refine Contract.Safe.bind (Py.safe_exceptException (safe_insertBindCommit ht) (fun e _ => ?_)
        fun _ _ _ _ _ => trivial) fun x => ?_
      · refine Contract.Safe.bind habort fun _ => Contract.Safe.bind
          ((Kept.const True).perform allows (quiet_other nofun nofun id) : (authored hash task).Safe t
            (releaseIdempotencyKey senderId key) _ _ _) fun _ _ _ _ => trivial
      · refine Contract.Safe.bind (kept_idle.only allows ?_) fun _ _ _ hw => hw
        refine Prog.Only.handle (Prog.only_perform (quiet_other nofun nofun id)) fun e => ?_
        split <;> trivial
    | false =>
      refine Contract.Safe.bind (safe_resolve known_maySend) fun resolved => ?_
      cases resolved with
      | none => exact ih
      | some x => exact fun _ _ hw => hw.1

/-- What a send does once it knows that it may. -/
theorem safe_persist {mediaIds : List AttachmentId} {senderId senderId' : UserId} {key : Text}
    (ht : task t = .send call) :
    (authored hash task).Safe t
      (validateAndLoadMedia mediaIds senderId |>.bind fun _ =>
        claimAndPersistMessage senderId' key mediaIds (posted call))
      (fun w => Idle t w ∧ MaySend (told t w) call) (fun _ => Idle t) fun _ _ => True := by
  refine Contract.Safe.bind ((kept_idle.and (kept_known known_maySend)).only allows
    (only_validateAndLoadMedia (fun _ _ => quiet_select id) _ _)) fun _ => ?_
  exact Contract.Safe.bind ((kept_idle.and (kept_known known_maySend)).perform allows
    (quiet_other nofun nofun id)) fun m => safe_claimRounds ht _

theorem safe_send (ht : task t = .send call) :
    (authored hash task).Safe t call.send (Idle t) (fun _ => Idle t) fun _ _ => True := by
  have hresolve : ∀ senderId key, (authored hash task).Safe t (resolveExistingClaim senderId key)
      (Idle t) (fun _ => Idle t) fun _ _ => True := fun senderId key =>
    (safe_resolve (E := fun _ => True) .true).mono (fun _ _ hw => ⟨hw, trivial⟩)
      (fun _ _ _ hw => hw.1) fun _ _ _ hw => hw
  unfold IdempotentSend.SendCall.send
  split
  · rename_i c htarget
    refine Contract.Safe.bind (hresolve _ _) fun resolved => ?_
    cases resolved with
    | some x => exact fun _ _ hw => hw
    | none =>
      refine Contract.Safe.bind safe_ensureMembership fun _ => ?_
      show Contract.Safe _ _ (if _ then _ else _) _ _ _
      split
      · exact fun _ _ _ => trivial
      · rename_i hvalid
        rw [← posted_channel htarget]
        refine (safe_persist ht).weaken fun w _ hw => ⟨hw.1, by simpa using hvalid, ?_⟩
        rw [htarget]
        exact hw.2
  · rename_i recipientId htarget
    refine Contract.Safe.bind (hresolve _ _) fun resolved => ?_
    cases resolved with
    | some x => exact fun _ _ hw => hw
    | none =>
      refine Contract.Safe.bind (Q := fun _ w => Idle t w ∧ recipientId ≠ call.senderId) ?_
        fun _ => .const fun hother => ?_
      · unfold rejectSelfDm
        split
        · exact fun _ _ _ => trivial
        · rename_i hother
          exact fun _ _ hw => ⟨hw, hother⟩
      refine Contract.Safe.bind safe_ensureRecipient fun _ => ?_
      show Contract.Safe _ _ (if _ then _ else _) _ _ _
      split
      · exact fun _ _ _ => trivial
      · rename_i hvalid
        rw [← posted_dm htarget]
        refine (safe_persist ht).weaken fun w _ hw => ⟨hw.1, by simpa using hvalid, ?_⟩
        rw [htarget]
        exact ⟨hother, hw.2⟩

/-! ### An edit and a deletion -/

theorem safe_getMessage : (authored hash task).Safe t (Py.get .messages m) (Idle t)
    (fun found w => Idle t w ∧ match found with
      | none => True
      | some x => Owned m x.senderId x.target w) fun _ _ => True := by
  refine Contract.Safe.perform (fun found => kept_idle.stable.and ?_) (fun _ => .const True)
    fun w ch r s hi hw hp hx => ?_
  · cases found with
    | none => exact .const True
    | some x => exact kept_owned.stable
  · obtain ⟨hi', hg, hw'⟩ := kept_idle.step allows (quiet_get id) w ch r s hi hw hp hx
    refine ⟨hi', hg, ?_⟩
    cases r with
    | error e => trivial
    | ok found =>
      refine ⟨hw', ?_⟩
      obtain ⟨rfl, hfound⟩ := exec_getTable hx
      have hview := hfound found rfl
      rw [view_of_unwritten hw] at hview
      cases found with
      | none => trivial
      | some x => exact ⟨x, hview.symm, rfl, rfl⟩

/-- A caller who goes on is a member of the message's channel. -/
theorem safe_ensureCallerCanSee {A : BackendWorld T → Prop} (x : Message)
    (hA : Kept (authored hash task) watched Noted t A) :
    (authored hash task).Safe t (ensureCallerCanSeeMessage x u) A
      (fun _ w => A w ∧ MaySee (told t w) x.target u) fun _ _ => True := by
  unfold ensureCallerCanSeeMessage MaySee
  cases x.target with
  | dm recipientId => exact fun _ _ hw => ⟨hw, trivial⟩
  | channel c =>
    refine Contract.Safe.bind (safe_get (by simp [consulted]) hA) fun membership => ?_
    cases membership with
    | none => exact fun _ _ _ => trivial
    | some membership => exact fun w _ hw => ⟨hw.1, membership, hw.2⟩

/-- The flush of the changed message: the row is still its sender's. -/
theorem safe_rewrite (f : Message → Message) :
    (authored hash task).Safe t (Py.flushUpdate .messages m f)
      (fun w => (Idle t w ∧ Owned m u target w) ∧ MaySee (told t w) target u)
      (fun _ w => Rewriting m u target f t w ∧ MaySee (told t w) target u) fun _ _ => True := by
  refine Contract.Safe.await (fun matched w => matched = true →
    Rewriting m u target f t w ∧ MaySee (told t w) target u)
    (fun _ => .imp fun _ => (kept_rewriting.and (kept_known known_maySee)).stable)
    (fun _ => .const True) (fun w ch r s hi hw _ h => ?_) fun matched => ?_
  · obtain ⟨hi', hg⟩ := aboutCommitted.uncommitted (q := .update ..) nofun id h hi
    refine ⟨hi', hg, ?_⟩
    obtain ⟨⟨hidle, x, hx, hsender, htarget⟩, hmay⟩ := hw
    rcases exec_updateTable h with ⟨rfl, hr⟩ | ⟨y, -, hy, -, rfl, rfl⟩
    · cases r with
      | error e => trivial
      | ok matched => exact fun hmatched => absurd (by rw [hmatched]) hr
    · rw [view_of_unwritten hidle] at hy
      obtain rfl := Option.some.inj (hx.symm.trans hy)
      refine fun _ => ⟨⟨⟨x, ?_, hsender, htarget⟩, fun k v z hv => ?_⟩, known_maySee.after hmay⟩
      · rw [World.after_state, State.set_db, Table.mine_write_self, hy]
      · rw [World.after_state, State.set_db] at hv
        exact (hidle.mine_write hv).1
  · cases matched with
    | true => exact fun _ _ hw => hw rfl
    | false => exact fun _ _ _ => trivial

theorem safe_editMessage {content : Text} (ht : task t = .edit m u content) :
    (authored hash task).Safe t (editMessage m u content) (Idle t) (fun _ => Idle t)
      fun _ _ => True := by
  refine Contract.Safe.bind safe_getMessage fun found => ?_
  cases found with
  | none => exact fun _ _ _ => trivial
  | some x =>
    refine Contract.Safe.bind (safe_ensureCallerCanSee x (kept_idle.and kept_owned)) fun _ => ?_
    show Contract.Safe _ _ (if _ then _ else if _ then _ else if _ then _ else if _ then _ else _)
      _ _ _
    split
    · exact fun _ _ _ => trivial
    rename_i hsender
    obtain rfl := not_not.mp hsender
    split
    · exact fun _ _ _ => trivial
    split
    · exact fun _ _ _ => trivial
    rename_i hvalid
    split
    · exact Contract.Safe.bind (safe_commitIdle.weaken fun _ _ hw => hw.1.1) fun _ _ _ hw => hw
    refine Contract.Safe.bind (Q := fun _ w => ∃ now, Rewriting m x.senderId x.target
      (fun y => { y with content := content, editedAt := some now }) t w ∧
        MaySee (told t w) x.target x.senderId) ?_ fun edited => ?_
    · refine Contract.Safe.bind (((kept_idle.and kept_owned).and (kept_known known_maySee)).perform
        allows (quiet_other nofun nofun id)) fun now => ?_
      exact Contract.Safe.bind (safe_rewrite _) fun _ w _ hw => ⟨now, hw⟩
    refine Contract.Safe.bind (safe_commit fun w hw => ?_) fun _ => ?_
    · obtain ⟨now, ⟨⟨y, hm, hy, htarget⟩, honly⟩, hmay⟩ := hw
      rw [view_of_written hm honly]
      rw [← hy] at ht
      rw [← hy, ← htarget] at hmay
      exact .edit ht (Table.mine_eq_some.mp hm).2 hmay (by simpa using hvalid)
    refine Contract.Safe.bind (kept_idle.only allows
      (only_getMessageMedia (fun _ _ => quiet_select id) _)) fun media => ?_
    refine Contract.Safe.bind (kept_idle.only allows ?_) fun _ _ _ hw => hw
    refine Prog.Only.handle (Prog.only_perform (quiet_other nofun nofun id)) fun e => ?_
    split <;> trivial

theorem safe_deleteMessage (ht : task t = .delete m u) :
    (authored hash task).Safe t (deleteMessage m u) (Idle t) (fun _ => Idle t)
      fun _ _ => True := by
  refine Contract.Safe.bind safe_getMessage fun found => ?_
  cases found with
  | none => exact fun _ _ _ => trivial
  | some x =>
    refine Contract.Safe.bind (safe_ensureCallerCanSee x (kept_idle.and kept_owned)) fun _ => ?_
    show Contract.Safe _ _ (if _ then _ else if _ then _ else _) _ _ _
    split
    · exact fun _ _ _ => trivial
    rename_i hsender
    obtain rfl := not_not.mp hsender
    split
    · exact Contract.Safe.bind (safe_commitIdle.weaken fun _ _ hw => hw.1.1) fun _ _ _ hw => hw
    refine Contract.Safe.bind (Q := fun _ w => ∃ now, Rewriting m x.senderId x.target
      (fun y => { y with deletedAt := some now }) t w ∧
        MaySee (told t w) x.target x.senderId) ?_ fun deleted => ?_
    · refine Contract.Safe.bind (((kept_idle.and kept_owned).and (kept_known known_maySee)).perform
        allows (quiet_other nofun nofun id)) fun now => ?_
      exact Contract.Safe.bind (safe_rewrite _) fun _ w _ hw => ⟨now, hw⟩
    refine Contract.Safe.bind (safe_commit fun w hw => ?_) fun _ => ?_
    · obtain ⟨now, ⟨⟨y, hm, hy, htarget⟩, honly⟩, hmay⟩ := hw
      rw [view_of_written hm honly]
      rw [← hy] at ht
      rw [← hy, ← htarget] at hmay
      exact .delete ht (Table.mine_eq_some.mp hm).2 hmay
    refine Contract.Safe.bind (kept_idle.only allows ?_) fun _ _ _ hw => hw
    refine Prog.Only.handle (Prog.only_perform (quiet_other nofun nofun id)) fun e => ?_
    split <;> trivial

theorem safe_task (hother : ∀ p, task t = .other p → p.Only (Leaves .messages)) :
    (authored hash task).Safe t (task t).program (Idle t) (fun _ _ => True) fun _ _ => True := by
  have hkeep : (authored hash task).Safe t Py.rollback (Idle t) (fun _ => Idle t)
      fun _ _ => True :=
    safe_rollback aboutCommitted id kept_idle.stable fun w s _ _ hmine k v x hv => by
      cases (hmine .messages k).symm.trans hv
  have hsession : ∀ {α : Type} {body : Py α},
      (authored hash task).Safe t body (Idle t) (fun _ => Idle t) (fun _ _ => True) →
      (authored hash task).Safe t (Py.getDbSession body) (Idle t) (fun _ _ => True)
        fun _ _ => True := fun h =>
    safe_request safe_commitIdle hkeep (safe_abort aboutCommitted id) h
  cases ht : task t with
  | send call => exact Contract.Safe.bind (hsession (safe_send ht)) fun _ _ _ _ => trivial
  | edit m u content =>
    refine Contract.Safe.bind (hsession ?_) fun _ _ _ _ => trivial
    refine Contract.Safe.bind (Contract.Safe.handle (safe_editMessage ht)
      fun e _ _ _ => trivial) fun x => ?_
    exact Contract.Safe.bind (kept_idle.only allows
      (only_getMessageMedia (fun _ _ => quiet_select id) _)) fun _ _ _ hw => hw
  | delete m u =>
    refine hsession ?_
    exact Contract.Safe.bind (Contract.Safe.handle (safe_deleteMessage ht)
      fun e _ _ _ => trivial) fun _ _ _ hw => hw
  | other p =>
    exact (safe_leaves (E := fun _ => True) .true (hother p ht)).mono
      (fun _ _ hw => ⟨hw, trivial⟩) (fun _ _ _ _ => trivial) fun _ _ _ _ => trivial

/-! ### Who is asked -/

/-- The rounds insert one message, bind attachments, and write nothing else. -/
theorem only_claimRounds {P : Op → Prop} {u : UserId} {key : Text} {mediaIds : List AttachmentId}
    {build : Time → Message} (hinsert : P (.sql (.insert .messages m build)))
    (hupdate : ∀ k p f, P (.sql (.update .attachments k p f)))
    (hother : ∀ o, (∀ τ, Leaves τ o) → P o) (n : ℕ) :
    (claimRounds u key mediaIds build m n).Only P := by
  have hselect : ∀ τ p, P (.sql (.select τ p)) := fun _ _ => hother _ fun _ => trivial
  induction n with
  | zero => trivial
  | succ n ih =>
    refine Prog.Only.bind (Prog.only_perform (hother _ fun _ => trivial)) fun claimed => ?_
    cases claimed with
    | true =>
      refine Prog.Only.bind (Py.only_exceptException ?_ fun e => ?_) fun m => Prog.Only.bind ?_
        fun _ => trivial
      · refine Prog.Only.bind (Prog.Only.bind (Prog.only_perform hinsert) fun row => ?_)
          fun message => Prog.Only.bind (only_bindMediaAtomically hselect hupdate _ _ _)
            fun media => Prog.Only.bind (Prog.only_perform (hother _ fun _ => trivial))
              fun _ => trivial
        cases row <;> trivial
      · exact Prog.Only.bind (Prog.only_perform (hother _ fun _ => trivial)) fun _ =>
          Prog.Only.bind (Prog.only_perform (hother _ fun _ => trivial)) fun _ => trivial
      · refine Prog.Only.handle (Prog.only_perform (hother _ fun _ => trivial)) fun e => ?_
        split <;> trivial
    | false =>
      refine (only_resolveExistingClaim hselect (fun _ _ => hother _ fun _ => trivial)
        (fun _ => hother _ fun _ => trivial) (hother _ fun _ => trivial)
        (hother _ fun _ => trivial) _ _).bind fun resolved => ?_
      cases resolved with
      | none => exact ih
      | some x => trivial

theorem only_send {τ : Tbl} (hmessages : Tbl.messages ≠ τ) (hattachments : Tbl.attachments ≠ τ) :
    call.send.Only (Leaves τ) := by
  have hresolve : ∀ u key, (resolveExistingClaim u key).Only (Leaves τ) :=
    only_resolveExistingClaim (fun _ _ => trivial) (fun _ _ => trivial) (fun _ => trivial) trivial
      trivial
  have hpersist : ∀ u key mediaIds build, ((validateAndLoadMedia mediaIds u).bind fun _ =>
      claimAndPersistMessage u key mediaIds build).Only (Leaves τ) := fun u key mediaIds build =>
    (only_validateAndLoadMedia (fun _ _ => trivial) _ _).bind fun _ =>
      (Prog.only_perform trivial).bind fun _ => only_claimRounds hmessages
        (fun _ _ _ => hattachments) (fun _ ho => ho τ) _
  unfold IdempotentSend.SendCall.send
  split
  all_goals
    refine (hresolve _ _).bind fun resolved => ?_
    cases resolved with
    | some x => trivial
    | none => ?_
  · refine (only_ensureChannelAndMembership (fun _ _ => trivial) _ _).bind fun _ => ?_
    show Prog.Only _ (if _ then _ else _)
    split
    · trivial
    · exact hpersist _ _ _ _
  · refine (only_rejectSelfDm _ _).bind fun _ =>
      (only_ensureActiveRecipientExists (fun _ _ => trivial) _).bind fun _ => ?_
    show Prog.Only _ (if _ then _ else _)
    split
    · trivial
    · exact hpersist _ _ _ _

omit [DecidableEq T] in
/-- A request about messages writes none of the tables it consults. -/
theorem only_task {τ : Tbl} (hτ : τ ∈ consulted) (hother : ∀ p, task t ≠ .other p) :
    (task t).program.Only (Leaves τ) := by
  have hmessages : Tbl.messages ≠ τ := by
    rintro rfl
    simp [consulted] at hτ
  have hattachments : Tbl.attachments ≠ τ := by
    rintro rfl
    simp [consulted] at hτ
  have hevent : ∀ event topic, (publishMessageEvent event topic).Only (Leaves τ) := by
    refine fun event topic => Prog.Only.handle (Prog.only_perform trivial) fun e => ?_
    split <;> trivial
  have hmedia : ∀ m, (getMessageMedia m).Only (Leaves τ) := only_getMessageMedia fun _ _ => trivial
  have hflush : ∀ m f, (Py.flushUpdate .messages m f).Only (Leaves τ) :=
    fun m f => Py.only_flushUpdate (P := Leaves τ) hmessages
  have hcommit : Py.commit.Only (Leaves τ) := Prog.only_perform trivial
  cases ht : task t with
  | send call =>
    exact Prog.Only.bind (only_session (only_send hmessages hattachments) trivial trivial)
      fun _ => trivial
  | edit m u content =>
    refine Prog.Only.bind (only_session ?_ trivial trivial) fun _ => trivial
    refine Prog.Only.bind (Prog.Only.handle ?_ fun _ => trivial) fun x =>
      (hmedia m).bind fun _ => trivial
    refine (Prog.only_perform trivial).bind fun found => ?_
    cases found with
    | none => trivial
    | some x =>
      refine (only_ensureCallerCanSeeMessage (fun _ _ => trivial) _ _).bind fun _ => ?_
      show Prog.Only _ (if _ then _ else if _ then _ else if _ then _ else if _ then _ else _)
      split
      · trivial
      split
      · trivial
      split
      · trivial
      split
      · exact hcommit.bind fun _ => trivial
      refine Prog.Only.bind ?_ fun edited => hcommit.bind fun _ => (hmedia m).bind fun _ =>
        (hevent _ _).bind fun _ => trivial
      exact (Prog.only_perform trivial).bind fun now => (hflush _ _).bind fun _ => trivial
  | delete m u =>
    refine only_session (Prog.Only.bind (Prog.Only.handle ?_ fun _ => trivial) fun _ => trivial)
      trivial trivial
    refine (Prog.only_perform trivial).bind fun found => ?_
    cases found with
    | none => trivial
    | some x =>
      refine (only_ensureCallerCanSeeMessage (fun _ _ => trivial) _ _).bind fun _ => ?_
      show Prog.Only _ (if _ then _ else if _ then _ else _)
      split
      · trivial
      split
      · exact hcommit.bind fun _ => trivial
      refine Prog.Only.bind ?_ fun deleted => hcommit.bind fun _ =>
        (hevent _ _).bind fun _ => trivial
      exact (Prog.only_perform trivial).bind fun now => (hflush _ _).bind fun _ => trivial
  | other p => exact absurd ht (hother p)

/-! ### Runs -/

abbrev MessagePool (T : Type) : Type := Pool T Op Op.Res Exc Unit (State T)

/-- Before the first step: no transaction is open, and the other requests write no message. -/
structure Start (task : T → Task) (p : MessagePool T) : Prop where
  prog : ∀ t, p.prog t = (task t).program
  trace : p.world.trace = []
  hold : ∀ τ k, (p.world.state.db τ).hold k = none
  other : ∀ t q, task t = .other q → q.Only (Leaves .messages)

variable {p₀ p q : MessagePool T} {ls ls' : List (Label T Choice Tick)}

/-- The rows of the consulted tables that were committed at moments of request `t`. -/
def atMoments (hash : RawToken → TokenHash) (p₀ : MessagePool T) (ls : List (Label T Choice Tick))
    (t : T) : Rows :=
  fun τ k a => τ ∈ consulted ∧
    (machine T hash).During p₀ ls t fun w => (w.state.db τ).committed k = a

theorem eventsOk : (authored hash task).EventsOk := fun _ _ _ _ _ _ => trivial

theorem Start.sound (h : Start task p) (hash : RawToken → TokenHash) :
    (authored hash task).Sound (fun _ _ _ => True) (fun _ _ _ => True) p where
  inv := trivial
  safe t := by
    refine ⟨Idle t, kept_idle.stable, fun k v x hv => ?_, ?_⟩
    · have hhold := (Table.mine_eq_some.mp hv).1
      rw [h.hold] at hhold
      cases hhold
    · rw [h.prog]
      exact safe_task (h.other t)

theorem Start.readsOnly (h : Start task p₀) {τ : Tbl} (hτ : τ ∈ consulted)
    (hother : ∀ q, task t ≠ .other q) : ReadsOnly τ t p₀ where
  only := by
    rw [h.prog]
    exact only_task hτ hother
  hold k := by
    rintro ⟨x, hx⟩
    rw [h.hold] at hx
    cases hx
  own := by
    rw [World.own, h.trace]
    rfl

/-- What a request has been told was committed at a moment of it. -/
theorem Start.told (h : Start task p₀) (hp : (machine T hash).run p₀ ls = some p)
    (hother : ∀ q, task t ≠ .other q) {τ : Tbl} {k : τ.Key} {a : Option τ.Row}
    (ha : told t p.world τ k a) : atMoments hash p₀ ls t τ k a :=
  ⟨ha.1, (h.readsOnly ha.1 hother).during_get hp ha.2⟩

theorem atMoments_append {τ : Tbl} {k : τ.Key} {a : Option τ.Row} (h : atMoments hash p₀ ls t τ k a)
    (ls' : List (Label T Choice Tick)) : atMoments hash p₀ (ls ++ ls') t τ k a := by
  obtain ⟨hτ, x, old, w, hperf, hw⟩ := h
  exact ⟨hτ, x, old, w, hperf.append ls', hw⟩

/-- **A message is its sender's.** In every interleaving of sends, edits and deletions by any
callers with whatever else writes no message: a message stays, with its sender, its place and its
time, and only its sender ever changes its content, or deletes it, and then for good; and a message
that was not there is one that its sender has sent, with a content that was valid, who was at a
moment of the request a member of its channel, or sent it to another active user. -/
theorem messages_authored (h₀ : Start task p₀) (hp : (machine T hash).run p₀ ls = some p)
    (hq : (machine T hash).run p ls' = some q) :
    Evolves task (atMoments hash p₀ (ls ++ ls')) (messages p.world) (messages q.world) := by
  have hsound := (h₀.sound hash).run eventsOk (Machine.meets_always ls) hp
  refine (hsound.history (H := fun ls' q =>
    Evolves task (atMoments hash p₀ (ls ++ ls')) (messages p.world) (messages q.world))
    (fun ls₁ n t c o k r s hn hH _ hx hg => ?_) (fun ls₁ n e s hn hH hx => ?_) eventsOk
    .refl (Machine.meets_always ls') hq).2
  · rw [← List.append_assoc]
    refine (hH.mono fun ha => atMoments_append ha _).change (t := t)
      (hg.mono fun hother τ k a ha => ?_)
    have hrun : (machine T hash).run p₀ (ls ++ ls₁) = some n := by
      rw [Machine.run_append, hp]
      exact hn
    exact atMoments_append (h₀.told hrun hother ha) _
  · cases hx
    rw [← List.append_assoc]
    exact hH.mono fun ha => atMoments_append ha _

/-- A message of user 10 is edited while user 11 sends another one. -/
def editAndSend : Bool → Task
  | false => .edit 1 10 ['h', 'o']
  | true => .send ⟨11, ['k'], .channel 1, ['h', 'i'], []⟩

def oneMessage : MessagePool Bool where
  world := ⟨State.ofRows fun
    | .channels => [(1, ⟨['c'], false, 10, 0⟩)]
    | .channelMembers => [((1, 10), ⟨.admin, 0⟩), ((1, 11), ⟨.member, 0⟩)]
    | .messages => [(1, ⟨.channel 1, 10, ['h', 'a'], 0, none, none⟩)]
    | _ => [], []⟩
  prog t := (editAndSend t).program

theorem oneMessage_start : Start editAndSend oneMessage where
  prog _ := rfl
  trace := rfl
  hold _ _ := rfl
  other t q h := by cases t <;> cases h

def editAndSendRun : List (Label Bool Choice Tick) :=
  .event (.tick 1) :: List.replicate 3 (.proc false (.ok [] 2)) ++
    List.replicate 10 (.proc true (.ok [] 2)) ++ List.replicate 7 (.proc false (.ok [] 2))

/-- The new message is user 11's, who was a member; message 1 is still user 10's, who has edited
it. -/
theorem messages_authored_edited :
    ∃ q, (machine Bool id).run oneMessage editAndSendRun = some q ∧
      Evolves editAndSend (atMoments id oneMessage editAndSendRun) (messages oneMessage.world)
        (messages q.world) ∧
        messages q.world 1 = some ⟨.channel 1, 10, ['h', 'o'], 0, some 1, none⟩ ∧
        messages q.world 2 = some ⟨.channel 1, 11, ['h', 'i'], 2, none, none⟩ := by
  obtain ⟨q, hq⟩ := Option.isSome_iff_exists.mp
    (show ((machine Bool id).run oneMessage editAndSendRun).isSome = true by decide +kernel)
  have hend : messages q.world 1 = some ⟨.channel 1, 10, ['h', 'o'], 0, some 1, none⟩ ∧
      messages q.world 2 = some ⟨.channel 1, 11, ['h', 'i'], 2, none, none⟩ := by
    cases hq
    exact ⟨rfl, rfl⟩
  have hstart : (machine Bool id).run oneMessage [] = some oneMessage := rfl
  have hevolves : Evolves editAndSend (atMoments id oneMessage ([] ++ editAndSendRun))
      (messages oneMessage.world) (messages q.world) :=
    messages_authored oneMessage_start hstart hq
  exact ⟨q, hq, hevolves, hend⟩

end Chatspace.Authorship
