import Chatspace.Services.MediaRequests

/-!
# Attachments and messages

* `Effect` — what one step of a send or of a sweep does to the committed messages and attachments;
* `Start.inv` — a message that a send has created has exactly the attachments the send named;
* `media_binding` — **no binding is ever changed, a committed send has bound exactly the rows it
  named, and a send that does not commit binds nothing.**
-/

namespace Chatspace.MediaBinding

open Interleave Store MediaRequests
open Messages (isBindable)

variable {T : Type} [DecidableEq T] {hash : RawToken → TokenHash} {task : T → Task} {t t' : T}
  {call : IdempotentSend.SendCall} {m m' : MessageId} {a : AttachmentId} {w w' : BackendWorld T}
  {s : State T} {o : Op} {r : Except Exc o.Res}

/-- The committed message. -/
def message (w : BackendWorld T) (m : MessageId) : Option Message :=
  (w.state.db .messages).committed m

/-- The committed attachment. -/
def attachment (w : BackendWorld T) (a : AttachmentId) : Option Attachment :=
  (w.state.db .attachments).committed a

def Bound (w : BackendWorld T) (a : AttachmentId) (m : MessageId) : Prop :=
  ∃ x, attachment w a = some x ∧ x.messageId = some m

/-- The attachments of the message are those that its send named, and they are its sender's. -/
structure Exact (call : IdempotentSend.SendCall) (m : MessageId) (w : BackendWorld T) : Prop where
  sent : ∃ x, message w m = some x ∧ x.senderId = call.senderId
  nodup : call.mediaIds.Nodup
  bound : ∀ a, Bound w a m ↔ a ∈ call.mediaIds
  uploaded : ∀ a x, attachment w a = some x → x.messageId = some m → x.uploaderId = call.senderId

/-! ### One step -/

/-- Nothing is bound, deleted or sent. -/
structure Same (w w' : BackendWorld T) : Prop where
  messages : ∀ m, message w' m = message w m
  attachments : ∀ a, attachment w' a = attachment w a

/-- The message is sent, and the rows its send named, unbound and the sender's before, are bound
to it. -/
structure Creates (call : IdempotentSend.SendCall) (m : MessageId) (w w' : BackendWorld T) :
    Prop where
  fresh : message w m = none
  sent : ∃ x, message w' m = some x ∧ x.senderId = call.senderId
  messages : ∀ k, k ≠ m → message w' k = message w k
  nodup : call.mediaIds.Nodup
  named : ∀ a ∈ call.mediaIds, ∃ x, attachment w a = some x ∧ x.uploaderId = call.senderId ∧
    x.messageId = none ∧ attachment w' a = some { x with messageId := some m }
  others : ∀ a ∉ call.mediaIds, attachment w' a = attachment w a

/-- Rows that are bound to no message may be deleted. -/
structure Sweeps (w w' : BackendWorld T) : Prop where
  messages : ∀ m, message w' m = message w m
  attachments : ∀ a, attachment w' a = attachment w a ∨
    (attachment w' a = none ∧ ∃ x, attachment w a = some x ∧ x.messageId = none)

/-- What a step of request `t` does. -/
def Effect (task : T → Task) (t : T) (w w' : BackendWorld T) : Prop :=
  match task t with
  | .send call => Same w w' ∨ ∃ m, Created t m w' ∧ Creates call m w w'
  | .sweep .. => Sweeps w w'

omit [DecidableEq T] in
theorem Same.effect (h : Same w w') : Effect task t w w' := by
  unfold Effect
  cases task t with
  | send call => exact .inl h
  | sweep ttl n => exact ⟨h.messages, fun a => .inl (h.attachments a)⟩

/-- A commit of a request that has written nothing. -/
theorem same_commit (hm : Unwritten .messages t w) (ha : Unwritten .attachments t w) :
    Same w (afterCommit t w) :=
  ⟨view_of_unwritten hm, view_of_unwritten ha⟩

theorem sweeps_commit (h : Swept t w) : Sweeps w (afterCommit t w) := by
  refine ⟨view_of_unwritten h.1, fun a => ?_⟩
  rcases (w.state.db .attachments).view_cases t a with hv | ⟨v, hhold, hv⟩
  · exact .inl hv
  · rcases h.2 a v _ (Table.mine_eq_some.mpr ⟨hhold, rfl⟩) with ⟨rfl, y, hy, hnone⟩
    exact .inr ⟨hv, y, hy, hnone⟩

theorem creates_commit {done : List AttachmentId} (h : Written call t m done w)
    (hnodup : done.Nodup) (hperm : done.Perm call.mediaIds) :
    Creates call m w (afterCommit t w) := by
  rcases h with ⟨⟨⟨x, hsender, hx⟩, hmessages⟩, ⟨hdone, hrest⟩, -, -⟩
  have hunwritten : ∀ a, a ∉ call.mediaIds → attachment (afterCommit t w) a = attachment w a := by
    intro a ha
    refine Table.view_of_unwritten fun v y hv => ha ?_
    exact hperm.mem_iff.mp (hrest a v y hv)
  refine ⟨(Table.mine_eq_some.mp hx).2, ⟨x, Table.view_of_mine hx, hsender⟩, fun k hk => ?_,
    hperm.nodup_iff.mp hnodup, fun a ha => ?_, hunwritten⟩
  · exact Table.view_of_unwritten fun v y hv => hk (hmessages k v y hv)
  · rcases hdone a (hperm.mem_iff.mpr ha) with ⟨y, hbindable, hy⟩
    simp only [isBindable, Bool.and_eq_true, decide_eq_true_eq, Option.isNone_iff_eq_none]
      at hbindable
    exact ⟨y, (Table.mine_eq_some.mp hy).2, hbindable.1, hbindable.2, Table.view_of_mine hy⟩

/-- Only a commit changes what is committed. -/
theorem same_of_not_commit {c : Choice} (ho : o ≠ .sql .commit)
    (hx : (machine T hash).exec t o c w.state = some (r, s)) : Same w (w.after t o r s) :=
  ⟨fun m => congrFun (exec_committed_db ho hx .messages) m,
    fun a => congrFun (exec_committed_db ho hx .attachments) a⟩

omit [DecidableEq T] in
/-- A step that is no commit creates nothing. -/
theorem created_of_not_commit (ho : o ≠ .sql .commit) (h : Created t' m (w.after t o r s)) :
    Created t' m w := by
  rcases committedWhen_after h with h | ⟨he, -⟩
  · exact h
  · cases he
    exact absurd rfl ho

/-- A disciplined step has one of these effects, and only a send's own commit creates its message. -/
theorem effect_step {c : Choice} (hd : Disciplined task t o r w)
    (hx : (machine T hash).exec t o c w.state = some (r, s)) :
    Effect task t w (w.after t o r s) ∧ ∀ t' call m, task t' = .send call →
      Created t' m (w.after t o r s) → Created t' m w ∨ Creates call m w (w.after t o r s) := by
  by_cases ho : o = .sql .commit
  · subst ho
    rcases exec_commitAll hx with ⟨rfl, e, rfl⟩ | ⟨rfl, rfl⟩
    · refine ⟨Same.effect ⟨fun _ => rfl, fun _ => rfl⟩, fun t' call m _ h => ?_⟩
      rcases committedWhen_after h with h | ⟨he, -⟩
      · exact .inl h
      · cases he
    have hfit : Fit task t w := hd
    unfold Fit at hfit
    unfold Effect
    cases ht : task t with
    | sweep ttl n =>
      rw [ht] at hfit
      refine ⟨sweeps_commit hfit, fun t' call m ht' h => ?_⟩
      rcases committedWhen_after h with h | ⟨he, -⟩
      · exact .inl h
      · cases he
        rw [ht] at ht'
        cases ht'
    | send call =>
      rw [ht] at hfit
      rcases hfit with ⟨⟨hm, ha⟩, hdone⟩ | ⟨m, done, hwritten, hnodup, hperm⟩
      · refine ⟨.inl (same_commit hm ha), fun t' call' m' ht' h => .inl ?_⟩
        rcases committedWhen_after h with h | ⟨he, e, he', hins⟩
        · exact h
        · cases he
          rcases hdone with hno | ⟨m, hcreated, hno⟩
          · exact (hno e he' hins.proc m' hins).elim
          · rw [hno e he' hins.proc m' hins]
            exact hcreated
      · have hcreates := creates_commit hwritten hnodup hperm
        rcases hwritten with ⟨-, -, hins, hinserted⟩
        refine ⟨.inr ⟨m, ⟨[], w.trace, rfl, hinserted⟩, hcreates⟩, fun t' call' m' ht' h => ?_⟩
        rcases committedWhen_after h with h | ⟨he, e, he', hins'⟩
        · exact .inl h
        · cases he
          rw [ht] at ht'
          cases ht'
          rw [hins e he' hins'.proc m' hins']
          exact .inr hcreates
  · exact ⟨(same_of_not_commit ho hx).effect, fun _ _ _ _ h => .inl (created_of_not_commit ho h)⟩

/-! ### A message keeps its attachments -/

/-- The message stays, with the attachments it has. -/
structure Keeps (m : MessageId) (w w' : BackendWorld T) : Prop where
  message : message w' m = message w m
  attachments : ∀ a x, x.messageId = some m → (attachment w' a = some x ↔ attachment w a = some x)

omit [DecidableEq T] in
theorem Keeps.bound (h : Keeps m w w') : Bound w' a m ↔ Bound w a m :=
  ⟨fun ⟨x, hx, hm⟩ => ⟨x, (h.attachments a x hm).mp hx, hm⟩,
    fun ⟨x, hx, hm⟩ => ⟨x, (h.attachments a x hm).mpr hx, hm⟩⟩

omit [DecidableEq T] in
theorem Keeps.exact (h : Keeps m w w') (he : Exact call m w) : Exact call m w' where
  sent := by
    rw [h.message]
    exact he.sent
  nodup := he.nodup
  bound a := h.bound.trans (he.bound a)
  uploaded a x hx hm := he.uploaded a x ((h.attachments a x hm).mp hx) hm

omit [DecidableEq T] in
/-- Whatever a step does, it keeps the messages there are. -/
theorem Effect.keeps (h : Effect task t w w') (hm : message w m ≠ none) : Keeps m w w' := by
  unfold Effect at h
  cases ht : task t with
  | sweep ttl n =>
    rw [ht] at h
    refine ⟨h.messages m, fun a x hx => ?_⟩
    rcases h.attachments a with ha | ⟨ha, y, hy, hnone⟩
    · rw [ha]
    · rw [ha, hy]
      refine ⟨nofun, fun he => ?_⟩
      cases he
      exact nomatch hnone.symm.trans hx
  | send call =>
    rw [ht] at h
    rcases h with h | ⟨k, -, h⟩
    · exact ⟨h.messages m, fun a x _ => by rw [h.attachments a]⟩
    have hk : m ≠ k := by
      rintro rfl
      exact hm h.fresh
    refine ⟨h.messages m hk, fun a x hx => ?_⟩
    by_cases ha : a ∈ call.mediaIds
    · rcases h.named a ha with ⟨y, hy, -, hnone, hy'⟩
      rw [hy, hy']
      constructor
      · intro he
        cases he
        exact absurd (Option.some.inj hx).symm hk
      · intro he
        cases he
        exact nomatch hnone.symm.trans hx
    · rw [h.others a ha]

/-! ### The invariant -/

/-- A binding is to a message that is there, and a message created by a send has exactly the
attachments it named. -/
structure Inv (task : T → Task) (w : BackendWorld T) : Prop where
  known : ∀ a m, Bound w a m → message w m ≠ none
  created : ∀ t call m, task t = .send call → Created t m w → Exact call m w

omit [DecidableEq T] in
theorem Effect.known (h : Effect task t w w') (hi : ∀ a m, Bound w a m → message w m ≠ none)
    (hb : Bound w' a m) : message w' m ≠ none := by
  rcases hb with ⟨x, hx, hm⟩
  -- the row was bound before, or it is bound by this step
  by_cases hold : attachment w a = some x
  · have hsome := hi a m ⟨x, hold, hm⟩
    rw [(h.keeps hsome).message]
    exact hsome
  unfold Effect at h
  cases ht : task t with
  | sweep ttl n =>
    rw [ht] at h
    rcases h.attachments a with ha | ⟨ha, -⟩
    · exact absurd (ha.symm.trans hx) hold
    · exact nomatch ha.symm.trans hx
  | send call =>
    rw [ht] at h
    rcases h with h | ⟨k, -, h⟩
    · exact absurd ((h.attachments a).symm.trans hx) hold
    by_cases ha : a ∈ call.mediaIds
    · rcases h.named a ha with ⟨y, -, -, -, hy⟩
      cases hy.symm.trans hx
      cases hm
      rcases h.sent with ⟨z, hz, -⟩
      rw [hz]
      exact nofun
    · exact absurd ((h.others a ha).symm.trans hx) hold

omit [DecidableEq T] in
/-- What has just been created has exactly the attachments that were named: before, nothing was
bound to a message that was not there. -/
theorem Creates.exact (h : Creates call m w w') (hi : ∀ a m, Bound w a m → message w m ≠ none) :
    Exact call m w' := by
  have hbound : ∀ a x, attachment w' a = some x → x.messageId = some m → a ∈ call.mediaIds := by
    intro a x hx hm
    by_contra ha
    rw [h.others a ha] at hx
    exact hi a m ⟨x, hx, hm⟩ h.fresh
  refine ⟨h.sent, h.nodup, fun a => ⟨fun ⟨x, hx, hm⟩ => hbound a x hx hm, fun ha => ?_⟩,
    fun a x hx hm => ?_⟩
  · rcases h.named a ha with ⟨y, -, -, -, hy⟩
    exact ⟨_, hy, rfl⟩
  · rcases h.named a (hbound a x hx hm) with ⟨y, -, hu, -, hy⟩
    cases hy.symm.trans hx
    exact hu

omit [DecidableEq T] in
theorem inv_step (hi : Inv task w) (h : Effect task t w w')
    (hc : ∀ t' call m, task t' = .send call → Created t' m w' →
      Created t' m w ∨ Creates call m w w') : Inv task w' := by
  refine ⟨fun a m hb => h.known hi.known hb, fun t' call m ht' hcreated => ?_⟩
  rcases hc t' call m ht' hcreated with hold | hnew
  · have hexact := hi.created t' call m ht' hold
    rcases hexact.sent with ⟨x, hx, -⟩
    exact (h.keeps (by rw [hx]; exact nofun)).exact hexact
  · exact hnew.exact hi.known

/-! ### The result -/

/-- Before the first step every binding is to a message that is there. -/
structure Start (task : T → Task) (p : MediaPool T) : Prop extends Fresh task p where
  known : ∀ a m, Bound p.world a m → message p.world m ≠ none

variable {p₀ p q : MediaPool T} {ls ls' : List (Label T Choice Tick)}

/-- The invariant holds after every run, and every later run keeps the messages there are. -/
theorem inv_run (hs : (discipline hash task).Sound (fun _ _ _ => True) (fun _ _ _ => True) p)
    (hi : Inv task p.world) (hr : (machine T hash).run p ls = some q) :
    (discipline hash task).Sound (fun _ _ _ => True) (fun _ _ _ => True) q ∧
      Inv task q.world ∧ ∀ m, message p.world m ≠ none → Keeps m p.world q.world := by
  refine hs.invariant (C := .always) (fun _ _ _ _ _ => trivial) (fun _ _ _ => trivial)
    (P := fun w => Inv task w ∧ ∀ m, message p.world m ≠ none → Keeps m p.world w)
    (fun t o c r w s hP _ hx hd => ?_) (fun e w s hP hx => ?_) eventsOk
    ⟨hi, fun m _ => ⟨rfl, fun _ _ _ => Iff.rfl⟩⟩ (Machine.meets_always ls) hr
  · rcases effect_step hd hx with ⟨heffect, hcreated⟩
    refine ⟨inv_step hP.1 heffect hcreated, fun m hm => ?_⟩
    have hold := hP.2 m hm
    have hnew : Keeps m w (w.after t o r s) := by
      refine heffect.keeps ?_
      rw [hold.message]
      exact hm
    exact ⟨hnew.message.trans hold.message,
      fun a x hx => (hnew.attachments a x hx).trans (hold.attachments a x hx)⟩
  · cases hx
    refine ⟨⟨hP.1.known, fun t call m ht hcreated => ?_⟩,
      fun m hm => ⟨(hP.2 m hm).message, (hP.2 m hm).attachments⟩⟩
    exact Keeps.exact (w := w) ⟨rfl, fun _ _ _ => Iff.rfl⟩ (hP.1.created t call m ht hcreated)

omit [DecidableEq T] in
theorem Start.inv (h : Start task p) : Inv task p.world := by
  refine ⟨h.known, ?_⟩
  rintro t call m - ⟨newer, older, htrace, -⟩
  rw [h.trace] at htrace
  simp at htrace

/-- **Media are bound once, completely, and only by a commit.** In every interleaving of sends and
sweeps, with any failures: an attachment is bound to one message and stays bound to it; a message
keeps exactly the attachments it has; a message created by a send has exactly the attachments the
send named, each once and all uploaded by the sender; and a step of a send leaves every attachment
as it is, unless it is the commit that creates the send's message and binds the rows it named, all
unbound and the sender's until then. -/
theorem media_binding (h₀ : Start task p₀) (hp : (machine T hash).run p₀ ls = some p)
    (hq : (machine T hash).run p ls' = some q) :
    (∀ a m, Bound p.world a m → Bound q.world a m ∧ ∀ m', Bound q.world a m' → m' = m) ∧
      (∀ m, message p.world m ≠ none → ∀ a, Bound q.world a m ↔ Bound p.world a m) ∧
      (∀ t call m, task t = .send call → Created t m q.world → Exact call m q.world) ∧
      ∀ t call c q', task t = .send call → (machine T hash).step q (.proc t c) = some q' →
        (∀ a, attachment q'.world a = attachment q.world a) ∨
          ∃ m, Created t m q'.world ∧ Creates call m q.world q'.world := by
  rcases inv_run (h₀.sound hash) h₀.inv hp with ⟨hsound, hinv, -⟩
  rcases inv_run hsound hinv hq with ⟨hsound', hinv', hkeeps⟩
  refine ⟨fun a m hb => ?_, fun m hm a => (hkeeps m hm).bound, hinv'.created,
    fun t call c q' ht hstep => ?_⟩
  · have hb' : Bound q.world a m := (hkeeps m (hinv.known a m hb)).bound.mpr hb
    refine ⟨hb', fun m' hm' => ?_⟩
    rcases hb' with ⟨x, hx, hxm⟩
    rcases hm' with ⟨y, hy, hym⟩
    cases hx.symm.trans hy
    exact Option.some.inj (hym.symm.trans hxm)
  · rcases hsound'.guar (fun _ _ _ => trivial) hstep with ⟨o, k, r, s, -, hx, rfl, hd⟩
    have heffect := (effect_step hd hx).1
    unfold Effect at heffect
    rw [ht] at heffect
    exact heffect.imp Same.attachments id

/-! ### A send and a sweep -/

/-- User 10 sends two of his three uploads to channel 1. -/
def sendOfTwo : IdempotentSend.SendCall := ⟨10, ['k'], .channel 1, ['h', 'i'], [5, 6]⟩

def sendAndSweep : Bool → Task
  | false => .send sendOfTwo
  | true => .sweep 0 500

def threeUploads : MediaPool Bool where
  world := ⟨State.ofRows fun
    | .channels => [(1, ⟨['c'], false, 10, 0⟩)]
    | .channelMembers => [((1, 10), ⟨.admin, 0⟩)]
    | .attachments => [(5, ⟨none, 10, .image, ['p'], ['a'], 1, 0⟩), (6, ⟨none, 10, .image, ['p'], ['b'], 1, 0⟩),
        (7, ⟨none, 10, .image, ['p'], ['c'], 1, 0⟩)]
    | _ => [], []⟩
  prog t := (sendAndSweep t).program

theorem threeUploads_start : Start sendAndSweep threeUploads where
  prog _ := rfl
  trace := rfl
  hold _ _ := rfl
  known a m := by
    rintro ⟨x, hx, hm⟩
    have hmem := Table.mem_of_ofRows hx
    simp only [List.mem_cons, Prod.mk.injEq, List.not_mem_nil, or_false] at hmem
    rcases hmem with ⟨-, rfl⟩ | ⟨-, rfl⟩ | ⟨-, rfl⟩ <;> cases hm

/-- `k` awaits of request `t`. -/
def awaits (t : Bool) (k : ℕ) : List (Label Bool Choice Tick) :=
  List.replicate k (.proc t (.ok [] 1))

/-- The sweep has found all three uploads unbound when the send is made; it deletes only the one
that the send leaves unbound. -/
theorem media_binding_swept :
    ∃ p q, (machine Bool id).run threeUploads
        (.event (.tick 1) :: awaits true 2 ++ awaits false 15) = some p ∧
      (machine Bool id).run p (awaits true 8) = some q ∧ Exact sendOfTwo 1 q.world ∧
      attachment q.world 7 = none := by
  rcases Option.isSome_iff_exists.mp (show ((machine Bool id).run threeUploads
    (.event (.tick 1) :: awaits true 2 ++ awaits false 15)).isSome = true by decide) with ⟨p, hp⟩
  have hend : ∃ q, (machine Bool id).run p (awaits true 8) = some q ∧
      attachment q.world 7 = none ∧ Created false 1 q.world := by
    cases hp
    refine ⟨_, rfl, rfl, [_, _, _, _, _, _, _, _, _], _, rfl, ?_⟩
    exact ⟨_, List.mem_of_getElem? (i := 6) rfl, rfl, rfl⟩
  rcases hend with ⟨q, hq, hgone, hcreated⟩
  rcases media_binding threeUploads_start hp hq with ⟨-, -, hexact, -⟩
  exact ⟨p, q, hp, hq, hexact false sendOfTwo 1 rfl hcreated, hgone⟩

end Chatspace.MediaBinding
