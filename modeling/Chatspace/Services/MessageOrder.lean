import Chatspace.Backend.Tables
import Chatspace.Core.Ids
import Chatspace.Core.Uuid
import Chatspace.Services.IdempotentSend
import Chatspace.Services.PaginationWalk
import Mathlib.Data.Fintype.Basic

/-!
# The order of the messages

The client sorts by id, the history by `(created_at, id)`.  The machine below is the backend's, with
one clock in microseconds that every instance and the database read: a transaction has the timestamp
of its first statement, which an insert takes for `created_at`, and an id is that of `generate_id`
for a candidate that carries the time.

* `Clocked`, `clocked` — the backend with its clock;
* `InTurn`, `inTurn` — ids are generated in the order in which the transactions began;
* `Ordered` — what that order is kept by;
* `one_message_order` — **then the two orders are one.**
-/

namespace Chatspace.MessageOrder

open Interleave Store Messages IdempotentSend PaginationWalk

/-! ### The clock -/

/-- The id a send has generated, and the timestamp its transaction had then. -/
structure Issue where
  id : MessageId
  begun : Option Time
deriving DecidableEq

/-- The backend's state, the time, the timestamp of every open transaction, and what
`generate_id` has generated on every instance and for every send. -/
structure Clocked (T I : Type) where
  base : State T
  now : Time
  begun : T → Option Time
  lastGeneratedInt : I → Option ℕ
  issued : T → Option Issue

variable {T I : Type} [DecidableEq T] [DecidableEq I]

namespace Clocked

variable (s : Clocked T I)

/-- `now()` of the database in a statement of this transaction. -/
def timestamp (t : T) : Time := (s.begun t).getD s.now

/-- A candidate for an id is valid and carries the time, or a later one. -/
def Admits : Op → Choice → Prop
  | .generateId, .ok _ candidate =>
    Ids.IsV7 candidate ∧ s.now / 1000 ≤ Ids.timestampMs candidate
  | _, _ => True

instance (o : Op) (c : Choice) : Decidable (s.Admits o c) :=
  match o, c with
  | .generateId, .ok .. => inferInstanceAs (Decidable (_ ∧ _))
  | .generateId, .fail _ | .generateId, .lost _ => .isTrue trivial
  | .sql _, _ | .redisGet _, _ | .redisSet .., _ | .redisSetNx .., _ | .redisDelete _, _
  | .redisPublish .., _ | .sendEmail, _ | .deleteObject _, _ | .sleep, _ | .utcNow, _
  | .tokenUrlsafe, _ => .isTrue trivial

/-- `generate_id` on this instance. -/
def generateId (i : I) (candidate : ℕ) : ℕ × ℕ := Ids.generateId (s.lastGeneratedInt i) candidate

/-- What the backend is given for the environment's choice. -/
def given (inst : T → I) (t : T) : Op → Choice → Choice
  | .sql _, .ok order _ => .ok order (s.timestamp t)
  | .generateId, .ok order candidate => .ok order (s.generateId (inst t) candidate).1
  | _, c => c

/-- The state after an operation, done if `ok`. -/
def record (inst : T → I) (t : T) (o : Op) (c : Choice) (ok : Bool) (base : State T) :
    Clocked T I :=
  match o, c with
  | .sql .commit, _ | .sql .rollback, _ =>
    { s with
      base
      begun := Function.update s.begun t (if ok then none else some (s.timestamp t)) }
  | .sql _, _ => { s with base, begun := Function.update s.begun t (some (s.timestamp t)) }
  | .generateId, .ok _ candidate =>
    let a := s.generateId (inst t) candidate
    { s with
      base
      lastGeneratedInt := Function.update s.lastGeneratedInt (inst t) (some a.2)
      issued := Function.update s.issued t (some ⟨a.1, s.begun t⟩) }
  | _, _ => { s with base }

end Clocked

/-- The backend with its clock. -/
def clocked (hash : RawToken → TokenHash) (inst : T → I) :
    Machine T Op Op.Res Exc Choice Tick (Clocked T I) where
  exec t o c s :=
    if s.Admits o c then
      ((machine T hash).exec t o (s.given inst t o c) s.base).map fun a =>
        (a.1, s.record inst t o c a.1.isOk a.2)
    else none
  event := fun
    | .tick n, s =>
      some { s with now := s.now + n, base := { s.base with clock := (s.now + n) / 1000000 } }

abbrev ClockedWorld (T I : Type) : Type := World T Op Op.Res Exc (Clocked T I)

variable {hash : RawToken → TokenHash} {inst : T → I} {call : T → SendCall} {t t' : T} {o : Op}
  {c : Choice} {s s' : Clocked T I} {base : State T} {r : Except Exc o.Res} {ok : Bool}
  {w w' : ClockedWorld T I}

theorem exec_clocked (h : (clocked hash inst).exec t o c s = some (r, s')) :
    s.Admits o c ∧ ∃ base, (machine T hash).exec t o (s.given inst t o c) s.base = some (r, base) ∧
      s' = s.record inst t o c r.isOk base := by
  simp only [clocked] at h
  split at h
  · rename_i hadmits
    obtain ⟨a, ha, heq⟩ := Option.map_eq_some_iff.mp h
    cases heq
    exact ⟨hadmits, a.2, ha, rfl⟩
  · cases h

@[simp] theorem record_base : (s.record inst t o c ok base).base = base := by
  unfold Clocked.record
  split <;> rfl

@[simp] theorem record_now : (s.record inst t o c ok base).now = s.now := by
  unfold Clocked.record
  split <;> rfl

/-- What has been generated, but by `generate_id`. -/
theorem record_issued (ho : o ≠ .generateId) :
    (s.record inst t o c ok base).issued = s.issued ∧
      (s.record inst t o c ok base).lastGeneratedInt = s.lastGeneratedInt := by
  unfold Clocked.record
  split
  · exact ⟨rfl, rfl⟩
  · exact ⟨rfl, rfl⟩
  · exact ⟨rfl, rfl⟩
  · exact absurd rfl ho
  · exact ⟨rfl, rfl⟩

/-- A transaction that is open was open before, or begins now. -/
theorem record_begun {b : Time} (h : (s.record inst t o c ok base).begun t' = some b) :
    s.begun t' = some b ∨ b = s.now := by
  have htimestamp : ∀ b, some (s.timestamp t) = some b → s.begun t = some b ∨ b = s.now := by
    intro b hb
    cases hb
    unfold Clocked.timestamp
    cases hbegun : s.begun t with
    | none => exact .inr rfl
    | some b => exact .inl rfl
  have hupdate : ∀ v, (v = none ∨ v = some (s.timestamp t)) →
      Function.update s.begun t v t' = some b → s.begun t' = some b ∨ b = s.now := by
    intro v hv h
    by_cases ht : t' = t
    · subst ht
      rw [Function.update_self] at h
      rcases hv with rfl | rfl
      · cases h
      · exact htimestamp b h
    · rw [Function.update_of_ne ht] at h
      exact .inl h
  unfold Clocked.record at h
  split at h
  · refine hupdate _ ?_ h
    cases ok <;> simp
  · refine hupdate _ ?_ h
    cases ok <;> simp
  · exact hupdate _ (.inr rfl) h
  · exact .inl h
  · exact .inl h

/-- Nobody else's id is changed. -/
theorem issued_of_ne (h : (clocked hash inst).exec t o c s = some (r, s')) (ht : t' ≠ t) :
    s'.issued t' = s.issued t' := by
  obtain ⟨-, base, -, rfl⟩ := exec_clocked h
  unfold Clocked.record
  split
  · rfl
  · rfl
  · rfl
  · exact Function.update_of_ne ht ..
  · rfl

/-! ### What is stored -/

/-- The row is committed, or written by a transaction that is open. -/
def Stored {K V : Type} (tb : Table T K V) (k : K) (x : V) : Prop :=
  tb.committed k = some x ∨ ∃ owner, tb.hold k = some ⟨owner, some (some x)⟩

section Stored

variable {K V : Type} [DecidableEq K] {tb : Table T K V} {k k' : K} {x : V} {v : Option V}

omit [DecidableEq T] in
theorem stored_write (h : Stored (tb.write t k' v) k x) :
    Stored tb k x ∨ k = k' ∧ v = some x := by
  by_cases hk : k = k'
  · subst hk
    rcases h with h | ⟨owner, h⟩
    · exact .inl (.inl h)
    · rw [Table.hold_write_self] at h
      cases h
      exact .inr ⟨rfl, rfl⟩
  · refine .inl ?_
    rcases h with h | ⟨owner, h⟩
    · exact .inl h
    · rw [Table.hold_write_of_ne hk] at h
      exact .inr ⟨owner, h⟩

omit [DecidableEq T] in
theorem stored_lock (h : Stored (tb.lock t k') k x) : Stored tb k x := by
  rcases h with h | ⟨owner, h⟩
  · exact .inl h
  · by_cases hk : k = k'
    · subst hk
      rw [Table.lock, Table.hold_put_self] at h
      simp only [Option.some.injEq, Hold.mk.injEq] at h
      obtain ⟨old, hold, hpending⟩ := Option.bind_eq_some_iff.mp h.2
      refine .inr ⟨old.owner, ?_⟩
      rw [hold, ← hpending]
    · rw [Table.hold_lock_of_ne hk] at h
      exact .inr ⟨owner, h⟩

omit [DecidableEq K] in
theorem stored_rollback (h : Stored (tb.rollback t) k x) : Stored tb k x := by
  rcases h with h | ⟨owner, h⟩
  · exact .inl h
  · exact .inr ⟨owner, (Option.filter_eq_some_iff.mp h).1⟩

omit [DecidableEq K] in
theorem stored_commit (h : Stored (tb.commit t) k x) : Stored tb k x := by
  rcases h with h | ⟨owner, h⟩
  · have hview : tb.view t k = some x := h
    unfold Table.view at hview
    split at hview
    · rename_i owner v hold
      split at hview
      · rw [hview] at hold
        exact .inr ⟨owner, hold⟩
      · exact .inl hview
    · exact .inl hview
  · exact .inr ⟨owner, (Option.filter_eq_some_iff.mp h).1⟩

end Stored

/-! ### Generated in turn -/

/-- The conversation a call sends to. -/
def topic (call : SendCall) : Topic :=
  match call.target with
  | .channel channelId => .chan channelId
  | .dm recipientId => dmTopic call.senderId recipientId

/-- A send that generates its id now is first: no other send to the conversation that has no id yet
has begun earlier, and none on another instance has an id of this millisecond or a later one. -/
structure InTurn (inst : T → I) (call : T → SendCall) (t : T) (s : Clocked T I) : Prop where
  first : ∀ t', topic (call t') = topic (call t) → s.issued t' = none →
    ∀ b ∈ s.begun t, ∀ b' ∈ s.begun t', b ≤ b'
  alone : ∀ t', topic (call t') = topic (call t) → inst t' ≠ inst t →
    ∀ i ∈ s.issued t', Ids.timestampMs i.id < s.now / 1000
  next : ∀ l ∈ s.lastGeneratedInt (inst t), Ids.HasNext l

/-- The transaction in which a send inserts its message is the one it generated the id in. -/
def SameTransaction (t : T) (s : Clocked T I) : Prop :=
  ∀ i ∈ s.issued t, s.begun t ≠ none ∧ s.begun t = i.begun

/-- Every id is generated in turn, and the transaction that inserts the message is the one that was
open then. -/
abbrev inTurn (inst : T → I) (call : T → SendCall) :
    Machine.Condition T Op Op.Res Exc Choice Tick (Clocked T I) where
  op t o _ w := (o.isGenerateId = true → InTurn inst call t w.state) ∧
    ((o.inserted .messages).isSome = true → SameTransaction t w.state)
  event _ _ := True

/-- What a send does to ids and messages: it generates one id, and inserts one message under it. -/
def Allowed (call : T → SendCall) (t : T) (s : Clocked T I) : Op → Prop
  | .generateId => s.issued t = none
  | .sql (.insert .messages k f) => (∃ i, s.issued t = some i ∧ i.id = k) ∧
    ∀ now, (f now).createdAt = now ∧ topicFor (f now) = topic (call t)
  | .sql (.update .messages ..) | .sql (.delete .messages _) => False
  | _ => True

/-- **Ids are in the order of the timestamps**, and messages have those of their sends. -/
structure Ordered (inst : T → I) (call : T → SendCall) (s : Clocked T I) : Prop where
  begun_le : ∀ t b, s.begun t = some b → b ≤ s.now
  issued_le : ∀ t i b, s.issued t = some i → i.begun = some b → b ≤ s.now
  valid : ∀ i l, s.lastGeneratedInt i = some l → Ids.IsV7 l
  generated : ∀ t i, s.issued t = some i →
    Ids.IsV7 i.id ∧ ∃ l, s.lastGeneratedInt (inst t) = some l ∧ i.id ≤ l
  ordered : ∀ t t' i i' b b', s.issued t = some i → s.issued t' = some i' →
    topic (call t) = topic (call t') → i.id < i'.id → i.begun = some b → i'.begun = some b' → b ≤ b'
  /-- Who has no id yet did not begin before those who have one. -/
  waiting : ∀ t t' i b b', s.issued t = some i → s.issued t' = none →
    topic (call t) = topic (call t') → i.begun = some b → s.begun t' = some b' → b ≤ b'
  rows : ∀ k m, Stored (s.base.db .messages) k m →
    ∃ t i, s.issued t = some i ∧ i.id = k ∧ i.begun = some m.createdAt ∧
      topicFor m = topic (call t)

/-- An insert takes the timestamp that it is given. -/
theorem insert_at {τ : Tbl} {k : τ.Key} {f : ℕ → τ.Row} {r : Except Exc (Option τ.Row)}
    {order : List ℕ} {now : Time} {b b' : State T}
    (h : (machine T hash).exec t (.sql (.insert τ k f)) (.ok order now) b = some (r, b')) :
    b' = b ∨ b' = b.set τ ((b.db τ).write t k (some (f now))) := by
  obtain ⟨d, hd, rfl⟩ := exec_sql h
  simp only [Choice.sql, Store.exec] at hd
  split at hd
  · split at hd
    · cases hd
      exact .inl rfl
    · cases hd
      exact .inr rfl
  · split at hd
    · cases hd
      exact .inl rfl
    · cases hd

omit [DecidableEq I] in
/-- Messages come from inserts only. -/
theorem stored_exec (hallowed : Allowed call t s o)
    (h : (machine T hash).exec t o (s.given inst t o c) s.base = some (r, base)) {k : MessageId}
    {m : Message} (hm : Stored (base.db .messages) k m) :
    Stored (s.base.db .messages) k m ∨
      ∃ f, o = .sql (.insert .messages k f) ∧ m = f (s.timestamp t) := by
  by_cases hspares : Spares .messages o
  · rw [exec_spares hspares h] at hm
    exact .inl hm
  · cases o with
    | sql q =>
      cases q with
      | select τ p => exact absurd trivial hspares
      | get τ k => exact absurd trivial hspares
      | lock τ k' p =>
        have hτ : τ = .messages := by simpa [Spares] using hspares
        subst hτ
        obtain ⟨rfl, -⟩ | ⟨x, -, -, rfl, -⟩ := exec_lockTable h
        · exact .inl hm
        · rw [State.set_db] at hm
          exact .inl (stored_lock hm)
      | update τ k' p f =>
        have hτ : τ = .messages := by simpa [Spares] using hspares
        subst hτ
        exact hallowed.elim
      | delete τ k' =>
        have hτ : τ = .messages := by simpa [Spares] using hspares
        subst hτ
        exact hallowed.elim
      | insert τ k' f =>
        have hτ : τ = .messages := by simpa [Spares] using hspares
        subst hτ
        cases c with
        | ok order value =>
          obtain rfl | rfl := insert_at h
          · exact .inl hm
          · rw [State.set_db] at hm
            rcases stored_write hm with hm | ⟨rfl, hvalue⟩
            · exact .inl hm
            · exact .inr ⟨f, rfl, (Option.some.inj hvalue).symm⟩
        | fail e =>
          obtain ⟨d, hd, rfl⟩ := exec_sql h
          cases hd
          exact .inl hm
        | lost e =>
          obtain ⟨d, hd, rfl⟩ := exec_sql h
          cases hd
          exact .inl hm
      | commit =>
        obtain ⟨rfl, -⟩ | ⟨rfl, -⟩ := exec_commitAll h
        · exact .inl hm
        · exact .inl (stored_commit hm)
      | rollback =>
        obtain ⟨rfl, -⟩ | ⟨rfl, -⟩ := exec_rollbackAll h
        · exact .inl hm
        · exact .inl (stored_rollback hm)
    | redisGet _ | redisSet _ _ _ | redisSetNx _ _ _ | redisDelete _ | redisPublish _ _ | sendEmail
    | deleteObject _ | sleep | utcNow | generateId | tokenUrlsafe => exact absurd trivial hspares

/-! ### The order is kept -/

/-- An operation that generates nothing. -/
theorem ordered_record (hi : Ordered inst call s) (ho : o ≠ .generateId)
    (hrows : ∀ k m, Stored (base.db .messages) k m → ∃ t i, s.issued t = some i ∧ i.id = k ∧
      i.begun = some m.createdAt ∧ topicFor m = topic (call t)) :
    Ordered inst call (s.record inst t o c ok base) := by
  have hrecord : (s.record inst t o c ok base).issued = s.issued ∧
      (s.record inst t o c ok base).lastGeneratedInt = s.lastGeneratedInt := record_issued ho
  obtain ⟨hissued, hlast⟩ := hrecord
  constructor
  · intro t' b hb
    rw [record_now]
    rcases record_begun hb with hb | rfl
    · exact hi.begun_le t' b hb
    · exact Nat.le_refl _
  · rw [hissued, record_now]
    exact hi.issued_le
  · rw [hlast]
    exact hi.valid
  · rw [hissued, hlast]
    exact hi.generated
  · rw [hissued]
    exact hi.ordered
  · rw [hissued]
    intro t₁ t₂ i b b' h₁ h₂ htopic hb hb'
    rcases record_begun hb' with hb' | rfl
    · exact hi.waiting t₁ t₂ i b b' h₁ h₂ htopic hb hb'
    · exact hi.issued_le t₁ i b h₁ hb
  · rw [record_base, hissued]
    exact hrows

/-- **An id that is generated in turn is after those of the sends that began before.** -/
theorem ordered_generate {order : List ℕ} {candidate : ℕ} (hi : Ordered inst call s)
    (hadmits : s.Admits .generateId (.ok order candidate)) (hturn : InTurn inst call t s)
    (hnone : s.issued t = none) (hdb : base.db = s.base.db) :
    Ordered inst call (s.record inst t .generateId (.ok order candidate) ok base) := by
  obtain ⟨hcandidate, hnow⟩ := hadmits
  obtain ⟨heq, hv7, hle, hlast⟩ := Ids.generateId_spec hcandidate
    fun l (hl : s.lastGeneratedInt (inst t) = some l) => ⟨hi.valid _ l hl, hturn.next l hl⟩
  generalize hid : Ids.generateId (s.lastGeneratedInt (inst t)) candidate = a at *
  have hstate : s.record inst t .generateId (.ok order candidate) ok base =
      { s with
        base
        lastGeneratedInt := Function.update s.lastGeneratedInt (inst t) (some a.2)
        issued := Function.update s.issued t (some ⟨a.1, s.begun t⟩) } := by
    simp only [Clocked.record, Clocked.generateId, hid]
  have hne : ∀ t' i, s.issued t' = some i → t' ≠ t := by
    rintro t' i h rfl
    rw [hnone] at h
    cases h
  -- the new id is after those of the conversation
  have hafter : ∀ t' i, s.issued t' = some i → topic (call t') = topic (call t) → i.id < a.1 := by
    intro t' i h htopic
    by_cases hinst : inst t' = inst t
    · obtain ⟨-, l, hl, hil⟩ := hi.generated t' i h
      rw [hinst] at hl
      exact Nat.lt_of_le_of_lt hil (hlast l hl)
    · by_contra hlt
      have hms := Ids.timestampMs_mono (Nat.le_of_not_lt hlt)
      have hms' := Ids.timestampMs_mono hle
      have halone := hturn.alone t' htopic hinst i h
      exact absurd (hnow.trans (hms'.trans hms)) (Nat.not_le_of_lt halone)
  have hcases : ∀ t' i, Function.update s.issued t (some ⟨a.1, s.begun t⟩) t' = some i →
      (t' = t ∧ i = ⟨a.1, s.begun t⟩) ∨ (t' ≠ t ∧ s.issued t' = some i) := by
    intro t' i h
    by_cases ht : t' = t
    · subst ht
      rw [Function.update_self] at h
      exact .inl ⟨rfl, (Option.some.inj h).symm⟩
    · rw [Function.update_of_ne ht] at h
      exact .inr ⟨ht, h⟩
  rw [hstate]
  constructor
  · exact hi.begun_le
  · intro t' i b h hb
    rcases hcases t' i h with ⟨rfl, rfl⟩ | ⟨-, h⟩
    · exact hi.begun_le t' b hb
    · exact hi.issued_le t' i b h hb
  · intro j l hl
    by_cases hj : j = inst t
    · subst hj
      have hl' : some a.2 = some l := by simpa using hl
      cases hl'
      rw [← heq]
      exact hv7
    · exact hi.valid j l (by simpa [Function.update_of_ne hj] using hl)
  · intro t' i h
    rcases hcases t' i h with ⟨rfl, rfl⟩ | ⟨-, h⟩
    · exact ⟨hv7, a.2, Function.update_self .., heq.le⟩
    · obtain ⟨hv, l, hl, hil⟩ := hi.generated t' i h
      refine ⟨hv, ?_⟩
      by_cases hinst : inst t' = inst t
      · refine ⟨a.2, ?_, ?_⟩
        · show Function.update s.lastGeneratedInt (inst t) (some a.2) (inst t') = some a.2
          rw [hinst, Function.update_self]
        · rw [hinst] at hl
          exact Nat.le_of_lt (Nat.lt_of_le_of_lt hil (heq ▸ hlast l hl))
      · exact ⟨l, (Function.update_of_ne hinst ..).trans hl, hil⟩
  · intro t₁ t₂ i i' b b' h h' htopic hlt hb hb'
    rcases hcases t₁ i h with ⟨rfl, rfl⟩ | ⟨-, hold⟩
    · rcases hcases t₂ i' h' with ⟨rfl, rfl⟩ | ⟨-, hold'⟩
      · exact absurd hlt (Nat.lt_irrefl _)
      · have hgt := hafter t₂ i' hold' htopic.symm
        exact absurd hlt (Nat.lt_asymm hgt)
    · rcases hcases t₂ i' h' with ⟨rfl, rfl⟩ | ⟨-, hold'⟩
      · exact hi.waiting t₁ t₂ i b b' hold hnone htopic hb hb'
      · exact hi.ordered t₁ t₂ i i' b b' hold hold' htopic hlt hb hb'
  · intro t₁ t₂ i b b' h h' htopic hb hb'
    have ht : t₂ ≠ t := by
      rintro rfl
      simp at h'
    have hnone' : s.issued t₂ = none := by simpa [Function.update_of_ne ht] using h'
    rcases hcases t₁ i h with ⟨rfl, rfl⟩ | ⟨-, h⟩
    · exact hturn.first t₂ htopic.symm hnone' b hb b' hb'
    · exact hi.waiting t₁ t₂ i b b' h hnone' htopic hb hb'
  · intro k m hm
    rw [hdb] at hm
    obtain ⟨t', i, h, hrest⟩ := hi.rows k m hm
    exact ⟨t', i, (Function.update_of_ne (hne t' i h) ..).trans h, hrest⟩

/-- **Every step of a send keeps the order.** -/
theorem ordered_step (condition : (inTurn inst call).op t o c w) (hi : Ordered inst call w.state)
    (hallowed : Allowed call t w.state o)
    (h : (clocked hash inst).exec t o c w.state = some (r, s')) : Ordered inst call s' := by
  obtain ⟨hadmits, base, hexec, rfl⟩ := exec_clocked h
  by_cases ho : o = .generateId
  · subst ho
    cases c with
    | ok order candidate =>
      obtain ⟨n, -, -, rfl⟩ := exec_generateId hexec
      exact ordered_generate hi hadmits (condition.1 rfl) hallowed rfl
    | fail e => cases hexec
    | lost e => cases hexec
  · refine ordered_record hi ho fun k m hm => ?_
    rcases stored_exec hallowed hexec hm with hm | ⟨f, rfl, rfl⟩
    · exact hi.rows k m hm
    · obtain ⟨⟨i, hissued, hid⟩, hrow⟩ := hallowed
      obtain ⟨hopen, hsame⟩ := condition.2 rfl i hissued
      obtain ⟨b, hbegun⟩ := Option.ne_none_iff_exists'.mp hopen
      obtain ⟨hcreated, htopic⟩ := hrow (w.state.timestamp t)
      refine ⟨t, i, hissued, hid, ?_, htopic⟩
      rw [← hsame, hcreated, Clocked.timestamp, hbegun, Option.getD_some]

/-! ### The sends -/

/-- A send keeps the order in turn. -/
def contract (hash : RawToken → TokenHash) (inst : T → I) (call : T → SendCall) :
    Contract (clocked hash inst) where
  inv w := Ordered inst call w.state
  pre := inTurn inst call
  guar _ _ _ _ _ := True

theorem eventsOk : (contract hash inst call).EventsOk := by
  rintro ⟨n⟩ w s hi - he
  cases he
  exact {
    begun_le := fun t b hb => (hi.begun_le t b hb).trans (Nat.le_add_right ..)
    issued_le := fun t i b h hb => (hi.issued_le t i b h hb).trans (Nat.le_add_right ..)
    valid := hi.valid
    generated := hi.generated
    ordered := hi.ordered
    waiting := hi.waiting
    rows := hi.rows }

/-- What is known of the ids of a process is not changed by the others. -/
theorem stable_issued (P : Option Issue → Prop) :
    (contract hash inst call).Stable t fun w => P (w.state.issued t) := by
  intro w w' _ _ ho hw
  cases ho with
  | proc hne hpre hexec hguar =>
    show P (_ : Option Issue)
    rw [World.after_state, issued_of_ne hexec hne.symm]
    exact hw
  | event hpre hexec =>
    rename_i e s
    cases e
    cases hexec
    exact hw

/-- Operations that generate no id and leave the messages alone. -/
def Before : Op → Prop
  | .generateId | .sql (.insert .messages ..) | .sql (.update .messages ..)
  | .sql (.delete .messages _) => False
  | _ => True

/-- The same, and the insert of the message under its id. -/
def After (call : SendCall) (id : MessageId) (o : Op) : Prop :=
  Before o ∨ ∃ f, o = .sql (.insert .messages id f) ∧
    ∀ now, (f now).createdAt = now ∧ topicFor (f now) = topic call

omit [DecidableEq T] [DecidableEq I] in
theorem allowed_of_before (h : Before o) : Allowed call t s o := by
  unfold Before at h
  unfold Allowed
  split at h
  · exact h.elim
  · exact h.elim
  · exact h.elim
  · exact h.elim
  · trivial

theorem ne_generateId (h : Before o) : o ≠ .generateId := by
  rintro rfl
  exact h

/-- An operation that generates no id, where it is allowed. -/
theorem step_allowed {P : Option Issue → Prop} (ho : o ≠ .generateId)
    (hallowed : ∀ s : Clocked T I, P (s.issued t) → Allowed call t s o) :
    (contract hash inst call).StepOk t (fun w => P (w.state.issued t)) o
      fun _ w => P (w.state.issued t) := by
  intro w c r s hi hw hpre hexec
  refine ⟨ordered_step hpre hi (hallowed _ hw) hexec, trivial, ?_⟩
  obtain ⟨-, base, -, rfl⟩ := exec_clocked hexec
  rw [World.after_state, (record_issued ho).1]
  exact hw

/-- A send has no id; it has this id. -/
def NoId (t : T) (w : ClockedWorld T I) : Prop := w.state.issued t = none

def HasId (t : T) (id : MessageId) (w : ClockedWorld T I) : Prop :=
  ∃ i, w.state.issued t = some i ∧ i.id = id

theorem safe_before {α : Type} {p : Py α} (hp : p.Only Before) :
    (contract hash inst call).Safe t p (NoId t) (fun _ => NoId t) fun _ _ => True :=
  (Contract.Safe.only hp (stable_issued fun x => x = none) fun _ ho =>
    step_allowed (P := fun x => x = none) (ne_generateId ho) fun _ _ => allowed_of_before ho).mono
      (fun _ _ hw => hw) (fun _ _ _ hw => hw) fun _ _ _ _ => trivial

theorem safe_after {α : Type} {p : Py α} {id : MessageId} (hp : p.Only (After (call t) id)) :
    (contract hash inst call).Safe t p (HasId t id) (fun _ _ => True) fun _ _ => True := by
  refine (Contract.Safe.only hp (stable_issued fun x => ∃ i, x = some i ∧ i.id = id)
    fun o ho => step_allowed (P := fun x => ∃ i, x = some i ∧ i.id = id) ?_ ?_).mono
      (fun _ _ hw => hw) (fun _ _ _ _ => trivial) fun _ _ _ _ => trivial
  · rcases ho with ho | ⟨f, rfl, -⟩
    · exact ne_generateId ho
    · exact nofun
  · intro s hs
    rcases ho with ho | ⟨f, rfl, hrow⟩
    · exact allowed_of_before ho
    · exact ⟨hs, hrow⟩

theorem generate_step : (contract hash inst call).StepOk t (NoId t) .generateId
    (Contract.Outcome (fun id => HasId t id) fun _ _ => True) := by
  intro w c r s hi hw hpre hexec
  refine ⟨ordered_step hpre hi hw hexec, trivial, ?_⟩
  obtain ⟨-, base, hbase, rfl⟩ := exec_clocked hexec
  cases c with
  | ok order candidate =>
    simp only [machine, Op.exec, Clocked.given] at hbase
    split at hbase
    · cases hbase
    · cases hbase
      exact ⟨_, Function.update_self .., rfl⟩
  | fail e => cases hbase
  | lost e => cases hbase

/-! ### What a send performs -/

theorem only_insertBindCommit {call : SendCall} {buildMessage : Time → Message}
    (hbuild : ∀ now, (buildMessage now).createdAt = now ∧ topicFor (buildMessage now) = topic call)
    (mediaIds : List AttachmentId) (id : MessageId) :
    (insertBindCommit call.senderId mediaIds buildMessage id).Only (After call id) := by
  refine Prog.Only.bind ?_ fun message => Prog.Only.bind ?_ fun media => ?_
  · refine Prog.Only.bind (Prog.only_perform (.inr ⟨buildMessage, rfl, hbuild⟩)) fun row => ?_
    cases row <;> trivial
  · exact (only_bindMediaAtomically (fun _ _ => .inl trivial) (fun _ _ _ => .inl trivial) ..)
  · exact (Prog.only_perform (.inl trivial)).bind fun _ => trivial

theorem only_claimRounds {call : SendCall} {buildMessage : Time → Message}
    (hbuild : ∀ now, (buildMessage now).createdAt = now ∧ topicFor (buildMessage now) = topic call)
    (mediaIds : List AttachmentId) (id : MessageId) (n : ℕ) :
    (claimRounds call.senderId call.idempotencyKey mediaIds buildMessage id n).Only
      (After call id) := by
  induction n with
  | zero => trivial
  | succ n ih =>
    refine (Prog.only_perform (.inl trivial)).bind fun claimed => ?_
    show Prog.Only _ (if _ then _ else _)
    split
    · refine Prog.Only.bind (Py.only_exceptException (only_insertBindCommit hbuild mediaIds id)
        fun e => ?_) fun m => Prog.Only.bind ?_ fun _ => trivial
      · exact (Prog.only_perform (.inl trivial)).bind fun _ =>
          (Prog.only_perform (.inl trivial)).bind fun _ => trivial
      · exact (Prog.only_perform (.inl trivial)).handle fun e => by
          split <;> trivial
    · refine Prog.Only.bind (only_resolveExistingClaim (fun _ _ => .inl trivial)
        (fun _ _ => .inl trivial) (fun _ => .inl trivial) (.inl trivial) (.inl trivial) ..)
        fun resolved => ?_
      cases resolved with
      | none => exact ih
      | some m => trivial

theorem safe_claimAndPersistMessage {buildMessage : Time → Message}
    (hbuild : ∀ now, (buildMessage now).createdAt = now ∧
      topicFor (buildMessage now) = topic (call t)) (mediaIds : List AttachmentId) :
    (contract hash inst call).Safe t (claimAndPersistMessage (call t).senderId
      (call t).idempotencyKey mediaIds buildMessage) (NoId t) (fun _ _ => True) fun _ _ => True :=
  Contract.Safe.await (HasId t) (fun id => stable_issued fun x => ∃ i, x = some i ∧ i.id = id)
    (fun _ => .const True) generate_step fun id =>
      safe_after (only_claimRounds hbuild mediaIds id claimMaxRounds)

theorem safe_send : (contract hash inst call).Safe t (call t).send (NoId t) (fun _ _ => True)
    fun _ _ => True := by
  have hresolve : (resolveExistingClaim (call t).senderId (call t).idempotencyKey).Only Before :=
    only_resolveExistingClaim (fun _ _ => trivial) (fun _ _ => trivial) (fun _ => trivial) trivial
      trivial ..
  have hdone : ∀ m : SendMessageResult, (contract hash inst call).Safe t (.ret m : Py _) (NoId t)
      (fun _ _ => True) fun _ _ => True := fun _ _ _ _ => trivial
  unfold SendCall.send
  split
  · rename_i channelId htarget
    refine Contract.Safe.bind (safe_before hresolve) fun resolved => ?_
    cases resolved with
    | some m => exact hdone _
    | none =>
      refine Contract.Safe.bind (safe_before (only_ensureChannelAndMembership
        (fun _ _ => trivial) ..)) fun _ => ?_
      show Contract.Safe _ _ (if _ then _ else _) _ _ _
      split
      · exact fun _ _ _ => trivial
      · refine Contract.Safe.bind (safe_before (only_validateAndLoadMedia
          (fun _ _ => trivial) ..)) fun _ => safe_claimAndPersistMessage (fun now => ⟨rfl, ?_⟩) _
        unfold topic
        rw [htarget]
        rfl
  · rename_i recipientId htarget
    refine Contract.Safe.bind (safe_before hresolve) fun resolved => ?_
    cases resolved with
    | some m => exact hdone _
    | none =>
      refine Contract.Safe.bind (safe_before (only_rejectSelfDm ..)) fun _ => ?_
      refine Contract.Safe.bind (safe_before (only_ensureActiveRecipientExists
        (fun _ _ => trivial) ..)) fun _ => ?_
      show Contract.Safe _ _ (if _ then _ else _) _ _ _
      split
      · exact fun _ _ _ => trivial
      · refine Contract.Safe.bind (safe_before (only_validateAndLoadMedia
          (fun _ _ => trivial) ..)) fun _ => safe_claimAndPersistMessage (fun now => ⟨rfl, ?_⟩) _
        unfold topic
        rw [htarget]
        rfl

/-- Closing the session changes nothing of this. -/
theorem safe_request : (contract hash inst call).Safe t (call t).request (NoId t)
    (fun _ _ => True) fun _ _ => True := by
  have hattempt : (contract hash inst call).Safe t (Py.attempt (call t).send) (NoId t)
      (fun _ _ => True) fun _ _ => True :=
    Contract.Safe.handle (R := fun _ _ => True) (safe_send.bind fun _ _ _ _ => trivial)
      fun _ _ _ _ => trivial
  refine Contract.Safe.bind hattempt fun r => ?_
  have hclose : (Py.attempt (Py.closeSession r)).Only Before :=
    Py.only_attempt (Py.only_closeSession (fun _ _ => trivial) trivial)
  refine Contract.Safe.bind (Contract.Safe.only hclose (.const True) fun o ho =>
    step_allowed (P := fun _ => True) (ne_generateId ho) fun _ _ => allowed_of_before ho)
      fun x => ?_
  exact fun _ _ _ => trivial

/-! ### The result -/

abbrev ClockedPool (T I : Type) : Type :=
  Pool T Op Op.Res Exc (Except Exc SendMessageResult) (Clocked T I)

/-- Before the first send: no message, no transaction, no id. -/
structure Start (call : T → SendCall) (p : ClockedPool T I) : Prop where
  prog : ∀ t, p.prog t = (call t).request
  committed : ∀ k, (p.world.state.base.db .messages).committed k = none
  hold : ∀ k, (p.world.state.base.db .messages).hold k = none
  begun : ∀ t, p.world.state.begun t = none
  issued : ∀ t, p.world.state.issued t = none
  valid : ∀ i, ∀ l ∈ p.world.state.lastGeneratedInt i, Ids.IsV7 l

theorem Start.sound {p : ClockedPool T I} (h : Start call p) :
    (contract hash inst call).Sound (fun _ _ _ => True) (fun _ _ _ => True) p where
  inv := {
    begun_le := fun t b hb => nomatch (h.begun t).symm.trans hb
    issued_le := fun t i b hi _ => nomatch (h.issued t).symm.trans hi
    valid := h.valid
    generated := fun t i hi => nomatch (h.issued t).symm.trans hi
    ordered := fun t _ i _ _ _ hi _ _ _ _ _ => nomatch (h.issued t).symm.trans hi
    waiting := fun t _ i _ _ hi _ _ _ _ => nomatch (h.issued t).symm.trans hi
    rows := by
      rintro k m (hm | ⟨owner, hm⟩)
      · exact nomatch (h.committed k).symm.trans hm
      · exact nomatch (h.hold k).symm.trans hm }
  safe t := by
    refine ⟨NoId t, stable_issued fun x => x = none, h.issued t, ?_⟩
    rw [h.prog]
    exact safe_request

/-- The id as the client has it. -/
def clientId (id : MessageId) : Text := Uuid.str (Fin.ofNat (2 ^ 128) id)

theorem clientId_lt_iff {k k' : MessageId} (hk : k < 2 ^ 128) (hk' : k' < 2 ^ 128) :
    clientId k < clientId k' ↔ k < k' := by
  unfold clientId
  rw [Uuid.str_lt_iff, Fin.lt_def]
  simp only [Fin.val_ofNat]
  rw [Nat.mod_eq_of_lt hk, Nat.mod_eq_of_lt hk']

/-- Messages of one partition have one topic. -/
theorem topicFor_of_has {p : Partition} {m m' : Message} (h : p.Has m) (h' : p.Has m') :
    topicFor m = topicFor m' := by
  have hdm : ∀ m : Message, ∀ a b, m.senderId = a ∧ m.target = .dm b ∨ m.senderId = b ∧
      m.target = .dm a → topicFor m = dmTopic a b := by
    rintro m a b (⟨rfl, h⟩ | ⟨rfl, h⟩)
    · simp only [topicFor, h]
    · simp only [topicFor, h, dmTopic, min_comm, max_comm]
  cases p with
  | channel channelId =>
    have hm : m.target = .channel channelId := h
    have hm' : m'.target = .channel channelId := h'
    simp only [topicFor, hm, hm']
  | dm a b => rw [hdm m a b h, hdm m' a b h']

/-- The client's order of the messages of each conversation is that of the history. -/
def OneOrder (s : Clocked T I) : Prop :=
  ∀ (p : Partition) (k k' : MessageId) (m m' : Message),
    (s.base.db .messages).committed k = some m → (s.base.db .messages).committed k' = some m' →
    p.Has m → p.Has m' → (clientId k < clientId k' ↔ messageKey (k, m) < messageKey (k', m'))

omit [DecidableEq T] [DecidableEq I] in
theorem Ordered.oneOrder (hi : Ordered inst call s) : OneOrder s := by
  intro p k k' m m' hm hm' hp hp'
  obtain ⟨t, i, hissued, rfl, hbegun, htopic⟩ := hi.rows k m (.inl hm)
  obtain ⟨t', i', hissued', rfl, hbegun', htopic'⟩ := hi.rows k' m' (.inl hm')
  have hsame : topic (call t) = topic (call t') := by
    rw [← htopic, ← htopic']
    exact topicFor_of_has hp hp'
  have hle := fun hlt => hi.ordered t t' i i' _ _ hissued hissued' hsame hlt hbegun hbegun'
  have hge := fun hlt => hi.ordered t' t i' i _ _ hissued' hissued hsame.symm hlt hbegun' hbegun
  rw [clientId_lt_iff (hi.generated t i hissued).1.1 (hi.generated t' i' hissued').1.1]
  unfold messageKey messageCursor CursorKey.position
  rw [Prod.Lex.toLex_lt_toLex]
  simp only [Nat.cast_lt, Nat.cast_inj]
  constructor
  · intro hlt
    rcases Nat.lt_or_eq_of_le (hle hlt) with h | h
    · exact .inl h
    · exact .inr ⟨h, hlt⟩
  · rintro (h | ⟨-, hlt⟩)
    · by_contra hnot
      rcases Nat.lt_or_eq_of_le (Nat.le_of_not_lt hnot) with hgt | heq
      · exact absurd h (Nat.not_lt.mpr (hge hgt))
      · rw [heq, hm] at hm'
        cases hm'
        exact Nat.lt_irrefl _ h
    · exact hlt

/-- **One message order.** For any number of sends on any number of instances, in any interleaving
and with any failures: when ids are generated in turn, the client's order of the committed messages
of a conversation is that of its history. -/
theorem one_message_order {p₀ p : ClockedPool T I} {ls : List (Label T Choice Tick)}
    (h₀ : Start call p₀) (hturn : (clocked hash inst).Meets (inTurn inst call) p₀ ls)
    (hrun : (clocked hash inst).run p₀ ls = some p) : OneOrder p.world.state :=
  (h₀.sound.run eventsOk hturn hrun).inv.oneOrder

/-! ### Two sends that overlap -/

section Decidable

variable [Fintype T]

instance (t : T) (s : Clocked T I) : Decidable (InTurn inst call t s) :=
  decidable_of_iff
    ((∀ t', topic (call t') = topic (call t) → s.issued t' = none →
      ∀ b ∈ s.begun t, ∀ b' ∈ s.begun t', b ≤ b') ∧
    (∀ t', topic (call t') = topic (call t) → inst t' ≠ inst t →
      ∀ i ∈ s.issued t', Ids.timestampMs i.id < s.now / 1000) ∧
    ∀ l ∈ s.lastGeneratedInt (inst t), Ids.HasNext l)
    ⟨fun h => ⟨h.1, h.2.1, h.2.2⟩, fun h => ⟨h.first, h.alone, h.next⟩⟩

instance (t : T) (s : Clocked T I) : Decidable (SameTransaction t s) :=
  inferInstanceAs (Decidable (∀ i ∈ s.issued t, _))

end Decidable

/-- User 10, a member of channel 1, sends two messages to it. -/
def twoMessages (t : Bool) : SendCall :=
  ⟨10, if t then ['k'] else ['l'], .channel 1, ['h', 'i'], []⟩

/-- The two sends before they start, one on each instance. -/
def twoInstances : ClockedPool Bool Bool where
  world :=
    { state :=
        { base := State.ofRows fun
            | .channels => [(1, ⟨['c'], false, 10, 0⟩)]
            | .channelMembers => [((1, 10), ⟨.admin, 0⟩)]
            | _ => []
          now := 0
          begun := fun _ => none
          lastGeneratedInt := fun _ => none
          issued := fun _ => none }
      trace := [] }
  prog t := (twoMessages t).request

/-- A valid id that carries these milliseconds. -/
def idAt (ms : ℕ) : ℕ := ms * 2 ^ 80 + 7 * 2 ^ 76 + 2 * 2 ^ 62

/-- The first three steps of a send, with which its transaction begins. -/
def begins (t : Bool) : List (Label Bool Choice Tick) := List.replicate 3 (.proc t (.ok [] 0))

def generates (t : Bool) (ms : ℕ) : Label Bool Choice Tick := .proc t (.ok [] (idAt ms))

/-- The rest of a send. -/
def persists (t : Bool) : List (Label Bool Choice Tick) := List.replicate 6 (.proc t (.ok [] 0))

theorem twoInstances_start : Start twoMessages twoInstances where
  prog _ := rfl
  committed _ := rfl
  hold _ := rfl
  begun _ := rfl
  issued _ := rfl
  valid _ := nofun

/-- Two sends that overlap, and generate their ids in the order in which they began. -/
def overlapInTurn : List (Label Bool Choice Tick) :=
  begins false ++ [.event (.tick 1)] ++ begins true ++ [generates false 0, .event (.tick 1000),
    generates true 1] ++ persists true ++ persists false

/-- The second send is committed first; the order is that of the ids. -/
theorem one_message_order_overlap : ∃ p,
    (clocked (fun n => n) fun t => t).run twoInstances overlapInTurn = some p ∧
      OneOrder p.world.state := by
  obtain ⟨p, hp⟩ := Option.isSome_iff_exists.mp
    (show ((clocked (fun n => n) fun t => t).run twoInstances overlapInTurn).isSome = true by
      decide +kernel)
  exact ⟨p, hp, one_message_order twoInstances_start (by decide +kernel) hp⟩

/-- The send that began first generates its id last. -/
def overlapOutOfTurn : List (Label Bool Choice Tick) :=
  begins false ++ [.event (.tick 1)] ++ begins true ++ [generates true 0, .event (.tick 1000),
    generates false 1] ++ persists true ++ persists false

/-- **The client and the history disagree about the two messages.** -/
theorem overlap_disagrees : Start twoMessages twoInstances ∧ ∃ p,
    (clocked (fun n => n) fun t => t).run twoInstances overlapOutOfTurn = some p ∧
      ¬ OneOrder p.world.state := by
  obtain ⟨p, hp⟩ := Option.isSome_iff_exists.mp
    (show ((clocked (fun n => n) fun t => t).run twoInstances overlapOutOfTurn).isSome = true by
      decide +kernel)
  refine ⟨twoInstances_start, p, hp, fun horder => ?_⟩
  have hrows : ((clocked (fun n => n) fun t => t).run twoInstances overlapOutOfTurn).map (fun p =>
      ((p.world.state.base.db .messages).committed (idAt 0),
        (p.world.state.base.db .messages).committed (idAt 1))) =
      some (some ⟨.channel 1, 10, ['h', 'i'], 1, none, none⟩,
        some ⟨.channel 1, 10, ['h', 'i'], 0, none, none⟩) := by decide +kernel
  rw [hp, Option.map_some, Option.some.injEq, Prod.mk.injEq] at hrows
  have hid : clientId (idAt 0) < clientId (idAt 1) :=
    (clientId_lt_iff (by decide +kernel) (by decide +kernel)).mpr (by decide +kernel)
  have hlt := (horder (.channel 1) _ _ _ _ hrows.1 hrows.2 rfl rfl).mp hid
  revert hlt
  decide +kernel

end Chatspace.MessageOrder
