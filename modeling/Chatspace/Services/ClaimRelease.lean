import Chatspace.Interleave.Solo
import Chatspace.Services.IdempotentSend

/-!
# The winner's way out

A send that won the claim leaves the claim in Redis unless it comes through its `except Exception`
clause to the end.  `asyncio.CancelledError` is no `Exception`, and nothing guards the two awaits
of the clause itself.

* `Uninterrupted` — no await is cancelled, the rollback returns, the `DEL` is carried out;
* `claim_released_iff` — **exactly then** a send that ends without a committed row leaves no claim;
* `claim_stranded` — a cancellation at the commit leaves it.
-/

namespace Chatspace.ClaimRelease

open Interleave Store Messages IdempotentSend

variable {T : Type} [DecidableEq T] {hash : RawToken → TokenHash} {t : T}
  {w w' : BackendWorld T} {m : MessageId}

/-- What the environment may do to the winner: fail any await of the `try` block with an
`Exception`, but let the rollback and the release through. -/
def Uninterrupted (o : Op) (c : Choice) (_ : BackendWorld T) : Prop :=
  match o with
  | .sql .rollback => ∃ order value, c = .ok order value
  | .redisDelete _ => ∀ e, c ≠ .fail e
  | _ => ∀ e, c = .fail e ∨ c = .lost e → e.isException = true

/-- The operations of the `try` block. -/
def Plain : Op → Prop
  | .sql .rollback => False
  | .redisDelete _ => False
  | _ => True

theorem plain_of_quiet (o : Op) (h : IdempotentSend.Quiet o) : Plain o := by
  unfold Plain
  split
  · exact h
  · exact h
  · trivial

/-! ### The `try` block -/

theorem propagates_getMessageMedia (id : MessageId) :
    (getMessageMedia id).Propagates fun e => e.isException = true :=
  (Prog.propagates_perform _).bind fun _ => trivial

theorem propagates_bindMediaAtomically (id : MessageId) (ids : List AttachmentId) (u : UserId) :
    (bindMediaAtomically id ids u).Propagates fun e => e.isException = true := by
  unfold bindMediaAtomically
  split
  · trivial
  · refine Prog.Propagates.bind ?_ fun updated => ?_
    · exact (Prog.propagates_perform _).bind fun rows =>
        Prog.propagates_forEach _ fun _ => Prog.propagates_perform _
    · split
      · rfl
      · exact propagates_getMessageMedia id

theorem propagates_insertBindCommit (u : UserId) (ids : List AttachmentId)
    (buildMessage : Time → Message) :
    (insertBindCommit u ids buildMessage m).Propagates fun e => e.isException = true := by
  refine Prog.Propagates.bind ?_ fun message => ?_
  · refine (Prog.propagates_perform _).bind fun row => ?_
    cases row with
    | some row => trivial
    | none => rfl
  · exact (propagates_bindMediaAtomically ..).bind fun _ =>
      (Prog.propagates_perform _).bind fun _ => trivial

theorem plain_insertBindCommit (u : UserId) (ids : List AttachmentId)
    (buildMessage : Time → Message) : (insertBindCommit u ids buildMessage m).Only Plain := by
  refine Prog.Only.bind ?_ fun message => ?_
  · refine (Prog.only_perform trivial).bind fun row => ?_
    cases row <;> trivial
  · exact ((only_bindMediaAtomically (P := IdempotentSend.Quiet) (fun _ _ => trivial) (fun _ _ _ => trivial) ..).mono
      plain_of_quiet).bind fun _ =>
      (Prog.only_perform trivial).bind fun _ => trivial

/-- A block that handles nothing is uninterrupted when no cancellation comes out of it. -/
theorem uninterrupted_iff {α : Type} {p : Py α} (hplain : p.Only Plain)
    (hprop : p.Propagates fun e => e.isException = true) {cs : List Choice} {x : Except Exc α}
    (h : (machine T hash).Ends t p w cs x w') :
    (machine T hash).Along t Uninterrupted p w cs ↔ ∀ e, x = .error e → e.isException = true := by
  induction h with
  | ret a w => exact ⟨fun _ e he => (by cases he), fun _ => trivial⟩
  | raise e w =>
    refine ⟨fun _ e' he => ?_, fun _ => trivial⟩
    cases he
    exact hprop
  | @call o k w w' c r s cs x hexec hk ih =>
    have hchoice : Uninterrupted o c w ↔ ∀ e, c = .fail e ∨ c = .lost e → e.isException = true := by
      have := hplain.1
      unfold Uninterrupted
      unfold Plain at this
      split <;> simp_all
    have hnext : (∀ r s, (machine T hash).exec t o c w.state = some (r, s) →
        (machine T hash).Along t Uninterrupted (k r) (w.after t o r s) cs) ↔
        (machine T hash).Along t Uninterrupted (k r) (w.after t o r s) cs := by
      refine ⟨fun h => h r s hexec, fun h r' s' h' => ?_⟩
      cases hexec.symm.trans h'
      exact h
    rw [Machine.Along, hnext, hchoice]
    obtain ⟨a, order, value, rfl, rfl⟩ | ⟨e, rfl, hc⟩ := exec_answer hexec
    · rw [ih (hplain.2 _) (hprop.2 a)]
      exact and_iff_right (by simp)
    · -- the exception ends the block at once
      rw [hprop.1 e] at hk ⊢
      cases hk
      refine ⟨fun h e' he => ?_, fun h => ⟨fun e' he => ?_, trivial⟩⟩
      · cases he
        exact h.1 e hc
      · have hee : e' = e := by
          obtain rfl | rfl := hc <;> obtain hc | hc := he <;> cases hc <;> rfl
        subst hee
        exact h e' rfl

/-- Redis is as it was, and the row is still not there. -/
def Unsent (redis : Expiring RedisKey RedisValue) (m : MessageId) (w : BackendWorld T) : Prop :=
  w.state.redis = redis ∧ row w m = none

/-- The row is there. -/
def HasRow (m : MessageId) (w : BackendWorld T) : Prop := row w m ≠ none

theorem triple_insertBindCommit (redis : Expiring RedisKey RedisValue) (u : UserId)
    (ids : List AttachmentId) (buildMessage : Time → Message) :
    (machine T hash).Triple t (Unsent redis m) (insertBindCommit u ids buildMessage m)
      (fun _ => HasRow m) fun _ => Unsent redis m := by
  have hinsert : (machine T hash).Triple t (Unsent redis m)
      (Py.flushInsert .messages m buildMessage)
      (fun _ w => Unsent redis m w ∧ Inserted t m w) fun _ => Unsent redis m := by
    refine Machine.Triple.bind
      (Q := fun row w => Unsent redis m w ∧ (row ≠ none → Inserted t m w)) ?_ fun row => ?_
    · refine Machine.Triple.perform fun w c r s hA h => ?_
      obtain ⟨d, hd, rfl⟩ := exec_sql h
      obtain ⟨rfl, hr⟩ | ⟨now, -, -, rfl, rfl⟩ := exec_insert hd
      · match r with
        | .error e => exact hA
        | .ok none => exact ⟨hA, fun h => absurd rfl h⟩
        | .ok (some x) => exact absurd rfl (hr x)
      · exact ⟨hA, fun _ => ⟨buildMessage now, Table.hold_write_self⟩⟩
    · match row with
      | some row => exact .ret fun w hw => ⟨hw.1, hw.2 (Option.some_ne_none row)⟩
      | none => exact .raise fun w hw => hw.1
  have hbind : (machine T hash).Triple t (fun w => Unsent redis m w ∧ Inserted t m w)
      (bindMediaAtomically m ids u) (fun _ w => Unsent redis m w ∧ Inserted t m w)
      fun _ w => Unsent redis m w ∧ Inserted t m w := by
    refine Machine.Triple.only (P := IdempotentSend.Quiet) (only_bindMediaAtomically (fun _ _ => trivial)
      (fun _ _ _ => trivial) ..) fun o ho w c r s hA h => ?_
    have hs := quiet_same ho h
    exact ⟨⟨hs.redis.trans hA.1.1, (hs.rows m).trans hA.1.2⟩, hs.inserted hA.2⟩
  have hcommit : (machine T hash).Triple t (fun w => Unsent redis m w ∧ Inserted t m w)
      Py.commit (fun _ => HasRow m) fun _ => Unsent redis m := by
    refine Machine.Triple.perform fun w c r s hA h => ?_
    obtain ⟨d, hd, rfl⟩ := exec_sql h
    obtain ⟨rfl, hr⟩ | ⟨rfl, rfl⟩ := exec_commit hd
    · match r with
      | .error e => exact hA.1
      | .ok () => exact absurd rfl hr
    · obtain ⟨hU, msg, hmsg⟩ := hA
      have hrow : ((w.state.db.commit t) .messages).committed m = some msg :=
        Table.view_of_hold hmsg
      show ((w.state.db.commit t) .messages).committed m ≠ none
      rw [hrow]
      exact Option.some_ne_none msg
  refine hinsert.bind fun message => Machine.Triple.bind ?_ fun boundMedia =>
    hcommit.bind fun _ => .ret fun w hw => hw
  exact fun w cs x w' hA h => by
    have := hbind w cs x w' hA h
    cases x with
    | ok a => exact this
    | error e => exact this.1

/-! ### The handler -/

/-- The release alone. -/
theorem release_iff {u : UserId} {key : Text} {e : Exc} {cs : List Choice}
    {x : Except Exc MessageWithMedia}
    (hclaim : w.state.redis (idempotencyRedisKey u key) ≠ none)
    (h : (machine T hash).Ends t ((releaseIdempotencyKey u key).bind fun _ => .raise e) w cs x w') :
    w'.state.redis (idempotencyRedisKey u key) = none ↔ (machine T hash).Along t Uninterrupted
      ((releaseIdempotencyKey u key).bind fun _ => (.raise e : Py MessageWithMedia)) w cs := by
  obtain ⟨cs₁, cs₂, ⟨⟩, w₁, rfl, hdel, hraise⟩ | ⟨e', rfl, hdel⟩ := Machine.ends_bind h
  · cases hraise
    refine Iff.trans ?_ (Machine.along_bind hdel).symm
    obtain ⟨c, s, rfl, hexec, rfl⟩ := Machine.ends_perform hdel
    obtain ⟨-, order, value, -, rfl⟩ | ⟨e', he', -⟩ := exec_answer hexec
    · obtain ⟨-, hr⟩ | rfl := exec_redisDelete hexec
      · exact absurd rfl hr
      · exact iff_of_true Expiring.delete_self ⟨Machine.along_perform.mpr nofun, trivial⟩
    · cases he'
  · refine Iff.trans ?_ (Machine.along_bind_error hdel).symm
    obtain ⟨c, s, rfl, hexec, rfl⟩ := Machine.ends_perform hdel
    obtain ⟨a, order, value, ha, -⟩ | ⟨e'', -, rfl | rfl⟩ := exec_answer hexec
    · cases ha
    · -- the `DEL` was not carried out
      cases hexec
      exact iff_of_false hclaim fun h => Machine.along_perform.mp h _ rfl
    · cases hexec
      exact iff_of_true Expiring.delete_self (Machine.along_perform.mpr nofun)

/-- The handler deletes the claim if both its awaits go through, and else leaves it. -/
theorem handler_released_iff {u : UserId} {key : Text} {e : Exc} {cs : List Choice}
    {x : Except Exc MessageWithMedia}
    (hclaim : w.state.redis (idempotencyRedisKey u key) ≠ none)
    (h : (machine T hash).Ends t (rollbackAndRelease u key e) w cs x w') :
    w'.state.redis (idempotencyRedisKey u key) = none ↔
      (machine T hash).Along t Uninterrupted (rollbackAndRelease u key e) w cs := by
  obtain ⟨cs₁, cs₂, ⟨⟩, w₁, rfl, hrb, hrel⟩ | ⟨e', rfl, hrb⟩ := Machine.ends_bind h
  · -- the rollback returned
    refine Iff.trans ?_ (Machine.along_bind hrb).symm
    obtain ⟨c, s, rfl, hexec, rfl⟩ := Machine.ends_perform hrb
    obtain ⟨d, -, rfl⟩ := exec_sql hexec
    obtain ⟨-, order, value, -, rfl⟩ | ⟨e', he', -⟩ := exec_answer hexec
    · refine Iff.trans ?_ (and_iff_right (Machine.along_perform.mpr ⟨order, value, rfl⟩)).symm
      exact release_iff hclaim hrel
    · cases he'
  · -- the rollback raised
    refine Iff.trans ?_ (Machine.along_bind_error hrb).symm
    obtain ⟨c, s, rfl, hexec, rfl⟩ := Machine.ends_perform hrb
    obtain ⟨d, -, rfl⟩ := exec_sql hexec
    obtain ⟨a, order, value, ha, -⟩ | ⟨e'', -, hc⟩ := exec_answer hexec
    · cases ha
    · refine iff_of_false hclaim fun h => ?_
      obtain ⟨order, value, hok⟩ := Machine.along_perform.mp h
      obtain rfl | rfl := hc <;> cases hok

/-! ### The winner -/

/-- The handler, like a cancellation, never returns. -/
theorem triple_handler {A : BackendWorld T → Prop} {u : UserId} {key : Text} (e : Exc) :
    (machine T hash).Triple t A
      (if e.isException then rollbackAndRelease u key e else .raise e) (fun _ => HasRow m)
      fun _ _ => True := by
  split
  · exact Machine.Triple.bind (Q := fun _ _ => True) (.perform fun w c r s _ _ => by cases r <;> trivial)
      fun _ => Machine.Triple.bind (Q := fun _ _ => True)
        (.perform fun w c r s _ _ => by cases r <;> trivial) fun _ => .raise fun _ _ => trivial
  · exact .raise fun _ _ => trivial

theorem triple_publish (r : MessageWithMedia) :
    (machine T hash).Triple t (HasRow m) (publishMessageCreated r) (fun _ => HasRow m)
      fun _ => HasRow m := by
  refine Machine.Triple.only (P := fun o => ∃ topic event, o = .redisPublish topic event) ?_ ?_
  · refine Prog.Only.handle (Prog.only_perform ⟨_, _, rfl⟩) fun e => ?_
    split <;> trivial
  · rintro _ ⟨topic, event, rfl⟩ w c r s hA h
    obtain ⟨rfl, -⟩ | rfl := exec_redisPublish h <;> exact hA

/-- **The claim is released exactly on the uninterrupted way out.** A winner that ends without a
committed row leaves no claim if and only if every exception of its `try` block was an `Exception`,
the rollback returned and the `DEL` was carried out. -/
theorem claim_released_iff {u : UserId} {key : Text} {ids : List AttachmentId}
    {buildMessage : Time → Message} {cs : List Choice} {e : Exc}
    (hclaim : w.state.redis (idempotencyRedisKey u key) ≠ none) (hnew : row w m = none)
    (hend : (machine T hash).Ends t (persistAndPublish u key ids buildMessage m) w cs (.error e) w')
    (hrow : row w' m = none) :
    w'.state.redis (idempotencyRedisKey u key) = none ↔
      (machine T hash).Along t Uninterrupted (persistAndPublish u key ids buildMessage m) w cs := by
  have htry : (machine T hash).Triple t (Unsent w.state.redis m) (insertBindCommit u ids buildMessage m)
      (fun _ => HasRow m) fun _ => Unsent w.state.redis m := triple_insertBindCommit _ _ _ _
  obtain ⟨cs₁, cs₂, r, w₁, rfl, hpersist, hrest⟩ | ⟨e', he', hpersist⟩ := Machine.ends_bind hend
  · -- a row that has been committed stays
    have hrow₁ : HasRow m w₁ :=
      (htry.handle fun e => triple_handler e) w cs₁ (.ok r) w₁ ⟨rfl, hnew⟩ hpersist
    have hpublish : (machine T hash).Triple t (HasRow m)
        ((publishMessageCreated r).bind fun _ => .ret (⟨r, true⟩ : SendMessageResult))
        (fun _ => HasRow m) fun _ => HasRow m :=
      (triple_publish r).bind fun _ => .ret fun w hw => hw
    exact absurd hrow (hpublish w₁ cs₂ _ w' hrow₁ hrest)
  cases he'
  refine Iff.trans ?_ (Machine.along_bind_error hpersist).symm
  obtain ⟨cs₁, cs₂, e₀, w₁, rfl, htryEnd, hhandler⟩ | ⟨a, ⟨⟩, -⟩ := Machine.ends_handle hpersist
  refine Iff.trans ?_ (Machine.along_handle htryEnd).symm
  have hun := uninterrupted_iff (plain_insertBindCommit ..) (propagates_insertBindCommit ..) htryEnd
  have hsame : w₁.state.redis = w.state.redis := (htry w cs₁ _ w₁ ⟨rfl, hnew⟩ htryEnd).1
  rw [← hsame] at hclaim
  by_cases he₀ : e₀.isException = true
  · rw [if_pos he₀] at hhandler ⊢
    have hpos : (machine T hash).Along t Uninterrupted (insertBindCommit u ids buildMessage m) w cs₁ :=
      hun.mpr fun e h => Except.error.inj h ▸ he₀
    exact (handler_released_iff hclaim hhandler).trans (and_iff_right hpos).symm
  · -- a cancellation goes past the handler
    rw [if_neg he₀] at hhandler
    cases hhandler
    exact iff_of_false hclaim fun h => he₀ (hun.mp h.1 _ rfl)

/-- A world in which user 10 holds the claim on key `k` for message 1. -/
def wonWorld : BackendWorld Unit :=
  ⟨{ State.ofRows (fun _ => []) with
      redis := Expiring.empty.set 0 (idempotencyRedisKey 10 ['k']) (.uuid 1) idempotencyTtlSeconds },
    []⟩

/-- The row that is to be inserted. -/
def hiMessage (now : Time) : Message := ⟨.channel 1, 10, ['h', 'i'], now, none, none⟩

/-- The commit raises a database error; rollback and release go through. -/
def commitFails : List Choice := [.ok [] 0, .fail .dbError, .ok [] 0, .ok [] 0]

theorem claim_released_after_error :
    ∃ w', (machine Unit fun n => n).Ends () (persistAndPublish 10 ['k'] [] hiMessage 1) wonWorld
        commitFails (.error .dbError) w' ∧
      (w'.state.redis (idempotencyRedisKey 10 ['k']) = none ↔
        (machine Unit fun n => n).Along () Uninterrupted
          (persistAndPublish 10 ['k'] [] hiMessage 1) wonWorld commitFails) := by
  obtain ⟨⟨x, w'⟩, h⟩ := Option.isSome_iff_exists.mp
    (show ((machine Unit fun n => n).solo () (persistAndPublish 10 ['k'] [] hiMessage 1) wonWorld
      commitFails).isSome = true by decide)
  have hx : x = .error .dbError ∧ row w' 1 = none := by
    cases h
    exact ⟨rfl, rfl⟩
  obtain ⟨rfl, hrow⟩ := hx
  have hend := Machine.ends_of_solo h
  exact ⟨w', hend, claim_released_iff (by decide) rfl hend hrow⟩

/-- The first send is cancelled at its commit and closes its session; the second one retries. -/
def cancelledAtCommit : List (Label Bool Choice Tick) :=
  List.replicate 6 (await false 1) ++ [.proc false (.fail .cancelledError), await false 0] ++
    List.replicate 20 (await true 2)

/-- **A stranded claim.** A cancellation at the commit leaves no row but the claim, and the retry
finds neither a row nor a free key. -/
theorem claim_stranded :
    ∃ p, (machine Bool fun n => n).run twoSends cancelledAtCommit = some p ∧
      p.prog false = .ret (.error .cancelledError) ∧ row p.world 1 = none ∧
      p.world.state.redis twoCallsKey ≠ none ∧
      p.prog true = .ret (.error .idempotencyResolutionTimeoutError) :=
  ⟨_, rfl, rfl, rfl, by decide, rfl⟩

end Chatspace.ClaimRelease
