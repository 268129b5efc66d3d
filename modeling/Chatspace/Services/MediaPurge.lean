import Chatspace.Services.MediaBinding

/-!
# Attachments and their objects

A sweep deletes an object at once, and its row when the batch commits.

* `cleanEnd` — a sweep ends its transaction only with the rows deleted whose objects it deleted;
* `bound_has_object` — **then no message is ever bound to an attachment whose object is gone**;
* `bound_without_object` — a sweep whose commit fails after it has deleted an object.
-/

namespace Chatspace.MediaPurge

open Interleave Store MediaRequests MediaBinding

variable {T : Type} [DecidableEq T] {hash : RawToken → TokenHash} {task : T → Task} {t t' : T}
  {a : AttachmentId} {w : BackendWorld T} {s : State T} {o : Op} {r : Except Exc o.Res}

/-- A commit of a sweep deletes every row it holds whose object is gone, and a rollback finds it
holding none. -/
abbrev cleanEnd (task : T → Task) : Machine.Condition T Op Op.Res Exc Choice Tick (State T) where
  op t o _ w := (task t).sweeps = true →
    (o.isCommit = true → ∀ a ∈ w.state.purged, (w.state.db .attachments).mine t a = none ∨
      ((w.state.db .attachments).mine t a).map Prod.fst = some (some none)) ∧
    (o.isRollback = true → ∀ a ∈ w.state.purged, (w.state.db .attachments).mine t a = none)
  event _ _ := True

/-- A sweep holds the row, which is bound to no message. -/
def HeldBySweep (task : T → Task) (a : AttachmentId) (w : BackendWorld T) : Prop :=
  ∃ t, (∃ ttl n, task t = .sweep ttl n) ∧ (w.state.db .attachments).Holds t a ∧
    ∃ x, attachment w a = some x ∧ x.messageId = none

/-- The row of an object that is gone is gone, or about to go. -/
def Inv (task : T → Task) (w : BackendWorld T) : Prop :=
  ∀ a ∈ w.state.purged, attachment w a = none ∨ HeldBySweep task a w

/-- No request commits a row where there is none. -/
theorem attachment_of_none (hfit : Fit task t w) (ha : attachment w a = none) :
    (w.state.db .attachments).view t a = none := by
  rcases (w.state.db .attachments).view_cases t a with hv | ⟨v, hhold, hv⟩
  · exact hv.trans ha
  have hmine : (w.state.db .attachments).mine t a = some (some v, none) :=
    Table.mine_eq_some.mpr ⟨hhold, ha⟩
  unfold Fit at hfit
  cases ht : task t with
  | sweep ttl n =>
    rw [ht] at hfit
    rcases hfit.2 a v none hmine with ⟨-, y, hy, -⟩
    cases hy
  | send call =>
    rw [ht] at hfit
    rcases hfit with ⟨⟨-, hunwritten⟩, -⟩ | ⟨m, done, ⟨-, ⟨hdone, hrest⟩, -, -⟩, -, -⟩
    · exact absurd hmine (hunwritten a v none)
    · rcases hdone a (hrest a v none hmine) with ⟨y, -, hy⟩
      cases hmine.symm.trans hy

/-- What a sweep holds is still held after a step of another request. -/
theorem HeldBySweep.other {c : Choice} (hx : (machine T hash).exec t o c w.state = some (r, s))
    (hne : t ≠ t') (ht : ∃ ttl n, task t' = .sweep ttl n)
    (hhold : (w.state.db .attachments).Holds t' a)
    (hrow : ∃ x, attachment w a = some x ∧ x.messageId = none) :
    HeldBySweep task a (w.after t o r s) := by
  have hkeeps := exec_keeps hne hx .attachments
  refine ⟨t', ht, hkeeps.holds.mp hhold, ?_⟩
  unfold attachment
  rw [World.after_state, hkeeps.committed a hhold]
  exact hrow

theorem inv_step {c : Choice} (hi : Inv task w) (hc : (cleanEnd task).op t o c w)
    (hx : (machine T hash).exec t o c w.state = some (r, s)) (hd : Disciplined task t o r w) :
    Inv task (w.after t o r s) := by
  intro a ha
  by_cases hdel : ∃ b, o = .deleteObject b
  · rcases hdel with ⟨b, rfl⟩
    have hdb : s.db = w.state.db := by
      rcases exec_deleteObject hx with ⟨rfl, -⟩ | rfl <;> rfl
    have hpurged : a ∈ w.state.purged ∨ a = b := by
      rcases exec_deleteObject hx with ⟨rfl, -⟩ | rfl
      · exact .inl ha
      · exact (List.mem_cons.mp ha).symm
    unfold attachment HeldBySweep attachment
    rw [World.after_state, hdb]
    rcases hpurged with ha | rfl
    · exact hi a ha
    · -- the sweep holds the row, which is bound to no message
      rcases hd with ⟨ht, y, hy, hnone⟩
      rcases Table.mine_eq_some.mp hy with ⟨hhold, hrow⟩
      exact .inr ⟨t, ht, ⟨_, hhold⟩, y, hrow, hnone⟩
  have hpurged : s.purged = w.state.purged := exec_purged (fun b hb => hdel ⟨b, hb⟩) hx
  rw [World.after_state, hpurged] at ha
  by_cases hcommit : o = .sql .commit
  · subst hcommit
    rcases exec_commitAll hx with ⟨rfl, e, rfl⟩ | ⟨rfl, rfl⟩
    · exact hi a ha
    rcases hi a ha with hnone | ⟨t', ht', hhold, hrow⟩
    · exact .inl (attachment_of_none hd hnone)
    · by_cases hne : t = t'
      · subst hne
        rcases ht' with ⟨ttl, n, ht⟩
        have hc' : (w.state.db .attachments).mine t a = none ∨
            ((w.state.db .attachments).mine t a).map Prod.fst = some (some none) :=
          (hc (by rw [ht]; rfl)).1 rfl a ha
        rcases hc' with hnone | hdeleted
        · exact absurd hhold (Table.mine_eq_none.mp hnone)
        · rcases Option.map_eq_some_iff.mp hdeleted with ⟨⟨v, x⟩, hmine, rfl⟩
          exact .inl (Table.view_of_mine hmine)
      · exact .inr (HeldBySweep.other hx hne ht' hhold hrow)
  have hsame : attachment (w.after t o r s) a = attachment w a :=
    congrFun (exec_committed_db hcommit hx .attachments) a
  rcases hi a ha with hnone | ⟨t', ht', hhold, hrow⟩
  · exact .inl (hsame.trans hnone)
  by_cases hne : t = t'
  · subst hne
    by_cases hrollback : o = .sql .rollback
    · subst hrollback
      rcases ht' with ⟨ttl, n, ht⟩
      exact absurd hhold (Table.mine_eq_none.mp ((hc (by rw [ht]; rfl)).2 rfl a ha))
    · refine .inr ⟨t, ht', exec_holds hcommit hrollback hx hhold, ?_⟩
      rw [hsame]
      exact hrow
  · exact .inr (HeldBySweep.other hx hne ht' hhold hrow)

/-! ### The result -/

variable {p q : MediaPool T} {ls : List (Label T Choice Tick)}

/-- **No bound attachment loses its object.** In every interleaving of sends and sweeps, with any
failures, in which a sweep that ends its transaction deletes every row it holds whose object is
gone: no message is bound to an attachment whose object is gone. -/
theorem bound_has_object (h₀ : Fresh task p) (hpurged : p.world.state.purged = [])
    (hC : (machine T hash).Meets (cleanEnd task) p ls) (hq : (machine T hash).run p ls = some q) :
    ∀ a ∈ q.world.state.purged, ∀ m, ¬ Bound q.world a m := by
  have hinv : Inv task q.world := by
    refine ((h₀.sound hash).invariant (C := cleanEnd task) (fun _ _ _ _ _ => trivial)
      (fun _ _ _ => trivial) (P := Inv task) (fun t o c r w s hi hc hx hd => inv_step hi hc hx hd)
      (fun e w s hi hx => ?_) eventsOk ?_ hC hq).2
    · cases hx
      exact hi
    · intro a ha
      rw [hpurged] at ha
      cases ha
  rintro a ha m ⟨x, hx, hm⟩
  rcases hinv a ha with hnone | ⟨-, -, -, y, hy, hnone⟩
  · cases hx.symm.trans hnone
  · cases hx.symm.trans hy
    cases hm.symm.trans hnone

/-! ### A sweep whose commit fails -/

/-- One await of the sweep, which fails. -/
def fails : Label Bool Choice Tick := .proc true (.fail .dbError)

/-- **A bound attachment without its object.** The sweep deletes the objects of its whole batch,
its commit fails, and the send then binds two of the rows. -/
theorem bound_without_object :
    Fresh sendAndSweep threeUploads ∧ threeUploads.world.state.purged = [] ∧
      ∃ q, (machine Bool id).run threeUploads (.event (.tick 1) :: awaits true 14 ++
          fails :: awaits true 1 ++ awaits false 15) = some q ∧
        5 ∈ q.world.state.purged ∧ Bound q.world 5 1 ∧ message q.world 1 ≠ none := by
  refine ⟨threeUploads_start.toFresh, rfl, ?_⟩
  rcases Option.isSome_iff_exists.mp (show ((machine Bool id).run threeUploads
    (.event (.tick 1) :: awaits true 14 ++ fails :: awaits true 1 ++ awaits false 15)).isSome = true
    by decide) with ⟨q, hq⟩
  refine ⟨q, hq, ?_⟩
  cases hq
  exact ⟨by decide, ⟨_, rfl, rfl⟩, nofun⟩

/-- A sweep that commits leaves the send nothing to bind. -/
theorem bound_has_object_swept :
    ∃ q, (machine Bool id).run threeUploads (.event (.tick 1) :: awaits true 16 ++ awaits false 6)
        = some q ∧ 5 ∈ q.world.state.purged ∧ ∀ m, ¬ Bound q.world 5 m := by
  rcases Option.isSome_iff_exists.mp (show ((machine Bool id).run threeUploads
    (.event (.tick 1) :: awaits true 16 ++ awaits false 6)).isSome = true by decide) with ⟨q, hq⟩
  have hmem : 5 ∈ q.world.state.purged := by
    cases hq
    decide
  exact ⟨q, hq, hmem, bound_has_object threeUploads_start.toFresh rfl (by decide) hq 5 hmem⟩

end Chatspace.MediaPurge
