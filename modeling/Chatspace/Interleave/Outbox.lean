import Mathlib.Data.List.Basic
import Mathlib.Data.List.Nodup

/-!
# Announcements that wait to be sent

Processes change what they share, and announce it later.  An `Outbox` holds the announcements that
still wait, the latest change first, and the last one sent.

* `latest` — what is announced once everything is sent;
* `InTurn` — nobody's announcement has waited longer;
* `latest_send` — **an announcement sent in its turn changes nothing about it**.
-/

namespace Interleave

/-- What waits to be announced, the latest change first, and the last announcement. -/
structure Outbox (T S : Type) where
  waiting : List (T × S) := []
  last : Option S := none

namespace Outbox

variable {T S : Type} [DecidableEq T] {b : Outbox T S} {t t' : T} {s s' : S}

/-- Process `t` has made a change and owes its announcement. -/
def owe (b : Outbox T S) (t : T) (s : S) : Outbox T S := { b with waiting := (t, s) :: b.waiting }

/-- Process `t` announces what it owes. -/
def send (b : Outbox T S) (t : T) (s : S) : Outbox T S :=
  ⟨b.waiting.filter fun x => x.1 ≠ t, some s⟩

/-- Whoever has owed an announcement for longest, if anybody owes one, is `t`. -/
def InTurn (b : Outbox T S) (t : T) : Prop := ∀ x ∈ b.waiting.getLast?, x.1 = t

/-- Nobody owes two announcements. -/
def Single (b : Outbox T S) : Prop := (b.waiting.map Prod.fst).Nodup

/-- The announcement of the latest change, sent or not. -/
def latest (b : Outbox T S) : Option S := (b.waiting.head?.map Prod.snd).or b.last

instance : Decidable (b.InTurn t) :=
  match h : b.waiting.getLast? with
  | none => .isTrue (by simp [InTurn, h])
  | some x => decidable_of_iff (x.1 = t) (by simp [InTurn, h])

omit [DecidableEq T] in
@[simp] theorem latest_owe : (b.owe t s).latest = some s := by simp [owe, latest]

omit [DecidableEq T] in
theorem latest_of_waiting_nil (h : b.waiting = []) : b.latest = b.last := by simp [latest, h]

omit [DecidableEq T] in
@[simp] theorem last_owe : (b.owe t s).last = b.last := rfl

@[simp] theorem last_send : (b.send t s).last = some s := rfl

omit [DecidableEq T] in
theorem mem_owe : (t', s') ∈ (b.owe t s).waiting ↔ (t' = t ∧ s' = s) ∨ (t', s') ∈ b.waiting := by
  simp [owe]

theorem mem_send : (t', s') ∈ (b.send t s).waiting ↔ (t', s') ∈ b.waiting ∧ t' ≠ t := by
  simp [send]

omit [DecidableEq T] in
theorem Single.owe (h : b.Single) (ht : ∀ s, (t, s) ∉ b.waiting) : (b.owe t s).Single := by
  show ((t, s).1 :: b.waiting.map Prod.fst).Nodup
  refine List.nodup_cons.mpr ⟨fun hin => ?_, h⟩
  obtain ⟨⟨t', s'⟩, hx, rfl⟩ := List.mem_map.mp hin
  exact ht s' hx

theorem Single.send (h : b.Single) : (b.send t s).Single :=
  List.Nodup.sublist (List.filter_sublist.map Prod.fst) h

omit [DecidableEq T] in
/-- What is in turn is the last in the list. -/
theorem Single.eq_append (h : b.Single) (ht : b.InTurn t) (hs : (t, s) ∈ b.waiting) :
    ∃ newer, b.waiting = newer ++ [(t, s)] := by
  have hne : b.waiting ≠ [] := List.ne_nil_of_mem hs
  have hlast : b.waiting.getLast hne ∈ b.waiting := List.getLast_mem hne
  have hown : (b.waiting.getLast hne).1 = t := ht _ (List.getLast?_eq_some_getLast hne)
  have hsame : b.waiting.getLast hne = (t, s) := List.inj_on_of_nodup_map h hlast hs hown
  exact ⟨b.waiting.dropLast, by rw [← hsame, List.dropLast_append_getLast hne]⟩

/-- **An announcement sent in its turn leaves the latest one what it was.** -/
theorem latest_send (h : b.Single) (ht : b.InTurn t) (hs : (t, s) ∈ b.waiting) :
    (b.send t s).latest = b.latest := by
  obtain ⟨newer, happ⟩ := h.eq_append ht hs
  have hnd : (newer.map Prod.fst ++ [t]).Nodup := by
    rw [Single, happ, List.map_append] at h
    exact h
  have hfree : ∀ x ∈ newer, x.1 ≠ t := by
    intro x hx
    exact (List.nodup_append.mp hnd).2.2 x.1 (List.mem_map_of_mem hx) t (by simp)
  have hrest : b.waiting.filter (fun x => x.1 ≠ t) = newer := by
    rw [happ, List.filter_append]
    simpa using hfree
  rw [latest, latest, send, hrest, happ]
  cases newer with
  | nil => simp
  | cons x xs => simp

end Outbox

end Interleave
