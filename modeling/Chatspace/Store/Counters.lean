import Mathlib.Algebra.Order.Group.Int
import Mathlib.Logic.Function.Basic

/-!
# Integer counters that may expire

The integer keys of a cache: each holds a value and, once it was given one, the time up to which
it is there.  The commands are those a script composes: `incr` creates a missing counter without a
deadline and leaves the deadline of one that is there, `expire` sets the deadline, `setKeepTtl`
overwrites the value and keeps the deadline.

* `lookup`, `incr`, `expire`, `del`, `setKeepTtl`;
* `incr_eq`, `expire_eq` — what a command leaves, as an update of its key.
-/

namespace Store

/-- A counter with the last moment at which it is there; without one it stays for ever. -/
structure Counter where
  value : ℤ
  deadline : Option ℕ
deriving DecidableEq

/-- Counters by key. -/
def Counters (K : Type) : Type := K → Option Counter

namespace Counters

variable {K : Type}

/-- No counter. -/
def empty : Counters K := fun _ => none

/-- The counter of `k` that is there at time `now`. -/
def lookup (m : Counters K) (now : ℕ) (k : K) : Option Counter :=
  (m k).filter fun e => e.deadline.all fun d => now ≤ d

variable [DecidableEq K]

/-- The counter of `k` replaced, or removed. -/
def put (m : Counters K) (k : K) (e : Option Counter) : Counters K := Function.update m k e

/-- `INCR`: the new value and the counters. -/
def incr (m : Counters K) (now : ℕ) (k : K) : ℤ × Counters K :=
  match m.lookup now k with
  | none => (1, m.put k (some ⟨1, none⟩))
  | some e => (e.value + 1, m.put k (some ⟨e.value + 1, e.deadline⟩))

/-- `EXPIRE`: a time to live of 0 removes the counter. -/
def expire (m : Counters K) (now : ℕ) (k : K) (ttl : ℕ) : Counters K :=
  match m.lookup now k with
  | none => m
  | some e => if ttl = 0 then m.put k none else m.put k (some ⟨e.value, some (now + ttl)⟩)

/-- `DEL`. -/
def del (m : Counters K) (k : K) : Counters K := m.put k none

/-- `SET … KEEPTTL`. -/
def setKeepTtl (m : Counters K) (now : ℕ) (k : K) (v : ℤ) : Counters K :=
  m.put k (some ⟨v, (m.lookup now k).bind Counter.deadline⟩)

variable {m : Counters K} {now ttl : ℕ} {k k' : K} {e : Counter} {x y : Option Counter} {v : ℤ}

@[simp] theorem put_self : m.put k x k = x := Function.update_self ..

theorem put_of_ne (h : k' ≠ k) : m.put k x k' = m k' := Function.update_of_ne h ..

@[simp] theorem put_put : (m.put k x).put k y = m.put k y := Function.update_idem ..

omit [DecidableEq K] in
/-- A counter that is there is stored, and its deadline has not passed. -/
theorem lookup_eq_some :
    m.lookup now k = some e ↔ m k = some e ∧ ∀ d ∈ e.deadline, now ≤ d := by
  simp [lookup, Option.filter_eq_some_iff, Option.all_eq_true]

/-- What was stored just now, with no deadline or one that is still to come, is there. -/
theorem lookup_put {d : Option ℕ} (hd : ∀ x ∈ d, now ≤ x) :
    (m.put k (some ⟨v, d⟩)).lookup now k = some ⟨v, d⟩ :=
  lookup_eq_some.mpr ⟨put_self, hd⟩

theorem lookup_put_of_ne (h : k' ≠ k) : (m.put k x).lookup now k' = m.lookup now k' := by
  simp only [lookup, put_of_ne h]

@[simp] theorem lookup_put_none : (m.put k none).lookup now k = none := by
  simp [lookup]

omit [DecidableEq K] in
/-- What is there later was there before. -/
theorem lookup_of_le {later : ℕ} (h : now ≤ later) (he : m.lookup later k = some e) :
    m.lookup now k = some e := by
  obtain ⟨hm, hd⟩ := lookup_eq_some.mp he
  exact lookup_eq_some.mpr ⟨hm, fun d hx => h.trans (hd d hx)⟩

/-- A counter that is not there is incremented from 0. -/
theorem incr_eq (m : Counters K) (now : ℕ) (k : K) : ∃ d, (∀ x ∈ d, now ≤ x) ∧
    (m.incr now k).1 = ((m.lookup now k).elim 0 Counter.value) + 1 ∧
    (m.incr now k).2 = m.put k (some ⟨(m.incr now k).1, d⟩) := by
  cases h : m.lookup now k with
  | none => exact ⟨none, nofun, by simp [incr, h], by simp [incr, h]⟩
  | some e => exact ⟨e.deadline, (lookup_eq_some.mp h).2, by simp [incr, h], by simp [incr, h]⟩

/-- A counter that is there keeps its value and gets a new deadline. -/
theorem expire_eq (h : m.lookup now k = some e) (ht : 0 < ttl) :
    m.expire now k ttl = m.put k (some ⟨e.value, some (now + ttl)⟩) := by
  simp [expire, h, Nat.ne_of_gt ht]

end Counters

end Store
