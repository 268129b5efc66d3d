import Mathlib.Data.Nat.Notation
import Mathlib.Logic.Function.Basic

/-!
# A map whose entries expire

Every entry carries the time from which it is no longer there.  Reading, setting if absent and
deleting are those of a cache with a time to live; nothing removes an expired entry, it is only
not seen.

* `get`, `set`, `setNx`, `delete`;
* `eq_none_of_get` — where no entry has expired, a key without a value has no entry.
-/

namespace Store

/-- Values with the time at which they expire. -/
def Expiring (K V : Type) : Type := K → Option (V × ℕ)

namespace Expiring

variable {K V : Type}

/-- Nothing stored. -/
def empty : Expiring K V := fun _ => none

/-- The value of `k` at time `now`. -/
def get (m : Expiring K V) (now : ℕ) (k : K) : Option V :=
  (m k).bind fun e => if now < e.2 then some e.1 else none

variable [DecidableEq K]

/-- Store `v` for `ttl`. -/
def set (m : Expiring K V) (now : ℕ) (k : K) (v : V) (ttl : ℕ) : Expiring K V :=
  Function.update m k (some (v, now + ttl))

/-- Store `v` for `ttl` unless there is a value; whether it was stored. -/
def setNx (m : Expiring K V) (now : ℕ) (k : K) (v : V) (ttl : ℕ) : Bool × Expiring K V :=
  if m.get now k = none then (true, m.set now k v ttl) else (false, m)

/-- Remove the entry of `k`. -/
def delete (m : Expiring K V) (k : K) : Expiring K V := Function.update m k none

variable {m : Expiring K V} {now ttl : ℕ} {k k' : K} {v : V}

omit [DecidableEq K] in
/-- Where an entry that is there is still seen, what is not seen is not there. -/
theorem eq_none_of_get (h : ∀ e ∈ m k, now < e.2) (hk : m.get now k = none) : m k = none := by
  cases hm : m k with
  | none => rfl
  | some e => simp [get, hm, h e hm] at hk

@[simp] theorem set_self : m.set now k v ttl k = some (v, now + ttl) :=
  Function.update_self ..

theorem set_of_ne (h : k' ≠ k) : m.set now k v ttl k' = m k' :=
  Function.update_of_ne h ..

@[simp] theorem delete_self : m.delete k k = none := Function.update_self ..

theorem delete_of_ne (h : k' ≠ k) : m.delete k k' = m k' :=
  Function.update_of_ne h ..

end Expiring

end Store
