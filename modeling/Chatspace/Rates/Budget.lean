import Mathlib.Algebra.Order.Field.Basic
import Mathlib.Tactic.Linarith
import Mathlib.Tactic.Simps.Basic

/-!
# Budgets of a meter that refills

A `Meter` holds a level and the reading of the clock at which it was last written.  Between two
readings it gains `rate` a second, up to `cap`.  `Budget cap rate start n m` says that `n` units
were handed out since `start` and that the meter `m` could not have given more:

    n + m.level ≤ cap + rate * (m.clock - start).

* `refill`, `full`, `take` — what happens to a meter;
* `Budget.gain`, `Budget.store`, `Budget.restart`, `Budget.take` — the budget is kept, provided that
  what is gained is what the time passed gives and that a meter is only replaced by a full one when
  it would be full by then;
* `Budget.le` — what a window can give;
* `le_refill_of_wait` — waiting for a deficit divided by the rate is enough.
-/

namespace Rates

variable {K : Type*} [Field K] [LinearOrder K]

/-- A level, and the reading of the clock when it was written. -/
structure Meter (K : Type*) where
  level : K
  clock : K
deriving DecidableEq

namespace Meter

/-- The meter read at `now`; a clock that went back counts as one that stood still. -/
def refill (cap rate now : K) (m : Meter K) : Meter K :=
  ⟨min cap (m.level + max 0 (now - m.clock) * rate), now⟩

/-- A meter that is full at `now`. -/
@[simps]
def full (cap now : K) : Meter K := ⟨cap, now⟩

/-- `n` units taken out. -/
@[simps]
def take (n : K) (m : Meter K) : Meter K := ⟨m.level - n, m.clock⟩

variable {cap rate now n : K} {m : Meter K} [IsStrictOrderedRing K]

/-- **Waiting is enough**: whoever comes back after the deficit divided by the rate finds it. -/
theorem le_refill_of_wait (hrate : 0 < rate) (hcap : n ≤ cap)
    (hwait : (n - m.level) / rate ≤ now - m.clock) : n ≤ (m.refill cap rate now).level := by
  have hdeficit : n - m.level ≤ (now - m.clock) * rate := (div_le_iff₀ hrate).mp hwait
  have hgain : (now - m.clock) * rate ≤ max 0 (now - m.clock) * rate :=
    mul_le_mul_of_nonneg_right (le_max_right _ _) hrate.le
  apply le_min hcap
  linarith

end Meter

/-- `n` units were handed out since `start`, and the meter accounts for them. -/
def Budget (cap rate start n : K) (m : Meter K) : Prop :=
  n + m.level ≤ cap + rate * (m.clock - start)

variable {cap rate start now stop n k : K} {m : Meter K}

namespace Budget

variable [IsStrictOrderedRing K]

/-- What was taken is handed out. -/
theorem take (h : Budget cap rate start n m) :
    Budget cap rate start (n + k) (m.take k) := by
  unfold Budget at h ⊢
  rw [Meter.take_clock, Meter.take_level]
  linarith

/-- A window begins with nothing handed out. -/
theorem begins (hrate : 0 ≤ rate) (hlevel : m.level ≤ cap) (hstart : start ≤ m.clock) :
    Budget cap rate start 0 m := by
  have hgain : 0 ≤ rate * (m.clock - start) := mul_nonneg hrate (sub_nonneg.mpr hstart)
  unfold Budget
  linarith

/-- A gain that the time passed accounts for keeps the budget. -/
theorem gain (h : Budget cap rate start n m) (hlevel : k ≤ m.level + (now - m.clock) * rate) :
    Budget cap rate start n ⟨k, now⟩ := by
  unfold Budget at h ⊢
  dsimp only
  linarith

/-- So does a loss, and a clock that is set forward. -/
theorem store (h : Budget cap rate start n m) (hrate : 0 ≤ rate) (hlevel : k ≤ m.level)
    (hclock : m.clock ≤ now) : Budget cap rate start n ⟨k, now⟩ := by
  have hgain : 0 ≤ (now - m.clock) * rate := mul_nonneg (sub_nonneg.mpr hclock) hrate
  refine h.gain ?_
  linarith

/-- A meter that would be full by now may be replaced by a full one. -/
theorem restart (h : Budget cap rate start n m) (hlevel : 0 ≤ m.level)
    (hfull : cap ≤ rate * (now - m.clock)) :
    Budget cap rate start n (Meter.full cap now) := by
  unfold Budget at h ⊢
  rw [Meter.full_clock, Meter.full_level]
  linarith

/-- Less was handed out, too. -/
theorem mono (h : Budget cap rate start n m) (hk : k ≤ n) : Budget cap rate start k m := by
  unfold Budget at h ⊢
  linarith

/-- What was handed out by the time the clock reads `stop`. -/
theorem le (h : Budget cap rate start n m) (hrate : 0 ≤ rate) (hlevel : 0 ≤ m.level)
    (hstop : m.clock ≤ stop) : n ≤ cap + rate * (stop - start) := by
  have hgain : rate * (m.clock - start) ≤ rate * (stop - start) :=
    mul_le_mul_of_nonneg_left (sub_le_sub_right hstop start) hrate
  unfold Budget at h
  linarith

end Budget

end Rates
