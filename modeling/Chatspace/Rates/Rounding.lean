import Mathlib.Algebra.Order.Field.Power
import Mathlib.Data.Int.Log
import Mathlib.Data.Rat.Floor

/-!
# Rounding to significant digits

Numbers with a bounded number of digits in some base, and no bound on the exponent.

* `halfEven` — the nearest integer, the even one of two that are as near;
* `significant` — the nearest number of so many digits;
* `significant_nonneg` — rounding keeps the sign.
-/

namespace Rates

/-- The nearest integer, and the even one of two that are as near. -/
def halfEven (x : ℚ) : ℤ :=
  if 1 < 2 * Int.fract x ∨ (2 * Int.fract x = 1 ∧ ⌊x⌋ % 2 = 1) then ⌊x⌋ + 1 else ⌊x⌋

theorem halfEven_nonneg {x : ℚ} (h : 0 ≤ x) : 0 ≤ halfEven x := by
  have hfloor : 0 ≤ ⌊x⌋ := Int.floor_nonneg.mpr h
  unfold halfEven
  split <;> omega

variable (base digits : ℕ) (x : ℚ)

/-- One unit in the last of the digits of `x`. -/
def lastPlace : ℚ := (base : ℚ) ^ (Int.log base |x| + 1 - digits)

/-- The nearest number of so many digits. -/
def significant : ℚ := halfEven (x / lastPlace base digits x) * lastPlace base digits x

variable {base digits x}

theorem lastPlace_nonneg : 0 ≤ lastPlace base digits x := zpow_nonneg (Nat.cast_nonneg base) _

theorem significant_nonneg (h : 0 ≤ x) : 0 ≤ significant base digits x := by
  have hmultiple : 0 ≤ halfEven (x / lastPlace base digits x) :=
    halfEven_nonneg (div_nonneg h lastPlace_nonneg)
  exact mul_nonneg (Int.cast_nonneg hmultiple) lastPlace_nonneg

/-- Thirds in five binary and in three decimal digits. -/
example : significant 2 5 (1 / 3) = 21 / 64 ∧ significant 10 3 (-2000 / 3) = -667 := by
  decide +kernel

end Rates
