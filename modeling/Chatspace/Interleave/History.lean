import Mathlib.Data.List.Basic

/-!
# Before and after in a history

A history lists what happened, newest first.  `since P h` is what came after the first thing that
satisfied `P`, and `none` as long as nothing did; adding to the history adds to it at the same end.

* `since_eq_none` — nothing satisfied `P` yet;
* `since_cons_of_some`, `since_cons_of_none` — one more thing happens.
-/

namespace Interleave

variable {α : Type} {P : α → Bool} {x : α} {h newer : List α}

/-- What came after the oldest element satisfying `P`. -/
def since (P : α → Bool) : List α → Option (List α)
  | [] => none
  | x :: h =>
    match since P h with
    | some newer => some (x :: newer)
    | none => if P x then some [] else none

theorem since_cons_of_some (hs : since P h = some newer) :
    since P (x :: h) = some (x :: newer) := by
  rw [since, hs]

theorem since_cons_of_none (hs : since P h = none) :
    since P (x :: h) = if P x then some [] else none := by
  rw [since, hs]

theorem since_eq_none : since P h = none ↔ ∀ x ∈ h, P x = false := by
  induction h with
  | nil => exact ⟨fun _ => nofun, fun _ => rfl⟩
  | cons x h ih =>
    rw [List.forall_mem_cons]
    constructor
    · intro hs
      cases hh : since P h with
      | some newer =>
        rw [since_cons_of_some hh] at hs
        cases hs
      | none =>
        rw [since_cons_of_none hh] at hs
        refine ⟨?_, ih.mp hh⟩
        by_contra hx
        rw [if_pos (by simpa using hx)] at hs
        cases hs
    · intro hx
      rw [since_cons_of_none (ih.mpr hx.2), if_neg (by simp [hx.1])]

/-- Something that does not satisfy `P` starts nothing. -/
theorem since_cons_of_false (hx : P x = false) :
    since P (x :: h) = (since P h).map (x :: ·) := by
  cases hh : since P h with
  | some newer => exact since_cons_of_some hh
  | none => rw [since_cons_of_none hh, if_neg (by simp [hx]), Option.map_none]

end Interleave
