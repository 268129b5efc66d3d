import Mathlib.Order.Monotone.Defs
import Mathlib.Data.List.Induction
import Mathlib.Order.Lattice

/-!
# Sliding windows

Times enter at the back of a queue, and those before a cutoff leave at its front.

* `slide` — one time enters;
* `foldl_slide` — **when times do not decrease and the cutoff grows with them, what is left are the
  times from the last cutoff on;** no time that left would have counted later.
-/

namespace Rates

variable {T : Type*} [LinearOrder T] {cutoff : T → T} {times : List T}

/-- What leaves a sorted queue at its front is what is before the cutoff. -/
theorem dropWhile_lt {l : List T} (h : l.Pairwise (· ≤ ·)) (c : T) :
    l.dropWhile (fun x => x < c) = l.filter fun x => c ≤ x := by
  induction l with
  | nil => rfl
  | cons x l ih =>
    obtain ⟨hx, hl⟩ := List.pairwise_cons.mp h
    by_cases hlt : x < c
    · rw [List.dropWhile_cons_of_pos (by simpa using hlt),
        List.filter_cons_of_neg (by simpa using hlt), ih hl]
    · have hall : ∀ y ∈ x :: l, decide (c ≤ y) = true := by
        intro y hy
        rw [decide_eq_true_eq]
        rcases List.mem_cons.mp hy with rfl | hy
        · exact not_lt.mp hlt
        · exact (not_lt.mp hlt).trans (hx y hy)
      rw [List.dropWhile_cons_of_neg (by simpa using hlt), List.filter_eq_self.mpr hall]

/-- One time enters. -/
def slide (cutoff : T → T) (kept : List T) (now : T) : List T :=
  (kept ++ [now]).dropWhile fun x => x < cutoff now

theorem foldl_slide (hcutoff : Monotone cutoff) (h : times.Pairwise (· ≤ ·)) :
    times.foldl (slide cutoff) [] = times.filter fun x => ∀ now ∈ times.getLast?, cutoff now ≤ x := by
  induction times using List.reverseRecOn with
  | nil => rfl
  | append_singleton times now ih =>
    obtain ⟨htimes, -, hnow⟩ := List.pairwise_append.mp h
    have hkept : (times.foldl (slide cutoff) [] ++ [now]).Pairwise (· ≤ ·) := by
      rw [ih htimes]
      exact h.sublist ((List.filter_sublist).append_right _)
    rw [List.foldl_append, List.foldl_cons, List.foldl_nil, slide, dropWhile_lt hkept, ih htimes,
      List.filter_append, List.filter_append, List.filter_filter]
    simp only [List.getLast?_concat, Option.mem_some_iff, forall_eq']
    congr 1
    apply List.filter_congr
    intro x hx
    -- the cutoff has not gone back since the time before
    have hle : cutoff now ≤ x → ∀ last ∈ times.getLast?, cutoff last ≤ x := by
      intro hx last hlast
      exact (hcutoff (hnow last (List.mem_of_getLast? hlast) now (by simp))).trans hx
    simpa using hle

end Rates
