import Chatspace.Rates.Window
import Chatspace.Ws.Router
import Mathlib.Algebra.Order.Group.Int
import Mathlib.Algebra.Order.Group.Unbundled.Basic
import Mathlib.Algebra.Order.Sub.Defs

/-!
# `ws/rate_limit.py`

The frame guard of one connection, over any times that can be compared and subtracted.

* `FrameRateLimiter.recordAndCheck`, `recordAll` — one call, and a sequence of calls;
* `frame_window` — **a call is over the limit exactly when too many calls so far are within its
  window;**
* `recordAndCheck_eq` — the guard of the endpoint is this one.
-/

namespace Chatspace.Ws.RateLimit

open Rates

structure FrameRateLimiter (T : Type) where
  maxFrames : ℕ
  windowSeconds : T
  timestamps : List T

variable {T : Type} [LinearOrder T]

/-- `FrameRateLimiter(max_frames=…, window_seconds=…)`. -/
def FrameRateLimiter.init (maxFrames : ℕ) (windowSeconds : T) : FrameRateLimiter T :=
  ⟨maxFrames, windowSeconds, []⟩

section Calls

variable [Sub T]

/-- `record_and_check` at the current time: whether the connection is over the limit. -/
def FrameRateLimiter.recordAndCheck (limiter : FrameRateLimiter T) (currentTime : T) :
    Bool × FrameRateLimiter T :=
  let timestamps := limiter.timestamps ++ [currentTime]
  let cutoff := currentTime - limiter.windowSeconds
  let timestamps := timestamps.dropWhile fun t => t < cutoff
  (limiter.maxFrames < timestamps.length, { limiter with timestamps })

/-- The answers to a sequence of calls. -/
def FrameRateLimiter.recordAll : FrameRateLimiter T → List T → List Bool
  | _, [] => []
  | limiter, now :: times =>
    (limiter.recordAndCheck now).1 :: (limiter.recordAndCheck now).2.recordAll times

theorem getElem?_recordAll (limiter : FrameRateLimiter T) (times : List T) (i : ℕ) :
    (limiter.recordAll times)[i]? = times[i]?.map fun _ => decide (limiter.maxFrames <
      ((times.take (i + 1)).foldl (slide fun now => now - limiter.windowSeconds)
        limiter.timestamps).length) := by
  induction times generalizing limiter i with
  | nil => rfl
  | cons now times ih =>
    rw [FrameRateLimiter.recordAll]
    cases i with
    | zero => rfl
    | succ i =>
      rw [List.getElem?_cons_succ, List.getElem?_cons_succ, ih]
      rfl

/-- The answers when the cutoff grows with the time, whatever the subtraction rounds to. -/
theorem recordAll_of_monotone {maxFrames : ℕ} {windowSeconds : T}
    (hcutoff : Monotone fun now : T => now - windowSeconds) {times : List T}
    (h : times.Pairwise (· ≤ ·)) (i : ℕ) :
    ((FrameRateLimiter.init maxFrames windowSeconds).recordAll times)[i]? =
      times[i]?.map fun now => decide (maxFrames <
        (times.take (i + 1)).countP fun t => now - windowSeconds ≤ t) := by
  rw [getElem?_recordAll]
  cases hi : times[i]? with
  | none => rfl
  | some now =>
    have hlast : (times.take (i + 1)).getLast? = some now := by
      rw [List.take_add_one, hi, Option.toList_some, List.getLast?_concat]
    have hkept := foldl_slide hcutoff (h.sublist (List.take_sublist (i + 1) times))
    rw [hlast] at hkept
    simp only [Option.map_some, FrameRateLimiter.init, hkept, List.countP_eq_length_filter,
      Option.mem_some_iff, forall_eq']

end Calls

/-- **A call is over the limit exactly when the calls so far whose time is not before its window are
more than `max_frames`.** -/
theorem frame_window [AddCommSemigroup T] [Sub T] [OrderedSub T] (maxFrames : ℕ) (windowSeconds : T)
    {times : List T} (h : times.Pairwise (· ≤ ·)) (i : ℕ) :
    ((FrameRateLimiter.init maxFrames windowSeconds).recordAll times)[i]? =
      times[i]?.map fun now => decide (maxFrames <
        (times.take (i + 1)).countP fun t => now - windowSeconds ≤ t) := by
  have hcutoff : Monotone fun now : T => now - windowSeconds :=
    fun _ _ hle => tsub_le_tsub_right hle windowSeconds
  exact recordAll_of_monotone hcutoff h i

/-- Two frames in ten seconds: the third is too many, the fourth comes when the first is just old
enough to be one of three, and the fifth is alone. -/
theorem frame_window_two : ([0, 4, 4, 14, 40] : List ℤ).Pairwise (· ≤ ·) ∧
    (FrameRateLimiter.init 2 (10 : ℤ)).recordAll [0, 4, 4, 14, 40] =
      [false, false, true, true, false] ∧
    ((FrameRateLimiter.init 2 (10 : ℤ)).recordAll [0, 4, 4, 14, 40])[3]? =
      some (decide (2 < 3)) := by
  have htimes : ([0, 4, 4, 14, 40] : List ℤ).Pairwise (· ≤ ·) := by decide
  exact ⟨htimes, by decide, frame_window 2 10 htimes 3⟩

/-! ### The endpoint -/

/-- The guard of the endpoint, whose times are in milliseconds. -/
theorem recordAndCheck_eq (limiter : Ws.FrameRateLimiter) (now : Time) :
    (limiter.recordAndCheck now).1 = ((⟨limiter.maxFrames, limiter.window, limiter.timestamps⟩ :
        FrameRateLimiter ℕ).recordAndCheck now).1 ∧
      (limiter.recordAndCheck now).2.timestamps = ((⟨limiter.maxFrames, limiter.window,
        limiter.timestamps⟩ : FrameRateLimiter ℕ).recordAndCheck now).2.timestamps := by
  have hcutoff : (fun x : ℕ => decide (x + limiter.window < now)) =
      fun x => decide (x < now - limiter.window) := by
    funext x
    exact decide_eq_decide.mpr Nat.lt_sub_iff_add_lt.symm
  unfold Ws.FrameRateLimiter.recordAndCheck FrameRateLimiter.recordAndCheck
  rw [hcutoff]
  exact ⟨rfl, rfl⟩

end Chatspace.Ws.RateLimit
