import Mathlib.Data.List.Lex
import Mathlib.Order.Monotone.Basic
import Mathlib.Tactic.Ring

/-!
# Digits of fixed width, and their order

* `digits` — the digits of a number in base `b`, the most significant first;
* `digits_lt_iff` — **of two numbers of one width the smaller one has the lexicographically smaller
  digits**;
* `foldl_digits` — the number that digits make;
* `map_lt_iff` — digits may be written in any alphabet that keeps their order;
* `append_lt_iff`, `sep_lt_iff` — the order of lists of one length, with a separator in one place.
-/

namespace Codec

/-! ### The lexicographic order -/

section Lex

variable {α β : Type} [LinearOrder α] [LT β]

/-- Lists that begin with lists of one length. -/
theorem append_lt_iff {xs xs' : List α} (h : xs.length = xs'.length) (ys ys' : List α) :
    xs ++ ys < xs' ++ ys' ↔ xs < xs' ∨ (xs = xs' ∧ ys < ys') := by
  induction xs generalizing xs' with
  | nil =>
    cases xs' with
    | nil => simp
    | cons x' xs' => simp at h
  | cons x xs ih =>
    cases xs' with
    | nil => simp at h
    | cons x' xs' =>
      have hlen : xs.length = xs'.length := by simpa using h
      simp only [List.cons_append, List.cons_lt_cons_iff, ih hlen, List.cons.injEq]
      tauto

/-- The same separator in the same place changes nothing. -/
theorem sep_lt_iff {xs xs' : List α} (h : xs.length = xs'.length) (c : α) {ys ys' zs zs' : List α}
    (hrest : ys < ys' ↔ zs < zs') : xs ++ c :: ys < xs' ++ c :: ys' ↔ xs ++ zs < xs' ++ zs' := by
  rw [append_lt_iff h, append_lt_iff h, List.cons_lt_cons_iff, hrest]
  simp

/-- Another alphabet, in which the letters that occur have the same order. -/
theorem map_lt_iff {f : α → β} {p : α → Prop} (hf : ∀ a b, p a → p b → (f a < f b ↔ a < b))
    (hinj : ∀ a b, p a → p b → f a = f b → a = b) {xs ys : List α} (hxs : ∀ x ∈ xs, p x)
    (hys : ∀ y ∈ ys, p y) : xs.map f < ys.map f ↔ xs < ys := by
  induction xs generalizing ys with
  | nil =>
    cases ys with
    | nil => simp
    | cons y ys => simp
  | cons x xs ih =>
    cases ys with
    | nil => simp
    | cons y ys =>
      rw [List.forall_mem_cons] at hxs hys
      have heq : f x = f y ↔ x = y := ⟨hinj x y hxs.1 hys.1, congrArg f⟩
      simp only [List.map_cons, List.cons_lt_cons_iff, hf x y hxs.1 hys.1, heq, ih hxs.2 hys.2]

end Lex

/-! ### Digits -/

/-- The low `w` digits of `n`, most significant first. -/
def digits (b : ℕ) : ℕ → ℕ → List ℕ
  | 0, _ => []
  | w + 1, n => n / b ^ w % b :: digits b w n

variable {b : ℕ}

@[simp] theorem length_digits (w n : ℕ) : (digits b w n).length = w := by
  induction w with
  | zero => rfl
  | succ w ih => rw [digits, List.length_cons, ih]

theorem digit_lt (hb : 0 < b) {w n d : ℕ} (h : d ∈ digits b w n) : d < b := by
  induction w with
  | zero => cases h
  | succ w ih =>
    obtain rfl | h := List.mem_cons.mp h
    · exact Nat.mod_lt _ hb
    · exact ih h

/-- What is above the width does not matter. -/
theorem digits_mod (w n : ℕ) : digits b w (n % b ^ w) = digits b w n := by
  have hlow : ∀ v, v ≤ w → digits b v (n % b ^ w) = digits b v n := by
    intro v
    induction v with
    | zero => exact fun _ => rfl
    | succ v ih =>
      intro hv
      have hpow : b ^ w = b ^ v * b * b ^ (w - (v + 1)) := by
        rw [← pow_succ, ← pow_add]
        congr 1
        omega
      rw [digits, digits, ih (by omega), hpow, mul_assoc, Nat.mod_mul_right_div_self,
        Nat.mod_mul_right_mod]
  exact hlow w (Nat.le_refl w)

/-- **The order of the digits is the order of the numbers.** -/
theorem digits_lt_iff (hb : 0 < b) {w m n : ℕ} (hm : m < b ^ w) (hn : n < b ^ w) :
    digits b w m < digits b w n ↔ m < n := by
  induction w generalizing m n with
  | zero =>
    have hm0 : m = 0 := by simpa using hm
    have hn0 : n = 0 := by simpa using hn
    simp [digits, hm0, hn0]
  | succ w ih =>
    have hpos : 0 < b ^ w := Nat.pow_pos hb
    have hlow : digits b w m < digits b w n ↔ m % b ^ w < n % b ^ w := by
      rw [← digits_mod w m, ← digits_mod w n, ih (Nat.mod_lt _ hpos) (Nat.mod_lt _ hpos)]
    have hdigit : ∀ k, k < b ^ (w + 1) → k / b ^ w % b = k / b ^ w := by
      intro k hk
      exact Nat.mod_eq_of_lt (Nat.div_lt_of_lt_mul (by rwa [pow_succ] at hk))
    have hm' := Nat.div_add_mod m (b ^ w)
    have hn' := Nat.div_add_mod n (b ^ w)
    have hmlt := Nat.mod_lt m hpos
    have hnlt := Nat.mod_lt n hpos
    rw [digits, digits, List.cons_lt_cons_iff, hdigit m hm, hdigit n hn, hlow]
    generalize m / b ^ w = p, m % b ^ w = r, n / b ^ w = q, n % b ^ w = t at *
    constructor
    · rintro (hlt | ⟨heq, hlt⟩)
      · have hstep : b ^ w * (p + 1) ≤ b ^ w * q := Nat.mul_le_mul_left _ hlt
        rw [Nat.mul_add, Nat.mul_one] at hstep
        omega
      · rw [heq] at hm'
        omega
    · intro hlt
      rcases Nat.lt_trichotomy p q with h | h | h
      · exact .inl h
      · refine .inr ⟨h, ?_⟩
        rw [h] at hm'
        omega
      · have hstep : b ^ w * (q + 1) ≤ b ^ w * p := Nat.mul_le_mul_left _ h
        rw [Nat.mul_add, Nat.mul_one] at hstep
        omega

/-- The number that digits make. -/
theorem foldl_digits (w n a : ℕ) :
    (digits b w n).foldl (fun a d => b * a + d) a = b ^ w * a + n % b ^ w := by
  induction w generalizing a with
  | zero => simp [digits, Nat.mod_one]
  | succ w ih =>
    rw [digits, List.foldl_cons, ih, pow_succ, Nat.mod_mul]
    ring

end Codec
