import Mathlib.Data.List.DropRight

/-!
# Text: trimming, splitting and anchored patterns

* `trim` — elements dropped at both ends;
* `mem_splitOn`, `splitOn_of_not_mem` — the parts between separators;
* `fullMatch`, `dollarMatch` — the pattern `^[p]{lo,hi}$` where `$` stands at the very end, and where
  it also stands before a newline that ends the text;
* `replaceChar` — one character replaced by a text;
* `dollar_iff_full` — **the two readings of `$` differ exactly on a match followed by a newline.**
-/

namespace Codec

section Trim

variable {α β : Type} {p : α → Bool}

/-- Without the elements of `p` at the two ends. -/
def trim (p : α → Bool) (l : List α) : List α := (l.dropWhile p).rdropWhile p

theorem trim_eq_nil {l : List α} : trim p l = [] ↔ ∀ x ∈ l, p x := by
  rw [trim, List.rdropWhile_eq_nil_iff]
  constructor
  · intro h x hx
    rw [← List.takeWhile_append_dropWhile (p := p) (l := l)] at hx
    rcases List.mem_append.mp hx with hx | hx
    · exact List.mem_takeWhile_imp hx
    · exact h x hx
  · intro h x hx
    exact h x ((List.dropWhile_suffix p).subset hx)

theorem trim_map (f : β → α) (l : List β) : trim p (l.map f) = (trim (fun x => p (f x)) l).map f := by
  simp only [trim, List.rdropWhile, List.dropWhile_map, ← List.map_reverse, Function.comp_def]

theorem mem_dropWhile {l : List α} {x : α} (h : x ∈ l) (hx : ¬ p x) : x ∈ l.dropWhile p := by
  rw [← List.takeWhile_append_dropWhile (p := p) (l := l), List.mem_append] at h
  rcases h with h | h
  · exact absurd (List.mem_takeWhile_imp h) hx
  · exact h

/-- What is not of `p` stays. -/
theorem mem_trim {l : List α} {x : α} (h : x ∈ l) (hx : ¬ p x) : x ∈ trim p l := by
  have hdrop := mem_dropWhile h hx
  rw [trim, List.rdropWhile, List.mem_reverse]
  exact mem_dropWhile (List.mem_reverse.mpr hdrop) hx

theorem length_trim_le (l : List α) : (trim p l).length ≤ l.length :=
  (List.rdropWhile_prefix p _).length_le.trans (List.dropWhile_suffix p).length_le

theorem trim_getLast {l : List α} {x : α} (h : x ∈ (trim p l).getLast?) : ¬ p x := by
  obtain ⟨hne, rfl⟩ := List.mem_getLast?_eq_getLast h
  exact List.rdropWhile_last_not p _ hne

theorem trim_head {l : List α} {x : α} (h : x ∈ (trim p l).head?) : ¬ p x := by
  have hhead : x ∈ (l.dropWhile p).head? := by
    obtain ⟨suffix, hsuffix⟩ := List.rdropWhile_prefix p (l.dropWhile p)
    rw [← hsuffix, List.head?_append]
    simp only [trim] at h
    rw [h]
    rfl
  cases hdrop : l.dropWhile p with
  | nil => simp [hdrop] at hhead
  | cons y ys =>
    have hy : y = x := by simpa [hdrop] using hhead
    have hnot := List.head_dropWhile_not p (l := l) (by simp [hdrop])
    simpa [hdrop, hy] using hnot

theorem trim_eq_self {l : List α} (hhead : ∀ x ∈ l.head?, ¬ p x) (hlast : ∀ x ∈ l.getLast?, ¬ p x) :
    trim p l = l := by
  have hdrop : l.dropWhile p = l := by
    cases l with
    | nil => rfl
    | cons x l => exact List.dropWhile_cons_of_neg (hhead x rfl)
  rw [trim, hdrop, List.rdropWhile_eq_self_iff]
  intro hne
  exact hlast _ (List.getLast_mem_getLast? hne)

/-- An element of `p` at the end is dropped. -/
theorem length_trim_lt {l : List α} {x : α} (h : x ∈ l.getLast?) (hx : p x) :
    (trim p l).length < l.length := by
  refine lt_of_le_of_ne (length_trim_le l) fun heq => ?_
  have hsub : trim p l = l := by
    have hsuffix : (l.dropWhile p).length = l.length :=
      le_antisymm (List.dropWhile_suffix p).length_le
        (heq ▸ (List.rdropWhile_prefix p _).length_le)
    have hdrop : l.dropWhile p = l := (List.dropWhile_suffix p).eq_of_length hsuffix
    have hbegins : trim p l <+: l := by
      rw [trim, hdrop]
      exact List.rdropWhile_prefix p _
    exact hbegins.eq_of_length heq
  rw [← hsub] at h
  exact trim_getLast h hx

end Trim

section Split

variable {α : Type} {x y : α}

theorem mem_intercalate {sep : List α} {ls : List (List α)} (h : y ∈ sep.intercalate ls) :
    y ∈ sep ∨ ∃ l ∈ ls, y ∈ l := by
  induction ls with
  | nil => simp at h
  | cons l ls ih =>
    by_cases hls : ls = []
    · subst hls
      rw [List.intercalate_singleton] at h
      exact Or.inr ⟨l, List.mem_cons_self, h⟩
    · rw [List.intercalate_cons_of_ne_nil hls, List.mem_append, List.mem_append] at h
      rcases h with (h | h) | h
      · exact Or.inr ⟨l, List.mem_cons_self, h⟩
      · exact Or.inl h
      · obtain hsep | ⟨m, hm, hy⟩ := ih h
        · exact Or.inl hsep
        · exact Or.inr ⟨m, List.mem_cons_of_mem l hm, hy⟩

theorem length_le_intercalate {sep l : List α} {ls : List (List α)} (h : l ∈ ls) :
    l.length ≤ (sep.intercalate ls).length := by
  induction ls with
  | nil => simp at h
  | cons m ls ih =>
    by_cases hls : ls = []
    · subst hls
      rw [List.mem_singleton.mp h, List.intercalate_singleton]
    · rw [List.intercalate_cons_of_ne_nil hls, List.length_append, List.length_append]
      rcases List.mem_cons.mp h with rfl | h
      · omega
      · have hle := ih h
        omega

variable [BEq α] [LawfulBEq α] {l : List α}

theorem mem_splitOn (hy : y ∈ l) (hne : y ≠ x) : ∃ part ∈ l.splitOn x, y ∈ part := by
  have hy : y ∈ [x].intercalate (l.splitOn x) := by rwa [List.intercalate_splitOn]
  exact (mem_intercalate hy).resolve_left (by simpa using hne)

theorem length_le_of_mem_splitOn {part : List α} (h : part ∈ l.splitOn x) :
    part.length ≤ l.length := by
  have hle : part.length ≤ ([x].intercalate (l.splitOn x)).length := length_le_intercalate h
  rwa [List.intercalate_splitOn] at hle

theorem splitOn_of_not_mem (h : x ∉ l) : l.splitOn x = [l] := by
  have hinv : ([x].intercalate [l]).splitOn x = [l] :=
    List.splitOn_intercalate x (by simpa using h) (by simp)
  rwa [List.intercalate_singleton] at hinv

end Split

section Anchored

variable {p : Char → Bool} {lo hi : ℕ} {s : List Char}

/-- `^[p]{lo,hi}$`, where `$` is the end of the text. -/
def fullMatch (p : Char → Bool) (lo hi : ℕ) (s : List Char) : Bool :=
  s.all p && lo ≤ s.length && s.length ≤ hi

/-- `^[p]{lo,hi}$`, where `$` is the end of the text or stands before a newline there. -/
def dollarMatch (p : Char → Bool) (lo hi : ℕ) (s : List Char) : Bool :=
  fullMatch p lo hi s || (s.getLast? = some '\n' && fullMatch p lo hi s.dropLast)

theorem dollarMatch_iff : dollarMatch p lo hi s ↔
    fullMatch p lo hi s ∨ ∃ w, fullMatch p lo hi w ∧ s = w ++ ['\n'] := by
  simp only [dollarMatch, Bool.or_eq_true, Bool.and_eq_true, decide_eq_true_eq]
  refine or_congr_right ⟨fun h => ?_, ?_⟩
  · exact ⟨s.dropLast, h.2, (List.dropLast_append_getLast? '\n' h.1).symm⟩
  · rintro ⟨w, hw, rfl⟩
    simp [hw]

/-- **The two readings differ exactly on a match followed by a newline.** -/
theorem dollar_iff_full (hp : ¬ p '\n') :
    (dollarMatch p lo hi s ↔ fullMatch p lo hi s) ↔
      ∀ w, fullMatch p lo hi w → s ≠ w ++ ['\n'] := by
  have hnewline : ∀ w, ¬ fullMatch p lo hi (w ++ ['\n']) := by
    intro w hw
    simp [fullMatch, hp] at hw
  rw [dollarMatch_iff]
  constructor
  · rintro h w hw rfl
    exact hnewline w (h.mp (Or.inr ⟨w, hw, rfl⟩))
  · intro h
    constructor
    · rintro (hfull | ⟨w, hw, hs⟩)
      · exact hfull
      · exact absurd hs (h w hw)
    · exact Or.inl

end Anchored

/-! ### Replacement -/

/-- `s.replace(c, t)` for a single character `c`. -/
def replaceChar (c : Char) (t s : List Char) : List Char :=
  s.flatMap fun d => if d = c then t else [d]

@[simp] theorem replaceChar_nil (c : Char) (t : List Char) : replaceChar c t [] = [] := rfl

theorem replaceChar_cons_self (c : Char) (t s : List Char) :
    replaceChar c t (c :: s) = t ++ replaceChar c t s := by
  simp [replaceChar]

theorem replaceChar_cons_of_ne {c d : Char} (h : d ≠ c) (t s : List Char) :
    replaceChar c t (d :: s) = d :: replaceChar c t s := by
  simp [replaceChar, h]

end Codec
