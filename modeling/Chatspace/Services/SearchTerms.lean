import Mathlib.Data.List.Infix
import Chatspace.Services.PaginationWalk

/-!
# Search terms as `LIKE` patterns

`search_users` and `list_admin_users` put the escaped term between two `%`.

* `like_escapeLike` — an escaped term matches itself and nothing else;
* `Folds` — a case folding that goes character by character and leaves `%`, `_` and the backslash;
* `search_terms_literal` — **the pattern of a term finds the values that contain the term.**
-/

namespace Chatspace.SearchTerms

open Auth PaginationWalk

variable {env : Primitives}

/-- The characters that mean something in a pattern. -/
def IsSpecial (c : Char) : Prop := c = '\\' ∨ c = '%' ∨ c = '_'

instance (c : Char) : Decidable (IsSpecial c) := inferInstanceAs (Decidable (_ ∨ _))

/-! ### Escaping -/

@[simp] theorem escapeLike_nil : escapeLike [] = [] := rfl

/-- The backslashes that the later replacements put in are not doubled. -/
theorem escapeLike_cons (c : Char) (q : Text) :
    escapeLike (c :: q) = (if IsSpecial c then ['\\', c] else [c]) ++ escapeLike q := by
  unfold escapeLike
  by_cases hback : c = '\\'
  · subst hback
    rw [Codec.replaceChar_cons_self]
    simp [Codec.replaceChar_cons_of_ne, IsSpecial]
  · rw [Codec.replaceChar_cons_of_ne hback]
    by_cases hpercent : c = '%'
    · subst hpercent
      rw [Codec.replaceChar_cons_self]
      simp [Codec.replaceChar_cons_of_ne, IsSpecial]
    · rw [Codec.replaceChar_cons_of_ne hpercent]
      by_cases hunderscore : c = '_'
      · subst hunderscore
        rw [Codec.replaceChar_cons_self]
        simp [IsSpecial]
      · rw [Codec.replaceChar_cons_of_ne hunderscore]
        simp [IsSpecial, hback, hpercent, hunderscore]

theorem escapeLike_append (q r : Text) : escapeLike (q ++ r) = escapeLike q ++ escapeLike r := by
  induction q with
  | nil => rfl
  | cons c q ih => rw [List.cons_append, escapeLike_cons, escapeLike_cons, ih, List.append_assoc]

/-- A text without special characters is its own pattern. -/
theorem escapeLike_of_plain {q : Text} (h : ∀ c ∈ q, ¬ IsSpecial c) : escapeLike q = q := by
  induction q with
  | nil => rfl
  | cons c q ih =>
    rw [escapeLike_cons, if_neg (h c List.mem_cons_self),
      ih fun d hd => h d (List.mem_cons_of_mem c hd)]
    rfl

/-! ### Matching -/

theorem like_escaped (c : Char) (p v : Text) :
    like ('\\' :: c :: p) v = true ↔ ∃ rest, v = c :: rest ∧ like p rest = true := by
  cases v with
  | nil => simp [like]
  | cons d v =>
    simp only [like, Bool.and_eq_true, decide_eq_true_eq, List.cons.injEq]
    constructor
    · intro ⟨hc, hp⟩
      exact ⟨v, ⟨hc.symm, rfl⟩, hp⟩
    · intro ⟨rest, ⟨hc, hv⟩, hp⟩
      exact ⟨hc.symm, hv ▸ hp⟩

theorem like_plain {c : Char} (h : ¬ IsSpecial c) (p v : Text) :
    like (c :: p) v = true ↔ ∃ rest, v = c :: rest ∧ like p rest = true := by
  obtain ⟨hback, hpercent, hunderscore⟩ : c ≠ '\\' ∧ c ≠ '%' ∧ c ≠ '_' := by
    simpa [IsSpecial] using h
  cases v with
  | nil => simp [like, hback]
  | cons d v =>
    have hlike : like (c :: p) (d :: v) = (decide (c = d) && like p v) := by
      rw [like]
      all_goals simp [hback, hpercent, hunderscore]
    rw [hlike, Bool.and_eq_true, decide_eq_true_eq]
    constructor
    · intro ⟨hc, hp⟩
      exact ⟨v, by rw [hc], hp⟩
    · intro ⟨rest, heq, hp⟩
      obtain ⟨hc, rfl⟩ := List.cons.inj heq
      exact ⟨hc.symm, hp⟩

theorem like_percent (p v : Text) :
    like ('%' :: p) v = true ↔ ∃ rest, rest <:+ v ∧ like p rest = true := by
  rw [like, List.any_eq_true]
  simp only [List.mem_tails]

/-- **An escaped term matches itself and nothing else.** -/
theorem like_escapeLike (q p v : Text) :
    like (escapeLike q ++ p) v = true ↔ ∃ rest, v = q ++ rest ∧ like p rest = true := by
  induction q generalizing v with
  | nil => simp
  | cons c q ih =>
    have hhead : like (escapeLike (c :: q) ++ p) v = true ↔
        ∃ rest, v = c :: rest ∧ like (escapeLike q ++ p) rest = true := by
      rw [escapeLike_cons]
      split
      · exact like_escaped c _ v
      · rename_i h
        exact like_plain h _ v
    rw [hhead]
    constructor
    · intro ⟨tail, hv, htail⟩
      obtain ⟨rest, htail', hp⟩ := (ih tail).mp htail
      exact ⟨rest, by rw [hv, htail', List.cons_append], hp⟩
    · intro ⟨rest, hv, hp⟩
      exact ⟨q ++ rest, hv, (ih (q ++ rest)).mpr ⟨rest, rfl, hp⟩⟩

/-- Between two `%` a term is found wherever it occurs. -/
theorem like_contains (q v : Text) : like ('%' :: (escapeLike q ++ ['%'])) v = true ↔ q <:+: v := by
  rw [like_percent, List.infix_iff_prefix_suffix]
  have hany : ∀ rest, like ['%'] rest = true := by
    intro rest
    exact (like_percent [] rest).mpr ⟨[], List.nil_suffix, rfl⟩
  constructor
  · intro ⟨tail, hsuffix, htail⟩
    obtain ⟨rest, rfl, -⟩ := (like_escapeLike q ['%'] tail).mp htail
    exact ⟨q ++ rest, List.prefix_append q rest, hsuffix⟩
  · intro ⟨tail, ⟨rest, hrest⟩, hsuffix⟩
    exact ⟨tail, hsuffix, (like_escapeLike q ['%'] tail).mpr ⟨rest, hrest.symm, hany rest⟩⟩

/-! ### Folding -/

/-- A case folding: character by character, and the special characters stay what they are and come
from themselves only. -/
structure Folds (lower : Text → Text) : Prop where
  append : ∀ s t, lower (s ++ t) = lower s ++ lower t
  special : ∀ c, IsSpecial c → lower [c] = [c]
  plain : ∀ c, ¬ IsSpecial c → ∀ d ∈ lower [c], ¬ IsSpecial d

variable {lower : Text → Text}

theorem Folds.nil (h : Folds lower) : lower [] = [] := by
  have happend := h.append [] []
  rw [List.nil_append] at happend
  exact List.self_eq_append_right.mp happend

theorem Folds.cons (h : Folds lower) (c : Char) (s : Text) : lower (c :: s) = lower [c] ++ lower s :=
  h.append [c] s

/-- To fold an escaped term is to escape the folded term. -/
theorem Folds.escapeLike (h : Folds lower) (q : Text) :
    lower (escapeLike q) = Chatspace.escapeLike (lower q) := by
  induction q with
  | nil => rw [escapeLike_nil, h.nil, escapeLike_nil]
  | cons c q ih =>
    rw [escapeLike_cons, h.append, ih, h.cons c q, escapeLike_append]
    congr 1
    by_cases hc : IsSpecial c
    · rw [if_pos hc, h.cons, h.special c hc, h.special '\\' (.inl rfl), escapeLike_cons, if_pos hc]
      rfl
    · rw [if_neg hc, escapeLike_of_plain (h.plain c hc)]

theorem ilike_iff (h : Folds env.lower) (q value : Text) :
    ilike env value (['%'] ++ escapeLike q ++ ['%']) = true ↔ env.lower q <:+: env.lower value := by
  unfold ilike
  rw [h.append, h.append, h.special '%' (.inr (.inl rfl)), h.escapeLike]
  exact like_contains (env.lower q) (env.lower value)

/-! ### The searches -/

/-- **Search terms are literal.**  The pattern matches a value exactly when the folded term occurs in
the folded value; so a search of the directory finds the active users, and a search of an
administrator the users, with a column that contains the term. -/
theorem search_terms_literal (h : Folds env.lower) (db : Snapshot) :
    (∀ q value, ilike env value (['%'] ++ escapeLike q ++ ['%']) = true ↔
      env.lower q <:+: env.lower value) ∧
    (∀ q, ∀ u ∈ db.rows .users, u ∈ foundUsers env q db ↔ u.2.isActive = true ∧
      ∃ s ∈ [u.2.username, u.2.firstName, u.2.lastName], env.lower q <:+: env.lower s) ∧
    ∀ (q : Option Text) (statusFilter : Option AdminUserStatusFilter), ∀ u ∈ db.rows .users,
      u ∈ adminUsers env q statusFilter db ↔
        (strip (q.getD []) = [] ∨ ∃ s ∈ [u.2.firstName, u.2.lastName, u.2.username, u.2.email],
          env.lower (strip (q.getD [])) <:+: env.lower s) ∧
        ∀ f ∈ statusFilter, (f = .active ↔ u.2.isActive) := by
  refine ⟨ilike_iff h, ?_, ?_⟩
  · intro q u hu
    simp only [foundUsers, List.mem_filter, hu, true_and, decide_eq_true_eq, List.any_eq_true,
      ilike_iff h]
  · intro q statusFilter u hu
    simp only [adminUsers, List.mem_filter, hu, true_and, decide_eq_true_eq, List.any_eq_true,
      ilike_iff h]

/-- ASCII letters are folded. -/
def asciiEnv : Primitives := { plainEnv with lower := List.map Char.toLower }

theorem isSpecial_of_toLower {c : Char} (h : IsSpecial c.toLower) : IsSpecial c := by
  unfold Char.toLower at h
  split at h
  · rename_i hupper
    exfalso
    simp only [IsSpecial, Char.ext_iff] at h
    grind
  · exact h

theorem folds_asciiEnv : Folds asciiEnv.lower where
  append s t := List.map_append
  special c h := by
    rcases h with rfl | rfl | rfl
    · rfl
    · rfl
    · rfl
  plain c h d hd := by
    rw [List.mem_singleton.mp hd]
    exact fun hspecial => h (isSpecial_of_toLower hspecial)

/-- A percent sign is found as a percent sign. -/
theorem search_terms_literal_percent :
    ilike asciiEnv "Up 50% today".toList (['%'] ++ escapeLike "0% T".toList ++ ['%']) = true ∧
    ¬ ilike asciiEnv "Up 500 today".toList (['%'] ++ escapeLike "0% T".toList ++ ['%']) = true := by
  have h := (search_terms_literal folds_asciiEnv tied).1
  exact ⟨(h _ _).mpr (by decide), (h _ _).not.mpr (by decide)⟩

end Chatspace.SearchTerms
