import Mathlib.Data.List.Infix

/-!
# Replacing all matches of a pattern

The matches are the words of a language between two boundaries, found from left to right; a finder
says how long the match is that begins at a place.

* `substitute` — every match replaced by one text;
* `Finds` — what a finder of a language finds;
* `substitute_idem` — **to replace twice is to replace once, when the new text stands between two
  signs that no word has.**
-/

namespace Codec

variable {α : Type}

/-- Every match replaced, after `skip` elements that belong to a match. -/
def substitute (find : Option α → List α → Option ℕ) (new : List α) :
    ℕ → Option α → List α → List α
  | _, _, [] => []
  | skip + 1, _, x :: l => substitute find new skip (some x) l
  | 0, prev, x :: l =>
    match find prev (x :: l) with
    | some (n + 1) => new ++ substitute find new n (some x) l
    | _ => x :: substitute find new 0 (some x) l

/-- The finder finds the words of `M` between boundaries. -/
structure Finds (M : List α → Prop) (boundary : Option α → Option α → Prop)
    (find : Option α → List α → Option ℕ) : Prop where
  nonempty : ∀ m, M m → m ≠ []
  found : ∀ prev l n, find prev l = some n → ∃ m rest, l = m ++ rest ∧ m.length = n ∧ M m ∧
    boundary prev l.head? ∧ boundary m.getLast? rest.head?
  missed : ∀ prev l, find prev l = none → ∀ m rest, l = m ++ rest → M m →
    boundary prev l.head? → ¬ boundary m.getLast? rest.head?

/-- Nothing is found at any place. -/
def Free (find : Option α → List α → Option ℕ) : Option α → List α → Prop
  | _, [] => True
  | prev, x :: l => find prev (x :: l) = none ∧ Free find (some x) l

variable {M : List α → Prop} {boundary : Option α → Option α → Prop}
  {find : Option α → List α → Option ℕ} {new : List α} {prev prev' : Option α} {l : List α}

theorem substitute_of_free (h : Free find prev l) : substitute find new 0 prev l = l := by
  induction l generalizing prev with
  | nil => rfl
  | cons x l ih =>
    rw [substitute, h.1, ih h.2]

/-- The elements of a match are passed over. -/
theorem substitute_skip (n : ℕ) (x : α) (h : n ≤ l.length) : substitute find new n (some x) l =
    substitute find new 0 (x :: l.take n).getLast? (l.drop n) := by
  induction l generalizing n x with
  | nil =>
    have hn : n = 0 := Nat.le_zero.mp h
    subst hn
    rfl
  | cons y l ih =>
    cases n with
    | zero => rfl
    | succ n =>
      rw [substitute, ih n y (Nat.le_of_succ_le_succ h), List.take_succ_cons, List.drop_succ_cons,
        List.getLast?_cons_cons]

namespace Finds

variable (hf : Finds M boundary find)

include hf

/-- What comes next is a boundary only if what came next before is one. -/
theorem boundary_head (h : boundary prev (substitute find new 0 prev l).head?) :
    boundary prev l.head? := by
  cases l with
  | nil => exact h
  | cons x l =>
    cases hfind : find prev (x :: l) with
    | none =>
      rw [substitute, hfind] at h
      exact h
    | some n =>
      obtain ⟨_, _, _, _, _, hstart, _⟩ := hf.found _ _ _ hfind
      exact hstart

/-- A match at the first element. -/
theorem substitute_found {x : α} {n : ℕ} (hfind : find prev (x :: l) = some n) :
    ∃ m rest, x :: l = m ++ rest ∧ M m ∧ boundary m.getLast? rest.head? ∧
      substitute find new 0 prev (x :: l) = new ++ substitute find new 0 m.getLast? rest := by
  obtain ⟨m, rest, heq, hlen, hm, -, hend⟩ := hf.found _ _ _ hfind
  refine ⟨m, rest, heq, hm, hend, ?_⟩
  cases m with
  | nil => exact absurd rfl (hf.nonempty _ hm)
  | cons y m =>
    obtain ⟨rfl, rfl⟩ := List.cons.inj heq
    have hn : n = m.length + 1 := hlen.symm
    subst hn
    rw [substitute, hfind]
    dsimp only
    rw [substitute_skip _ _ (by simp)]
    show new ++ substitute find new 0 (x :: (m ++ rest).take m.length).getLast?
      ((m ++ rest).drop m.length) = _
    rw [List.take_left, List.drop_left]

/-- What is left of the text before a new text was there before. -/
theorem unsubstitute {o : α} {mid : List α} (hnew : new = o :: mid) {m rest : List α} (ho : o ∉ m)
    (h : substitute find new 0 prev l = m ++ rest) :
    ∃ rest', l = m ++ rest' ∧ rest = substitute find new 0 ((m.getLast?).or prev) rest' := by
  induction m generalizing prev l with
  | nil => exact ⟨l, rfl, h.symm⟩
  | cons y m ih =>
    rw [List.mem_cons, not_or] at ho
    cases l with
    | nil => cases h
    | cons x l =>
      cases hfind : find prev (x :: l) with
      | some n =>
        obtain ⟨_, _, _, _, _, hsub⟩ := hf.substitute_found hfind
        rw [hsub, hnew] at h
        exact absurd (List.cons.inj h).1 ho.1
      | none =>
        rw [substitute, hfind] at h
        obtain ⟨rfl, htail⟩ := List.cons.inj h
        obtain ⟨rest', rfl, hrest⟩ := ih ho.2 htail
        refine ⟨rest', rfl, ?_⟩
        rw [hrest]
        cases m with
        | nil => rfl
        | cons z m => rw [List.getLast?_cons_cons, List.getLast?_eq_some_getLast (by simp)]; rfl

/-- A text between two signs that no word has, and with no word between them, brings no match. -/
theorem free_new {o c : α} {mid : List α} (hsigns : ∀ m, M m → o ∉ m ∧ c ∉ m)
    (hmid : ∀ m, M m → ¬ m <:+: mid) (h : Free find (some c) l) (prev : Option α) :
    Free find prev (o :: (mid ++ c :: l)) := by
  have hnone : ∀ (prev : Option α) (l : List α), (∀ m rest, l = m ++ rest → ¬ M m) →
      find prev l = none := by
    intro prev l hno
    cases hfind : find prev l with
    | none => rfl
    | some n =>
      obtain ⟨m, rest, heq, -, hm, -, -⟩ := hf.found _ _ _ hfind
      exact absurd hm (hno m rest heq)
  have hfirst : ∀ {x : α} {l m rest : List α}, x ∉ m → x :: l = m ++ rest → ¬ M m := by
    intro x l m rest hx heq hm
    cases m with
    | nil => exact hf.nonempty _ hm rfl
    | cons y m => exact hx ((List.cons.inj heq).1 ▸ List.mem_cons_self)
  have hinner : ∀ (inner : List α) (prev : Option α), (∀ m, M m → ¬ m <:+: inner) →
      Free find prev (inner ++ c :: l) := by
    intro inner
    induction inner with
    | nil =>
      intro prev _
      refine ⟨hnone _ _ fun m rest heq hm => ?_, h⟩
      exact hfirst (hsigns m hm).2 heq hm
    | cons y inner ih =>
      intro prev hinner
      refine ⟨hnone _ _ fun m rest heq hm => ?_, ih _ fun m hm hsub => ?_⟩
      · -- the word ends before the closing sign
        have hsplit : (y :: inner) ++ c :: l = m ++ rest := heq
        rcases List.append_eq_append_iff.mp hsplit with ⟨more, hmore, htail⟩ | ⟨more, hmore, htail⟩
        · cases more with
          | nil => exact hinner m hm ⟨[], [], by simpa using hmore⟩
          | cons z more =>
            have hz : c = z := (List.cons.inj htail).1
            exact (hsigns m hm).2 (by rw [hmore, hz]; simp)
        · exact hinner m hm ⟨[], more, by simpa using hmore.symm⟩
      · exact hinner m hm (List.infix_cons hsub)
  refine ⟨hnone _ _ fun m rest heq hm => ?_, hinner mid _ hmid⟩
  exact hfirst (hsigns m hm).1 heq hm

/-- After a replacement nothing is left to be found. -/
theorem free_substitute {o c : α} {mid : List α} (hnew : new = o :: (mid ++ [c]))
    (hsigns : ∀ m, M m → o ∉ m ∧ c ∉ m) (hmid : ∀ m, M m → ¬ m <:+: mid)
    (hprev : prev' = prev ∨ boundary prev l.head?) :
    Free find prev' (substitute find new 0 prev l) := by
  subst hnew
  induction hlen : l.length using Nat.strong_induction_on generalizing prev prev' l with
  | h len ih =>
    subst hlen
    cases l with
    | nil => trivial
    | cons x l =>
      cases hfind : find prev (x :: l) with
      | some n =>
        obtain ⟨m, rest, heq, hm, hend, hsub⟩ := hf.substitute_found hfind
        have hshort : rest.length < (x :: l).length := by
          have hpos := List.length_pos_of_ne_nil (hf.nonempty m hm)
          rw [heq, List.length_append]
          omega
        have hrest : Free find (some c) (substitute find (o :: (mid ++ [c])) 0 m.getLast? rest) :=
          ih rest.length hshort (.inr hend) rfl
        rw [hsub, List.cons_append, List.append_assoc, List.singleton_append]
        exact hf.free_new hsigns hmid hrest prev'
      | none =>
        have hstep : substitute find (o :: (mid ++ [c])) 0 prev (x :: l) =
            x :: substitute find (o :: (mid ++ [c])) 0 (some x) l := by
          rw [substitute, hfind]
        rw [hstep]
        refine ⟨?_, ih l.length (Nat.lt_succ_self _) (.inl rfl) rfl⟩
        cases hfind' : find prev' (x :: substitute find (o :: (mid ++ [c])) 0 (some x) l) with
        | none => rfl
        | some n =>
          -- the match would have been found in the text as it was
          obtain ⟨m, rest, heq, -, hm, hstart, hend⟩ := hf.found _ _ _ hfind'
          obtain ⟨rest', hrest', rfl⟩ := hf.unsubstitute rfl (hsigns m hm).1 (hstep.trans heq)
          have hlast : (m.getLast?).or prev = m.getLast? := by
            rw [List.getLast?_eq_some_getLast (hf.nonempty m hm)]
            rfl
          rw [hlast] at hend
          have hbegin : boundary prev (x :: l).head? := by
            rcases hprev with rfl | hprev
            · exact hstart
            · exact hprev
          exact absurd (hf.boundary_head hend) (hf.missed _ _ hfind m rest' hrest' hm hbegin)

/-- **To replace twice is to replace once.** -/
theorem substitute_idem {o c : α} {mid : List α} (hnew : new = o :: (mid ++ [c]))
    (hsigns : ∀ m, M m → o ∉ m ∧ c ∉ m) (hmid : ∀ m, M m → ¬ m <:+: mid) (prev : Option α)
    (l : List α) : substitute find new 0 prev (substitute find new 0 prev l) =
      substitute find new 0 prev l :=
  substitute_of_free (hf.free_substitute hnew hsigns hmid (.inl rfl))

end Finds

end Codec
