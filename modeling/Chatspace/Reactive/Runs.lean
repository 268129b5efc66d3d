import Mathlib.Data.Nat.Notation
import Mathlib.Order.Notation

/-!
# Runs of a component that reacts to events

A component is a partial step function: an event that cannot happen in a state has no step there.
A run is a list of events, of which those that cannot happen are passed over.

* `transitions` — the steps of a run;
* `last` — the state it ends in;
* `transitions_of_inv`, `last_of_inv` — the invariant rule;
* `last_count` — what grows by one with every step of a kind;
* `last_of_history` — what ties the end of a run to the steps it has taken;
* `transitions_iff` — **the steps of a run are all good just where they are all allowed.**
-/

namespace Reactive

variable {S E : Type} (step : S → E → Option S)

/-- The steps of a run. -/
def transitions : S → List E → List (S × E × S)
  | _, [] => []
  | s, e :: es =>
    match step s e with
    | none => transitions s es
    | some s' => (s, e, s') :: transitions s' es

/-- The state a run ends in. -/
def last : S → List E → S
  | s, [] => s
  | s, e :: es =>
    match step s e with
    | none => last s es
    | some s' => last s' es

variable {step} {I : S → Prop} {C : S → E → Prop} {Q : S → E → S → Prop} {s : S}

/-- What an invariant and the conditions on the steps give for one step, they give for a run. -/
theorem transitions_of_inv
    (hstep : ∀ s e s', I s → C s e → step s e = some s' → I s' ∧ Q s e s') (hs : I s)
    (es : List E) (hC : ∀ x ∈ transitions step s es, C x.1 x.2.1) :
    ∀ x ∈ transitions step s es, Q x.1 x.2.1 x.2.2 := by
  induction es generalizing s with
  | nil =>
    intro x hx
    cases hx
  | cons e es ih =>
    cases he : step s e with
    | none =>
      simp only [transitions, he] at hC ⊢
      exact ih hs hC
    | some s' =>
      simp only [transitions, he, List.forall_mem_cons] at hC ⊢
      obtain ⟨hs', hQ⟩ := hstep s e s' hs hC.1 he
      exact ⟨hQ, ih hs' hC.2⟩

/-- An invariant holds at the end of a run. -/
theorem last_of_inv (hstep : ∀ s e s', I s → C s e → step s e = some s' → I s') (hs : I s)
    (es : List E) (hC : ∀ x ∈ transitions step s es, C x.1 x.2.1) : I (last step s es) := by
  induction es generalizing s with
  | nil => exact hs
  | cons e es ih =>
    cases he : step s e with
    | none =>
      simp only [transitions, he] at hC
      simp only [last, he]
      exact ih hs hC
    | some s' =>
      simp only [transitions, he, List.forall_mem_cons] at hC
      simp only [last, he]
      exact ih (hstep s e s' hs hC.1 he) hC.2

/-- **The steps of a run are all good just where they are all allowed.** -/
theorem transitions_iff
    (hstep : ∀ s e s', I s → step s e = some s' → (C s e ↔ Q s e s'))
    (hinv : ∀ s e s', I s → C s e → step s e = some s' → I s') (hs : I s) (es : List E) :
    (∀ x ∈ transitions step s es, C x.1 x.2.1) ↔
      ∀ x ∈ transitions step s es, Q x.1 x.2.1 x.2.2 := by
  constructor
  · intro hC
    refine transitions_of_inv (fun s e s' hi hc he => ?_) hs es hC
    exact ⟨hinv s e s' hi hc he, (hstep s e s' hi he).mp hc⟩
  · intro hQ
    induction es generalizing s with
    | nil =>
      intro x hx
      cases hx
    | cons e es ih =>
      cases he : step s e with
      | none =>
        simp only [transitions, he] at hQ ⊢
        exact ih hs hQ
      | some s' =>
        simp only [transitions, he, List.forall_mem_cons] at hQ ⊢
        have hc := (hstep s e s' hs he).mpr hQ.1
        exact ⟨hc, ih (hinv s e s' hs hc he) hQ.2⟩

/-! ### Runs taken apart, and steps counted -/

variable (step) in
theorem transitions_append (s : S) (es es' : List E) : transitions step s (es ++ es') =
    transitions step s es ++ transitions step (last step s es) es' := by
  induction es generalizing s with
  | nil => rfl
  | cons e es ih =>
    cases he : step s e with
    | none => simp only [List.cons_append, transitions, last, he, ih]
    | some s' => simp only [List.cons_append, transitions, last, he, ih]

variable (step) in
theorem last_append (s : S) (es es' : List E) :
    last step s (es ++ es') = last step (last step s es) es' := by
  induction es generalizing s with
  | nil => rfl
  | cons e es ih =>
    cases he : step s e with
    | none => simp only [List.cons_append, last, he, ih]
    | some s' => simp only [List.cons_append, last, he, ih]

/-- What grows by one with every step of a kind counts these steps. -/
theorem last_count {f : S → ℕ} {p : E → Bool}
    (hstep : ∀ s e s', I s → C s e → step s e = some s' → I s' ∧ f s' = f s + (p e).toNat)
    (hs : I s) (es : List E) (hC : ∀ x ∈ transitions step s es, C x.1 x.2.1) :
    f (last step s es) = f s + (transitions step s es).countP fun x => p x.2.1 := by
  induction es generalizing s with
  | nil => rfl
  | cons e es ih =>
    cases he : step s e with
    | none =>
      simp only [transitions, he] at hC
      simp only [transitions, last, he]
      exact ih hs hC
    | some s' =>
      simp only [transitions, he, List.forall_mem_cons] at hC
      obtain ⟨hs', hf⟩ := hstep s e s' hs hC.1 he
      simp only [transitions, last, he, List.countP_cons, ih hs' hC.2, hf]
      cases p e with
      | false => simp
      | true => simp only [Bool.toNat_true, if_true]; omega

/-- What ties a state to the steps taken so far, and is kept by one more step. -/
theorem last_of_history {H : List (S × E × S) → S → Prop}
    (hstep : ∀ xs s e s', H xs s → step s e = some s' → H (xs ++ [(s, e, s')]) s')
    {xs : List (S × E × S)} (hs : H xs s) (es : List E) :
    H (xs ++ transitions step s es) (last step s es) := by
  induction es generalizing xs s with
  | nil =>
    rw [transitions, List.append_nil]
    exact hs
  | cons e es ih =>
    cases he : step s e with
    | none =>
      simp only [transitions, last, he]
      exact ih hs
    | some s' =>
      simp only [transitions, last, he]
      rw [List.append_cons]
      exact ih (hstep xs s e s' hs he)

end Reactive
