import Chatspace.Interleave.Program

/-!
# A program against an adversary

One program, and an adversary who answers every operation as it likes, knowing what came before.

* `Reply` — an operation with its answer; a history is a list of them;
* `play` — the program played to its end against an adversary; by recursion on the program, so it
  always ends;
* `Obeys ok Q` — the weakest precondition: no operation is performed that `ok` forbids after the
  history so far, and the final history and outcome satisfy `Q`;
* `Obeys.mono`, `Obeys.bind`, `Obeys.handle`, `obeys_perform` — the rules;
* `Obeys.play` — **what the rules prove holds against every adversary.**
-/

namespace Interleave

/-- An operation and the answer to it. -/
structure Reply (Op : Type) (Res : Op → Type) (E : Type) where
  op : Op
  answer : Except E (Res op)

namespace Prog

variable {Op : Type} {Res : Op → Type} {E α β : Type}

/-- The answers to the operations, given what came before. -/
abbrev Adversary (Op : Type) (Res : Op → Type) (E : Type) : Type :=
  List (Reply Op Res E) → (o : Op) → Except E (Res o)

/-- The history and the outcome of the program, after a history. -/
def play (adversary : Adversary Op Res E) :
    Prog Op Res E α → List (Reply Op Res E) → List (Reply Op Res E) × Except E α
  | .ret a, past => (past, .ok a)
  | .raise e, past => (past, .error e)
  | .call o k, past =>
    play adversary (k (adversary past o)) (past ++ [⟨o, adversary past o⟩])

/-- Whatever the answers, every operation is allowed by `ok` after the history before it, and the
final history and outcome satisfy `Q`. -/
def Obeys (ok : List (Reply Op Res E) → Op → Prop) : Prog Op Res E α →
    (List (Reply Op Res E) → Except E α → Prop) → List (Reply Op Res E) → Prop
  | .ret a, Q, past => Q past (.ok a)
  | .raise e, Q, past => Q past (.error e)
  | .call o k, Q, past => ok past o ∧ ∀ r, Obeys ok (k r) Q (past ++ [⟨o, r⟩])

variable {ok : List (Reply Op Res E) → Op → Prop} {past : List (Reply Op Res E)}

theorem Obeys.mono {p : Prog Op Res E α} {Q Q' : List (Reply Op Res E) → Except E α → Prop}
    (h : p.Obeys ok Q past) (hQ : ∀ hist r, Q hist r → Q' hist r) : p.Obeys ok Q' past := by
  induction p generalizing past with
  | ret a => exact hQ _ _ h
  | raise e => exact hQ _ _ h
  | call o k ih => exact ⟨h.1, fun r => ih r (h.2 r)⟩

/-- What is left of a sequence after its first part ended with `r`. -/
def Then (ok : List (Reply Op Res E) → Op → Prop) (f : α → Prog Op Res E β)
    (Q : List (Reply Op Res E) → Except E β → Prop) (hist : List (Reply Op Res E)) :
    Except E α → Prop
  | .ok a => (f a).Obeys ok Q hist
  | .error e => Q hist (.error e)

theorem Obeys.bind {p : Prog Op Res E α} {f : α → Prog Op Res E β}
    {Q : List (Reply Op Res E) → Except E β → Prop} (h : p.Obeys ok (Then ok f Q) past) :
    (p.bind f).Obeys ok Q past := by
  induction p generalizing past with
  | ret a => exact h
  | raise e => exact h
  | call o k ih => exact ⟨h.1, fun r => ih r (h.2 r)⟩

/-- What is left of a `try` after its body ended with `r`. -/
def Handled (ok : List (Reply Op Res E) → Op → Prop) (f : E → Prog Op Res E α)
    (Q : List (Reply Op Res E) → Except E α → Prop) (hist : List (Reply Op Res E)) :
    Except E α → Prop
  | .ok a => Q hist (.ok a)
  | .error e => (f e).Obeys ok Q hist

theorem Obeys.handle {p : Prog Op Res E α} {f : E → Prog Op Res E α}
    {Q : List (Reply Op Res E) → Except E α → Prop} (h : p.Obeys ok (Handled ok f Q) past) :
    (p.handle f).Obeys ok Q past := by
  induction p generalizing past with
  | ret a => exact h
  | raise e => exact h
  | call o k ih => exact ⟨h.1, fun r => ih r (h.2 r)⟩

theorem obeys_perform {o : Op} {Q : List (Reply Op Res E) → Except E (Res o) → Prop}
    (hok : ok past o) (hQ : ∀ r, Q (past ++ [⟨o, r⟩]) r) :
    (perform o : Prog Op Res E (Res o)).Obeys ok Q past := by
  refine ⟨hok, fun r => ?_⟩
  cases r with
  | ok a => exact hQ (.ok a)
  | error e => exact hQ (.error e)

theorem play_extends (adversary : Adversary Op Res E) (p : Prog Op Res E α)
    (past : List (Reply Op Res E)) : ∃ new, (p.play adversary past).1 = past ++ new := by
  induction p generalizing past with
  | ret a => exact ⟨[], (List.append_nil past).symm⟩
  | raise e => exact ⟨[], (List.append_nil past).symm⟩
  | call o k ih =>
    obtain ⟨new, hnew⟩ := ih (adversary past o) (past ++ [⟨o, adversary past o⟩])
    exact ⟨⟨o, adversary past o⟩ :: new, by rw [play, hnew, List.append_assoc]; rfl⟩

/-- **What the rules prove holds against every adversary.** -/
theorem Obeys.play {p : Prog Op Res E α} {Q : List (Reply Op Res E) → Except E α → Prop}
    (h : p.Obeys ok Q past) (adversary : Adversary Op Res E) :
    (∀ before reply after, (p.play adversary past).1 = before ++ reply :: after →
        past.length ≤ before.length → ok before reply.op) ∧
      Q (p.play adversary past).1 (p.play adversary past).2 := by
  induction p generalizing past with
  | ret a =>
    refine ⟨fun before reply after heq hlen => ?_, h⟩
    have hlength := congrArg List.length heq
    simp only [Prog.play, List.length_append, List.length_cons] at hlength
    omega
  | raise e =>
    refine ⟨fun before reply after heq hlen => ?_, h⟩
    have hlength := congrArg List.length heq
    simp only [Prog.play, List.length_append, List.length_cons] at hlength
    omega
  | call o k ih =>
    obtain ⟨hlater, hQ⟩ := ih _ (h.2 (adversary past o))
    refine ⟨fun before reply after heq hlen => ?_, hQ⟩
    by_cases hfirst : before.length = past.length
    · obtain ⟨new, hnew⟩ := play_extends adversary (k (adversary past o))
        (past ++ [⟨o, adversary past o⟩])
      rw [Prog.play, hnew, List.append_assoc] at heq
      obtain ⟨rfl, hreply⟩ := List.append_inj heq hfirst.symm
      cases hreply
      exact h.1
    · apply hlater before reply after heq
      rw [List.length_append, List.length_singleton]
      omega

end Prog

end Interleave
