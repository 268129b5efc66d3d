import Chatspace.Interleave.Pool
import Mathlib.Tactic.Choose

/-!
# Rely-guarantee for pools

The rule by which a claim about every interleaving is proved one program at a time.  A
`Contract` for a machine fixes an invariant of the world, the condition the run's steps meet, and
what a step of each process is allowed to do (`guar`).  `Safe t p A Q R` says that process `t`,
whose remaining program is `p` and which knows `A`, keeps to the contract at every step, and knows
`Q a` when it returns `a` and `R e` when it raises `e`.  What a process knows between two of its
steps must be `Stable`: kept by every step of the machine that the others' guarantees allow.

* `Safe.mono`, `Safe.const`, `Safe.exists`, `Safe.bind`, `Safe.handle`, `Safe.await`, `Safe.forEach` —
  the rules for programs; `Safe.frame`, `Safe.and_free` — their conjunction with what the operations
  keep, and with what needs no contract;
* `Sound` — the contract holds of a pool;
* `Sound.step`, `Sound.run` — **the soundness theorem**: soundness is kept by every step, hence by
  every run;
* `Sound.run_rel` — what every step respects, every run does;
* `Sound.invariant` — what every step that satisfies its guarantee keeps, every run does;
* `Sound.focus`, `Sound.focus_also` — a process judged anew in the middle of a run;
* `Sound.guar` — every step that is taken satisfies the guarantee of the process that takes it.
-/

namespace Interleave

variable {T Op : Type} {Res : Op → Type} {E Ch Ev α β γ σ : Type}

/-- The world after process `t` performed `o` with answer `r`, reaching state `s`. -/
def World.after (w : World T Op Res E σ) (t : T) (o : Op) (r : Except E (Res o)) (s : σ) :
    World T Op Res E σ := ⟨s, ⟨t, o, r⟩ :: w.trace⟩

@[simp] theorem World.after_state (w : World T Op Res E σ) (t : T) (o : Op)
    (r : Except E (Res o)) (s : σ) : (w.after t o r s).state = s := rfl

@[simp] theorem World.after_trace (w : World T Op Res E σ) (t : T) (o : Op)
    (r : Except E (Res o)) (s : σ) : (w.after t o r s).trace = ⟨t, o, r⟩ :: w.trace := rfl

/-- An invariant, a condition on the run, and what each step may do. -/
structure Contract (M : Machine T Op Res E Ch Ev σ) where
  inv : World T Op Res E σ → Prop
  pre : Machine.Condition T Op Res E Ch Ev σ
  guar : T → (o : Op) → Except E (Res o) → World T Op Res E σ → World T Op Res E σ → Prop

namespace Contract

variable {M : Machine T Op Res E Ch Ev σ}

/-- A step that process `t` does not take itself. -/
inductive Other (K : Contract M) (t : T) (w : World T Op Res E σ) : World T Op Res E σ → Prop
  | proc {t' : T} {o : Op} {c : Ch} {r : Except E (Res o)} {s : σ} (hne : t' ≠ t)
      (hpre : K.pre.op t' o c w) (hexec : M.exec t' o c w.state = some (r, s))
      (hguar : K.guar t' o r w (w.after t' o r s)) : K.Other t w (w.after t' o r s)
  | event {e : Ev} {s : σ} (hpre : K.pre.event e w) (hexec : M.event e w.state = some s) :
      K.Other t w ⟨s, w.trace⟩

/-- Kept by every step of the others. -/
def Stable (K : Contract M) (t : T) (A : World T Op Res E σ → Prop) : Prop :=
  ∀ w w', K.inv w → K.inv w' → K.Other t w w' → A w → A w'

/-- What is known of an answer: `B` of a value, `R` of an exception. -/
def Outcome (B : α → World T Op Res E σ → Prop) (R : E → World T Op Res E σ → Prop) :
    Except E α → World T Op Res E σ → Prop
  | .ok a => B a
  | .error e => R e

@[simp] theorem Outcome_ok (B : α → World T Op Res E σ → Prop) (R : E → World T Op Res E σ → Prop)
    (a : α) : Outcome B R (.ok a) = B a := rfl

@[simp] theorem Outcome_error (B : α → World T Op Res E σ → Prop)
    (R : E → World T Op Res E σ → Prop) (e : E) : Outcome B R (.error e) = R e := rfl

/-- Performing `o` from `A` keeps to the contract and establishes `B` of the answer. -/
def StepOk (K : Contract M) (t : T) (A : World T Op Res E σ → Prop) (o : Op)
    (B : Except E (Res o) → World T Op Res E σ → Prop) : Prop :=
  ∀ w c r s, K.inv w → A w → K.pre.op t o c w → M.exec t o c w.state = some (r, s) →
    K.inv (w.after t o r s) ∧ K.guar t o r w (w.after t o r s) ∧ B r (w.after t o r s)

/-- Process `t` keeps to the contract while it runs the program from `A`. -/
def Safe (K : Contract M) (t : T) :
    Prog Op Res E α → (World T Op Res E σ → Prop) → (α → World T Op Res E σ → Prop) →
      (E → World T Op Res E σ → Prop) → Prop
  | .ret a, A, Q, _ => ∀ w, K.inv w → A w → Q a w
  | .raise e, A, _, R => ∀ w, K.inv w → A w → R e w
  | .call o k, A, Q, R => ∃ B : Except E (Res o) → World T Op Res E σ → Prop,
      (∀ r, K.Stable t (B r)) ∧ K.StepOk t A o B ∧ ∀ r, K.Safe t (k r) (B r) Q R

variable {K : Contract M} {t : T} {A A' : World T Op Res E σ → Prop}
  {Q Q' : α → World T Op Res E σ → Prop} {Q₁ : β → World T Op Res E σ → Prop}
  {R R' : E → World T Op Res E σ → Prop}

/-! ### Stable assertions -/

theorem Stable.and (hA : K.Stable t A) (hA' : K.Stable t A') :
    K.Stable t fun w => A w ∧ A' w :=
  fun w w' hi hi' ho h => ⟨hA w w' hi hi' ho h.1, hA' w w' hi hi' ho h.2⟩

theorem Stable.or (hA : K.Stable t A) (hA' : K.Stable t A') :
    K.Stable t fun w => A w ∨ A' w :=
  fun w w' hi hi' ho h => h.imp (hA w w' hi hi' ho) (hA' w w' hi hi' ho)

theorem Stable.const (P : Prop) : K.Stable t fun _ => P := fun _ _ _ _ _ h => h

theorem Stable.exists {A : γ → World T Op Res E σ → Prop} (hA : ∀ x, K.Stable t (A x)) :
    K.Stable t fun w => ∃ x, A x w := by
  rintro w w' hi hi' ho ⟨x, hx⟩
  exact ⟨x, hA x w w' hi hi' ho hx⟩

theorem Stable.imp {P : Prop} (hA : P → K.Stable t A) : K.Stable t fun w => P → A w :=
  fun w w' hi hi' ho h hP => hA hP w w' hi hi' ho (h hP)

theorem Stable.forall {A : γ → World T Op Res E σ → Prop} (hA : ∀ x, K.Stable t (A x)) :
    K.Stable t fun w => ∀ x, A x w :=
  fun w w' hi hi' ho h x => hA x w w' hi hi' ho (h x)

/-- What has happened has happened. -/
theorem Stable.seen {P : Entry T Op Res E → Prop} : K.Stable t fun w => ∃ e ∈ w.trace, P e := by
  rintro w w' - - ho ⟨e, he, hP⟩
  cases ho with
  | proc hne hpre hexec hguar => exact ⟨e, List.mem_cons_of_mem _ he, hP⟩
  | event hpre hexec => exact ⟨e, he, hP⟩

/-- What a process has done so far is not changed by the others. -/
theorem Stable.own {P : Entry T Op Res E → Prop} :
    K.Stable t fun w => ∀ e ∈ w.trace, e.proc = t → P e := by
  intro w w' _ _ ho h e he hproc
  cases ho with
  | proc hne hpre hexec hguar =>
    obtain rfl | he := List.mem_cons.mp he
    · exact absurd hproc hne
    · exact h e he hproc
  | event hpre hexec => exact h e he hproc

/-! ### Rules for programs -/

/-- Consequence. -/
theorem Safe.mono {p : Prog Op Res E α} (h : K.Safe t p A Q R)
    (hA : ∀ w, K.inv w → A' w → A w) (hQ : ∀ a w, K.inv w → Q a w → Q' a w)
    (hR : ∀ e w, K.inv w → R e w → R' e w) : K.Safe t p A' Q' R' := by
  induction p generalizing A A' with
  | ret a => exact fun w hi hw => hQ a w hi (h w hi (hA w hi hw))
  | raise e => exact fun w hi hw => hR e w hi (h w hi (hA w hi hw))
  | call o k ih =>
    obtain ⟨B, hst, hstep, hk⟩ := h
    refine ⟨B, hst, ?_, fun r => ih r (hk r) fun w _ hw => hw⟩
    intro w c r s hi hw
    exact hstep w c r s hi (hA w hi hw)

/-- A stronger assertion suffices. -/
theorem Safe.weaken {p : Prog Op Res E α} (h : K.Safe t p A Q R)
    (hA : ∀ w, K.inv w → A' w → A w) : K.Safe t p A' Q R :=
  h.mono hA (fun _ _ _ hw => hw) fun _ _ _ hw => hw

/-- What never raises satisfies every assertion about exceptions. -/
theorem Safe.unraised {p : Prog Op Res E α} (h : K.Safe t p A Q fun _ _ => False) :
    K.Safe t p A Q R :=
  h.mono (fun _ _ hw => hw) (fun _ _ _ hw => hw) fun _ _ _ hw => hw.elim

/-- Nothing happens from a contradictory assertion. -/
theorem safe_false (p : Prog Op Res E α) : K.Safe t p (fun _ => False) Q R := by
  cases p with
  | ret a => exact fun _ _ h => h.elim
  | raise e => exact fun _ _ h => h.elim
  | call o k =>
    refine ⟨fun _ _ => False, fun _ _ _ _ _ _ h => h, fun _ _ _ _ _ h => h.elim, fun r => ?_⟩
    exact safe_false (k r)

/-- What does not speak of the world can be assumed once and for all. -/
theorem Safe.const {P : Prop} {p : Prog Op Res E α} (h : P → K.Safe t p A Q R) :
    K.Safe t p (fun w => A w ∧ P) Q R := by
  by_cases hP : P
  · exact (h hP).weaken fun w _ hw => hw.1
  · exact (safe_false p).weaken fun w _ hw => hP hw.2

/-- A case distinction over what is known. -/
theorem Safe.exists {A : γ → World T Op Res E σ → Prop} {p : Prog Op Res E α}
    (h : ∀ x, K.Safe t p (A x) Q R) : K.Safe t p (fun w => ∃ x, A x w) Q R := by
  induction p generalizing A with
  | ret a => exact fun w hi ⟨x, hw⟩ => h x w hi hw
  | raise e => exact fun w hi ⟨x, hw⟩ => h x w hi hw
  | call o k ih =>
    choose B hst hstep hk using h
    refine ⟨fun r w => ∃ x, B x r w, fun r => .exists fun x => hst x r, ?_, fun r =>
      ih r fun x => hk x r⟩
    intro w c r s hi ⟨x, hw⟩ hp hx
    obtain ⟨hi', hg, hB⟩ := hstep x w c r s hi hw hp hx
    exact ⟨hi', hg, x, hB⟩

/-- Sequencing. -/
theorem Safe.bind {p : Prog Op Res E α} {f : α → Prog Op Res E β} (h : K.Safe t p A Q R)
    (hf : ∀ a, K.Safe t (f a) (Q a) Q₁ R) : K.Safe t (p.bind f) A Q₁ R := by
  induction p generalizing A with
  | ret a => exact (hf a).weaken h
  | raise e => exact h
  | call o k ih =>
    obtain ⟨B, hst, hstep, hk⟩ := h
    exact ⟨B, hst, hstep, fun r => ih r (hk r)⟩

/-- `try … except`. -/
theorem Safe.handle {p : Prog Op Res E α} {f : E → Prog Op Res E α} (h : K.Safe t p A Q R)
    (hf : ∀ e, K.Safe t (f e) (R e) Q R') : K.Safe t (p.handle f) A Q R' := by
  induction p generalizing A with
  | ret a => exact h
  | raise e => exact (hf e).weaken h
  | call o k ih =>
    obtain ⟨B, hst, hstep, hk⟩ := h
    exact ⟨B, hst, hstep, fun r => ih r (hk r)⟩

/-- `try … finally`. -/
theorem Safe.tryFinally {p : Prog Op Res E α} {f : Prog Op Res E Unit} (h : K.Safe t p A Q R)
    (hret : ∀ a, K.Safe t f (Q a) (fun _ => Q' a) R')
    (hraise : ∀ e, K.Safe t f (R e) (fun _ => R' e) R') : K.Safe t (p.tryFinally f) A Q' R' := by
  refine (h.handle fun e => ?_ : K.Safe t (p.handle _) A Q R').bind fun a => ?_
  · exact (hraise e).bind fun _ w _ hw => hw
  · exact (hret a).bind fun _ w _ hw => hw

/-- Awaiting one operation. -/
theorem Safe.perform {o : Op} {Q : Res o → World T Op Res E σ → Prop}
    (hQ : ∀ a, K.Stable t (Q a)) (hR : ∀ e, K.Stable t (R e))
    (hstep : K.StepOk t A o (Outcome Q R)) : K.Safe t (Prog.perform o) A Q R := by
  refine ⟨Outcome Q R, fun r => ?_, hstep, fun r => ?_⟩
  · cases r with
    | ok a => exact hQ a
    | error e => exact hR e
  · cases r with
    | ok a => exact fun w _ hw => hw
    | error e => exact fun w _ hw => hw

/-- Awaiting one operation and going on with its value. -/
theorem Safe.await {o : Op} {f : Res o → Prog Op Res E β} (B : Res o → World T Op Res E σ → Prop)
    (hB : ∀ a, K.Stable t (B a)) (hR : ∀ e, K.Stable t (R e))
    (hstep : K.StepOk t A o (Outcome B R)) (hf : ∀ a, K.Safe t (f a) (B a) Q₁ R) :
    K.Safe t ((Prog.perform o).bind f) A Q₁ R :=
  (Safe.perform hB hR hstep).bind hf

/-- A loop keeps its invariant, which speaks of the elements still to come and of the results
collected so far. -/
theorem Safe.forEach {f : γ → Prog Op Res E β} {I : List γ → List β → World T Op Res E σ → Prop}
    (hf : ∀ x xs bs, K.Safe t (f x) (I (x :: xs) bs) (fun b => I xs (bs ++ [b])) R)
    (xs : List γ) (bs : List β) :
    K.Safe t (Prog.forEach xs f) (I xs bs) (fun bs' => I [] (bs ++ bs')) R := by
  induction xs generalizing bs with
  | nil =>
    intro w _ hw
    simpa using hw
  | cons x xs ih =>
    refine Safe.bind (hf x xs bs) fun b => Safe.bind (ih (bs ++ [b])) fun bs' w _ hw => ?_
    simpa using hw

/-- A program whose operations all keep an assertion keeps it, however it ends. -/
theorem Safe.only {P : Op → Prop} {p : Prog Op Res E α} (hp : p.Only P) (hA : K.Stable t A)
    (hstep : ∀ o, P o → K.StepOk t A o fun _ => A) : K.Safe t p A (fun _ => A) fun _ => A := by
  induction p with
  | ret a => exact fun w _ hw => hw
  | raise e => exact fun w _ hw => hw
  | call o k ih => exact ⟨fun _ => A, fun _ => hA, hstep o hp.1, fun r => ih r (hp.2 r)⟩

/-- A process whose every step is allowed runs what it likes. -/
theorem safe_free (h : ∀ o, K.StepOk t (fun _ => True) o fun _ _ => True) (p : Prog Op Res E α) :
    K.Safe t p (fun _ => True) (fun _ _ => True) fun _ _ => True := by
  induction p with
  | ret a => exact fun _ _ _ => trivial
  | raise e => exact fun _ _ _ => trivial
  | call o k ih => exact ⟨fun _ _ => True, fun _ => .const True, h o, ih⟩

/-- The contract that allows everything. -/
def free (M : Machine T Op Res E Ch Ev σ) : Contract M := ⟨fun _ => True, .always, fun _ _ _ _ _ => True⟩

/-- Process `t` was answered with the exception. -/
def Raised (t : T) (e : E) (w : World T Op Res E σ) : Prop :=
  ∃ x ∈ w.trace, x.proc = t ∧ ∃ o, x = ⟨t, o, .error e⟩

/-- A program that handles no exception ends with one that it was answered, or with its own. -/
theorem safe_propagates {P : Op → Prop} {X : E → Prop} {p : Prog Op Res E α} (hp : p.Propagates X)
    (ho : p.Only P) (hA : (free M).Stable t A)
    (hstep : ∀ o r w s, P o → A w → A (w.after t o r s)) :
    (free M).Safe t p A (fun _ => A) fun e w => Raised t e w ∨ X e := by
  induction p with
  | ret a => exact fun _ _ hw => hw
  | raise e => exact fun _ _ _ => .inr hp
  | call o k ih =>
    refine ⟨fun r w => A w ∧ ∀ e, r = .error e → Raised t e w, fun r => hA.and ?_, ?_, fun r => ?_⟩
    · exact .forall fun e => .imp fun _ => .seen
    · refine fun w c r s _ hw _ _ => ⟨trivial, trivial, hstep o r w s ho.1 hw, ?_⟩
      rintro e rfl
      exact ⟨_, List.mem_cons_self, rfl, o, rfl⟩
    · cases r with
      | ok a => exact (ih (.ok a) (hp.2 a) (ho.2 _)).weaken fun _ _ hw => hw.1
      | error e =>
        rw [hp.1 e]
        exact fun _ _ hw => .inl (hw.2 e rfl)

/-- What the operations of a program keep, the program keeps besides all it does. -/
theorem Safe.frame {P : Op → Prop} {p : Prog Op Res E α} (h : K.Safe t p A Q R) (hp : p.Only P)
    (hst : K.Stable t A')
    (hstep : ∀ w c o r s, P o → A' w → M.exec t o c w.state = some (r, s) → A' (w.after t o r s)) :
    K.Safe t p (fun w => A w ∧ A' w) (fun a w => Q a w ∧ A' w) fun e w => R e w ∧ A' w := by
  induction p generalizing A with
  | ret a => exact fun w hi hw => ⟨h w hi hw.1, hw.2⟩
  | raise e => exact fun w hi hw => ⟨h w hi hw.1, hw.2⟩
  | call o k ih =>
    obtain ⟨B, hstB, hB, hk⟩ := h
    refine ⟨fun r w => B r w ∧ A' w, fun r => (hstB r).and hst, ?_,
      fun r => ih r (hk r) (hp.2 r)⟩
    intro w c r s hi hw hpre hx
    obtain ⟨hi', hg, hw'⟩ := hB w c r s hi hw.1 hpre hx
    exact ⟨hi', hg, hw', hstep w c o r s hp.1 hw.2 hx⟩

/-- What the others cannot change whatever they do, they do not change. -/
theorem Stable.of_free (h : (free M).Stable t A) : K.Stable t A := by
  intro w w' _ _ ho
  refine h w w' trivial trivial ?_
  cases ho with
  | proc hne hpre hexec hguar => exact .proc hne trivial hexec trivial
  | event hpre hexec => exact .event trivial hexec

/-- What a program does by itself can be shown apart from what it does by the contract. -/
theorem Safe.and_free {p : Prog Op Res E α} (h : K.Safe t p A Q R)
    (h' : (free M).Safe t p A' Q' R') :
    K.Safe t p (fun w => A w ∧ A' w) (fun a w => Q a w ∧ Q' a w) fun e w => R e w ∧ R' e w := by
  induction p generalizing A A' with
  | ret a => exact fun w hi hw => ⟨h w hi hw.1, h' w trivial hw.2⟩
  | raise e => exact fun w hi hw => ⟨h w hi hw.1, h' w trivial hw.2⟩
  | call o k ih =>
    obtain ⟨B, hst, hstep, hk⟩ := h
    obtain ⟨B', hst', hstep', hk'⟩ := h'
    refine ⟨fun r w => B r w ∧ B' r w, fun r => (hst r).and (hst' r).of_free, ?_,
      fun r => ih r (hk r) (hk' r)⟩
    intro w c r s hi hw hp hx
    obtain ⟨hi', hg, hB⟩ := hstep w c r s hi hw.1 hp hx
    exact ⟨hi', hg, hB, (hstep' w c r s trivial hw.2 trivial hx).2.2⟩

/-! ### Soundness -/

/-- Events keep the invariant. -/
def EventsOk (K : Contract M) : Prop :=
  ∀ e w s, K.inv w → K.pre.event e w → M.event e w.state = some s → K.inv ⟨s, w.trace⟩

/-- The contract holds of a pool: every process knows something stable from which its remaining
program is safe. -/
structure Sound (K : Contract M) (Q : T → α → World T Op Res E σ → Prop)
    (R : T → E → World T Op Res E σ → Prop) (p : Pool T Op Res E α σ) : Prop where
  inv : K.inv p.world
  safe : ∀ t, ∃ A, K.Stable t A ∧ A p.world ∧ K.Safe t (p.prog t) A (Q t) (R t)

variable {Q : T → α → World T Op Res E σ → Prop} {R : T → E → World T Op Res E σ → Prop}
  {p q : Pool T Op Res E α σ}

/-- What a process that returned knows at the end. -/
theorem Sound.ret (h : K.Sound Q R p) {a : α} (hp : p.prog t = .ret a) : Q t a p.world := by
  obtain ⟨A, -, hA, hsafe⟩ := h.safe t
  rw [hp] at hsafe
  exact hsafe _ h.inv hA

/-- What is known of a process that raised. -/
theorem Sound.raise (h : K.Sound Q R p) {e : E} (hp : p.prog t = .raise e) : R t e p.world := by
  obtain ⟨A, -, hA, hsafe⟩ := h.safe t
  rw [hp] at hsafe
  exact hsafe _ h.inv hA

variable [DecidableEq T]

/-- From now on one process is judged by what it knows now, and by another specification. -/
theorem Sound.focus {Q' : α → World T Op Res E σ → Prop} {R' : E → World T Op Res E σ → Prop}
    (h : K.Sound Q R p) (hA : K.Stable t A) (hw : A p.world) (hp : K.Safe t (p.prog t) A Q' R') :
    K.Sound (Function.update Q t Q') (Function.update R t R') p where
  inv := h.inv
  safe t' := by
    by_cases ht : t' = t
    · subst ht
      exact ⟨A, hA, hw, by simpa using hp⟩
    · obtain ⟨A', hst, hA', hsafe⟩ := h.safe t'
      exact ⟨A', hst, hA', by simpa [Function.update_of_ne ht] using hsafe⟩

/-- The contract with a further guarantee of process `t₀`. -/
def also (K : Contract M) (t₀ : T)
    (G : World T Op Res E σ → World T Op Res E σ → Prop) : Contract M where
  inv := K.inv
  pre := K.pre
  guar t o r w w' := K.guar t o r w w' ∧ (t = t₀ → G w w')

variable {t₀ : T} {G : World T Op Res E σ → World T Op Res E σ → Prop}

omit [DecidableEq T] in
theorem Stable.also (h : K.Stable t A) : (K.also t₀ G).Stable t A := by
  intro w w' hi hi' ho
  refine h w w' hi hi' ?_
  cases ho with
  | proc hne hpre hexec hguar => exact .proc hne hpre hexec hguar.1
  | event hpre hexec => exact .event hpre hexec

omit [DecidableEq T] in
theorem Safe.also {p : Prog Op Res E γ} {Q : γ → World T Op Res E σ → Prop}
    {R : E → World T Op Res E σ → Prop} (ht : t ≠ t₀) (h : K.Safe t p A Q R) :
    (K.also t₀ G).Safe t p A Q R := by
  induction p generalizing A with
  | ret a => exact h
  | raise e => exact h
  | call o k ih =>
    obtain ⟨B, hst, hstep, hk⟩ := h
    refine ⟨B, fun r => (hst r).also, ?_, fun r => ih r (hk r)⟩
    intro w c r s hi hw hp hx
    obtain ⟨hi', hg, hB⟩ := hstep w c r s hi hw hp hx
    exact ⟨hi', ⟨hg, fun he => absurd he ht⟩, hB⟩

/-- From now on one process is judged anew, and guarantees more than it did. -/
theorem Sound.focus_also {Q' : α → World T Op Res E σ → Prop} {R' : E → World T Op Res E σ → Prop}
    (h : K.Sound Q R p) (hA : K.Stable t A) (hw : A p.world)
    (hp : (K.also t G).Safe t (p.prog t) A Q' R') :
    (K.also t G).Sound (Function.update Q t Q') (Function.update R t R') p where
  inv := h.inv
  safe t' := by
    by_cases ht : t' = t
    · subst ht
      exact ⟨A, hA.also, hw, by simpa using hp⟩
    · obtain ⟨A', hst, hA', hsafe⟩ := h.safe t'
      exact ⟨A', hst.also, hA', by simpa [Function.update_of_ne ht] using hsafe.also ht⟩

/-- **Every step a process takes satisfies its guarantee.** -/
theorem Sound.guar (h : K.Sound Q R p) {c : Ch} (hC : K.pre.At p (.proc t c))
    (hs : M.step p (.proc t c) = some q) :
    ∃ o k r s, p.prog t = .call o k ∧ M.exec t o c p.world.state = some (r, s) ∧
      q = ⟨p.world.after t o r s, Function.update p.prog t (k r)⟩ ∧
      K.guar t o r p.world q.world := by
  obtain ⟨o, k, r, s, hp, hx, rfl⟩ := Machine.step_proc hs
  obtain ⟨A, -, hA, hsafe⟩ := h.safe t
  rw [hp] at hsafe
  obtain ⟨B, -, hstep, -⟩ := hsafe
  exact ⟨o, k, r, s, hp, hx, rfl, (hstep _ c r s h.inv hA (hC o k hp) hx).2.1⟩

/-- **One step keeps a pool sound.** -/
theorem Sound.step (hev : K.EventsOk) (h : K.Sound Q R p) {l : Label T Ch Ev}
    (hC : K.pre.At p l) (hs : M.step p l = some q) : K.Sound Q R q := by
  cases l with
  | event e =>
    obtain ⟨s, hx, rfl⟩ := Machine.step_event hs
    have hi := hev e _ s h.inv hC hx
    refine ⟨hi, fun t => ?_⟩
    obtain ⟨A, hst, hA, hsafe⟩ := h.safe t
    exact ⟨A, hst, hst _ _ h.inv hi (.event hC hx) hA, hsafe⟩
  | proc t c =>
    obtain ⟨o, k, r, s, hp, hx, rfl⟩ := Machine.step_proc hs
    obtain ⟨A, -, hA, hsafe⟩ := h.safe t
    rw [hp] at hsafe
    obtain ⟨B, hstB, hstep, hk⟩ := hsafe
    obtain ⟨hi, hg, hB⟩ := hstep _ c r s h.inv hA (hC o k hp) hx
    refine ⟨hi, fun t' => ?_⟩
    by_cases ht : t' = t
    · subst ht
      refine ⟨B r, hstB r, hB, ?_⟩
      simpa using hk r
    · obtain ⟨A', hst', hA', hsafe'⟩ := h.safe t'
      have ho : K.Other t' p.world (p.world.after t o r s) :=
        .proc (fun e => ht e.symm) (hC o k hp) hx hg
      refine ⟨A', hst', hst' _ _ h.inv hi ho hA', ?_⟩
      simpa [Function.update_of_ne ht] using hsafe'

/-- **Every run that meets the contract's condition keeps a pool sound.** -/
theorem Sound.run (hev : K.EventsOk) (h : K.Sound Q R p) {ls : List (Label T Ch Ev)}
    (hC : M.Meets K.pre p ls) (hr : M.run p ls = some q) : K.Sound Q R q :=
  Machine.run_induction (P := K.Sound Q R) (fun _ _ _ hp hl hs => hp.step hev hl hs) h hC hr

/-- A preorder that every step respects is respected by every run. -/
theorem Sound.run_rel {S : World T Op Res E σ → World T Op Res E σ → Prop}
    (hrefl : ∀ w, S w w) (htrans : ∀ w₁ w₂ w₃, S w₁ w₂ → S w₂ w₃ → S w₁ w₃)
    (hguar : ∀ t o r w w', K.inv w → K.inv w' → K.guar t o r w w' → S w w')
    (hevent : ∀ e w s, M.event e w.state = some s → S w ⟨s, w.trace⟩)
    (hev : K.EventsOk) (h : K.Sound Q R p) {ls : List (Label T Ch Ev)}
    (hC : M.Meets K.pre p ls) (hr : M.run p ls = some q) : S p.world q.world := by
  refine (Machine.run_induction (P := fun q => K.Sound Q R q ∧ S p.world q.world)
    (fun m l n hm hl hs => ?_) ⟨h, hrefl _⟩ hC hr).2
  have hn := hm.1.step hev hl hs
  refine ⟨hn, htrans _ _ _ hm.2 ?_⟩
  cases l with
  | event e =>
    obtain ⟨s, hx, rfl⟩ := Machine.step_event hs
    exact hevent e _ s hx
  | proc t c =>
    obtain ⟨o, k, r, s, -, -, -, hg⟩ := hm.1.guar hl hs
    exact hguar t o r _ _ hm.1.inv hn.inv hg

/-- An invariant kept by every step that satisfies the guarantee of the process that takes it. -/
theorem Sound.invariant {C : Machine.Condition T Op Res E Ch Ev σ} {P : World T Op Res E σ → Prop}
    (hpre : ∀ t o c w, C.op t o c w → K.pre.op t o c w)
    (hpre' : ∀ e w, C.event e w → K.pre.event e w)
    (hproc : ∀ t o c r w s, P w → C.op t o c w → M.exec t o c w.state = some (r, s) →
      K.guar t o r w (w.after t o r s) → P (w.after t o r s))
    (hevent : ∀ e w s, P w → M.event e w.state = some s → P ⟨s, w.trace⟩)
    (hev : K.EventsOk) (h : K.Sound Q R p) (hP : P p.world) {ls : List (Label T Ch Ev)}
    (hC : M.Meets C p ls) (hr : M.run p ls = some q) : K.Sound Q R q ∧ P q.world := by
  refine Machine.run_induction (P := fun q => K.Sound Q R q ∧ P q.world)
    (fun m l n hm hl hs => ?_) ⟨h, hP⟩ hC hr
  have hl' : K.pre.At m l := by
    cases l with
    | event e => exact hpre' e _ hl
    | proc t c => exact fun o k hk => hpre t o c _ (hl o k hk)
  refine ⟨hm.1.step hev hl' hs, ?_⟩
  cases l with
  | event e =>
    obtain ⟨s, hx, rfl⟩ := Machine.step_event hs
    exact hevent e _ s hm.2 hx
  | proc t c =>
    obtain ⟨o, k, r, s, hk, hx, rfl, hg⟩ := hm.1.guar hl' hs
    exact hproc t o c r _ s hm.2 (hl o k hk) hx hg

end Contract

end Interleave
