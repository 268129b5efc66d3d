import Chatspace.Interleave.RelyGuarantee

/-!
# A program by itself

`Ends t p w cs x w'`: process `t`, running `p` alone from world `w` with the choices `cs`, ends with
outcome `x` in world `w'`.  A run of a composed program is a run of its parts, so what a program
does alone is proved by the rules of Hoare logic (`Triple`), and what the environment did along the
way (`Along`) splits with it.

* `solo` — the same, computed;
* `ends_bind`, `ends_handle` — the runs of a composition;
* `along_bind`, `along_handle` — the conditions along it;
* `Triple` — partial correctness of a program alone;
* `Settles` — the failures along a run that spoil a property of its end;
* `alone`, `triple_of_safe` — the rules for programs among others, for a program alone;
* `Ends.run` — **a program alone is a run of the pool in which nobody else moves.**
-/

namespace Interleave.Machine

variable {T Op : Type} {Res : Op → Type} {E Ch Ev α β γ σ : Type}

/-- A run of one program to its end. -/
inductive Ends (M : Machine T Op Res E Ch Ev σ) (t : T) :
    Prog Op Res E α → World T Op Res E σ → List Ch → Except E α → World T Op Res E σ → Prop
  | ret (a : α) (w : World T Op Res E σ) : M.Ends t (.ret a) w [] (.ok a) w
  | raise (e : E) (w : World T Op Res E σ) : M.Ends t (.raise e) w [] (.error e) w
  | call {o : Op} {k : Except E (Res o) → Prog Op Res E α} {w w' : World T Op Res E σ} {c : Ch}
      {r : Except E (Res o)} {s : σ} {cs : List Ch} {x : Except E α}
      (hexec : M.exec t o c w.state = some (r, s)) (hk : M.Ends t (k r) (w.after t o r s) cs x w') :
      M.Ends t (.call o k) w (c :: cs) x w'

/-- The run, computed. -/
def solo (M : Machine T Op Res E Ch Ev σ) (t : T) :
    Prog Op Res E α → World T Op Res E σ → List Ch → Option (Except E α × World T Op Res E σ)
  | .ret a, w, [] => some (.ok a, w)
  | .raise e, w, [] => some (.error e, w)
  | .call o k, w, c :: cs =>
    (M.exec t o c w.state).bind fun a => M.solo t (k a.1) (w.after t o a.1 a.2) cs
  | _, _, _ => none

/-- Every step of the run satisfies `C`. -/
def Along (M : Machine T Op Res E Ch Ev σ) (t : T) (C : Op → Ch → World T Op Res E σ → Prop) :
    Prog Op Res E α → World T Op Res E σ → List Ch → Prop
  | .call o k, w, c :: cs =>
    C o c w ∧ ∀ r s, M.exec t o c w.state = some (r, s) → M.Along t C (k r) (w.after t o r s) cs
  | _, _, _ => True

variable {M : Machine T Op Res E Ch Ev σ} {t : T} {C : Op → Ch → World T Op Res E σ → Prop}
  {p : Prog Op Res E α} {w w' w₁ : World T Op Res E σ} {cs cs₁ cs₂ : List Ch}

theorem ends_of_solo {x : Except E α} (h : M.solo t p w cs = some (x, w')) :
    M.Ends t p w cs x w' := by
  induction p generalizing w cs with
  | ret a =>
    cases cs with
    | nil =>
      cases h
      exact .ret a w'
    | cons c cs => cases h
  | raise e =>
    cases cs with
    | nil =>
      cases h
      exact .raise e w'
    | cons c cs => cases h
  | call o k ih =>
    cases cs with
    | nil => cases h
    | cons c cs =>
      obtain ⟨a, ha, hk⟩ := Option.bind_eq_some_iff.mp h
      exact .call ha (ih a.1 hk)

/-! ### Runs of a composition -/

theorem ends_bind {f : α → Prog Op Res E β} {x : Except E β} (h : M.Ends t (p.bind f) w cs x w') :
    (∃ cs₁ cs₂ a w₁, cs = cs₁ ++ cs₂ ∧ M.Ends t p w cs₁ (.ok a) w₁ ∧
      M.Ends t (f a) w₁ cs₂ x w') ∨
    ∃ e, x = .error e ∧ M.Ends t p w cs (.error e) w' := by
  induction p generalizing w cs with
  | ret a => exact .inl ⟨[], cs, a, w, rfl, .ret a w, h⟩
  | raise e =>
    cases h
    exact .inr ⟨e, rfl, .raise e w'⟩
  | call o k ih =>
    cases h with
    | call hexec hk =>
      obtain ⟨cs₁, cs₂, a, w₁, rfl, h₁, h₂⟩ | ⟨e, rfl, he⟩ := ih _ hk
      · exact .inl ⟨_ :: cs₁, cs₂, a, w₁, rfl, .call hexec h₁, h₂⟩
      · exact .inr ⟨e, rfl, .call hexec he⟩

/-- A composition that returns. -/
theorem ends_bind_ok {f : α → Prog Op Res E β} {b : β} (h : M.Ends t (p.bind f) w cs (.ok b) w') :
    ∃ cs₁ cs₂ a w₁, cs = cs₁ ++ cs₂ ∧ M.Ends t p w cs₁ (.ok a) w₁ ∧
      M.Ends t (f a) w₁ cs₂ (.ok b) w' := by
  obtain h | ⟨e, he, -⟩ := ends_bind h
  · exact h
  · cases he

theorem ends_handle {f : E → Prog Op Res E α} {x : Except E α}
    (h : M.Ends t (p.handle f) w cs x w') :
    (∃ cs₁ cs₂ e w₁, cs = cs₁ ++ cs₂ ∧ M.Ends t p w cs₁ (.error e) w₁ ∧
      M.Ends t (f e) w₁ cs₂ x w') ∨
    ∃ a, x = .ok a ∧ M.Ends t p w cs (.ok a) w' := by
  induction p generalizing w cs with
  | ret a =>
    cases h
    exact .inr ⟨a, rfl, .ret a w'⟩
  | raise e => exact .inl ⟨[], cs, e, w, rfl, .raise e w, h⟩
  | call o k ih =>
    cases h with
    | call hexec hk =>
      obtain ⟨cs₁, cs₂, e, w₁, rfl, h₁, h₂⟩ | ⟨a, rfl, ha⟩ := ih _ hk
      · exact .inl ⟨_ :: cs₁, cs₂, e, w₁, rfl, .call hexec h₁, h₂⟩
      · exact .inr ⟨a, rfl, .call hexec ha⟩

/-- A single await. -/
theorem ends_perform {o : Op} {x : Except E (Res o)}
    (h : M.Ends t (Prog.perform o) w cs x w') :
    ∃ c s, cs = [c] ∧ M.exec t o c w.state = some (x, s) ∧ w' = w.after t o x s := by
  cases h with
  | @call _ _ _ _ c r s cs _ hexec hk =>
    cases r with
    | ok a =>
      cases hk
      exact ⟨c, s, rfl, hexec, rfl⟩
    | error e =>
      cases hk
      exact ⟨c, s, rfl, hexec, rfl⟩

theorem along_perform {o : Op} {c : Ch} : M.Along t C (Prog.perform o) w [c] ↔ C o c w := by
  refine and_iff_left fun r s _ => ?_
  cases r <;> trivial

/-- The steps of a sequence are those of its parts. -/
theorem along_bind {f : α → Prog Op Res E β} {a : α} (h : M.Ends t p w cs₁ (.ok a) w₁) :
    M.Along t C (p.bind f) w (cs₁ ++ cs₂) ↔ M.Along t C p w cs₁ ∧ M.Along t C (f a) w₁ cs₂ := by
  induction p generalizing w cs₁ with
  | ret a =>
    cases h
    exact (and_iff_right trivial).symm
  | raise e => cases h
  | call o k ih =>
    cases h with
    | @call _ _ _ _ c r s cs₁ _ hexec hk =>
      have hih := ih r hk
      have hone : ∀ P : Except E (Res o) → σ → Prop,
          (∀ r s, M.exec t o c w.state = some (r, s) → P r s) ↔ P r s := by
        refine fun P => ⟨fun h => h r s hexec, fun h r' s' h' => ?_⟩
        cases hexec.symm.trans h'
        exact h
      simp only [Prog.bind, List.cons_append, Along, hone, hih, and_assoc]

theorem along_bind_error {f : α → Prog Op Res E β} {e : E}
    (h : M.Ends t p w cs (.error e) w₁) : M.Along t C (p.bind f) w cs ↔ M.Along t C p w cs := by
  induction p generalizing w cs with
  | ret a => cases h
  | raise e =>
    cases h
    exact Iff.rfl
  | call o k ih =>
    cases h with
    | @call _ _ _ _ c r s cs _ hexec hk =>
      refine and_congr_right fun _ => ⟨fun hall r' s' h' => ?_, fun hall r' s' h' => ?_⟩
      all_goals
        have := hall r' s' h'
        cases hexec.symm.trans h'
      · exact (ih r hk).mp this
      · exact (ih r hk).mpr this

/-- The steps of a handled failure are those of the failing part and of the handler. -/
theorem along_handle {f : E → Prog Op Res E α} {e : E} (h : M.Ends t p w cs₁ (.error e) w₁) :
    M.Along t C (p.handle f) w (cs₁ ++ cs₂) ↔
      M.Along t C p w cs₁ ∧ M.Along t C (f e) w₁ cs₂ := by
  induction p generalizing w cs₁ with
  | ret a => cases h
  | raise e =>
    cases h
    exact (and_iff_right trivial).symm
  | call o k ih =>
    cases h with
    | @call _ _ _ _ c r s cs₁ _ hexec hk =>
      have hih := ih r hk
      have hone : ∀ P : Except E (Res o) → σ → Prop,
          (∀ r s, M.exec t o c w.state = some (r, s) → P r s) ↔ P r s := by
        refine fun P => ⟨fun h => h r s hexec, fun h r' s' h' => ?_⟩
        cases hexec.symm.trans h'
        exact h
      simp only [Prog.handle, List.cons_append, Along, hone, hih, and_assoc]

/-! ### Partial correctness -/

/-- From `A`, a run of `p` alone that returns `a` ends in `Q a`, one that raises `e` in `R e`. -/
def Triple (M : Machine T Op Res E Ch Ev σ) (t : T) (A : World T Op Res E σ → Prop)
    (p : Prog Op Res E α) (Q : α → World T Op Res E σ → Prop)
    (R : E → World T Op Res E σ → Prop) : Prop :=
  ∀ w cs x w', A w → M.Ends t p w cs x w' → Contract.Outcome Q R x w'

variable {A : World T Op Res E σ → Prop} {Q : α → World T Op Res E σ → Prop}
  {Q' : β → World T Op Res E σ → Prop} {R R' : E → World T Op Res E σ → Prop}

namespace Triple

theorem bind {f : α → Prog Op Res E β} (hp : M.Triple t A p Q R)
    (hf : ∀ a, M.Triple t (Q a) (f a) Q' R) : M.Triple t A (p.bind f) Q' R := by
  intro w cs x w' hA h
  obtain ⟨cs₁, cs₂, a, w₁, rfl, h₁, h₂⟩ | ⟨e, rfl, he⟩ := ends_bind h
  · exact hf a w₁ cs₂ x w' (hp w cs₁ _ w₁ hA h₁) h₂
  · exact hp w cs _ w' hA he

theorem handle {f : E → Prog Op Res E α} (hp : M.Triple t A p Q R)
    (hf : ∀ e, M.Triple t (R e) (f e) Q R') : M.Triple t A (p.handle f) Q R' := by
  intro w cs x w' hA h
  obtain ⟨cs₁, cs₂, e, w₁, rfl, h₁, h₂⟩ | ⟨a, rfl, ha⟩ := ends_handle h
  · exact hf e w₁ cs₂ x w' (hp w cs₁ _ w₁ hA h₁) h₂
  · exact hp w cs _ w' hA ha

theorem ret {a : α} (h : ∀ w, A w → Q a w) : M.Triple t A (.ret a) Q R := by
  intro w cs x w' hA hend
  cases hend
  exact h w hA

theorem raise {e : E} (h : ∀ w, A w → R e w) : M.Triple t A (.raise e) Q R := by
  intro w cs x w' hA hend
  cases hend
  exact h w hA

theorem perform {o : Op} {Q : Res o → World T Op Res E σ → Prop}
    (h : ∀ w c r s, A w → M.exec t o c w.state = some (r, s) →
      Contract.Outcome Q R r (w.after t o r s)) : M.Triple t A (Prog.perform o) Q R := by
  intro w cs x w' hA hend
  cases hend with
  | @call _ _ _ _ c r s cs _ hexec hk =>
    have := h w c r s hA hexec
    cases r with
    | ok a =>
      cases hk
      exact this
    | error e =>
      cases hk
      exact this

/-- A program whose operations all keep an assertion keeps it, however it ends. -/
theorem only {P : Op → Prop} (hp : p.Only P)
    (hstep : ∀ o, P o → ∀ w c r s, A w → M.exec t o c w.state = some (r, s) → A (w.after t o r s)) :
    M.Triple t A p (fun _ => A) fun _ => A := by
  intro w cs x w' hA hend
  induction hend with
  | ret a w => exact hA
  | raise e w => exact hA
  | call hexec hk ih => exact ih (hp.2 _) (hstep _ hp.1 _ _ _ _ hA hexec)

end Triple

/-! ### Which failures spoil a property -/

/-- An outcome after steps that were `met`, or not: a value with `Q`, or an exception, with `G`
exactly if they were. -/
def Verdict {W : Type} (met : Prop) (G : W → Prop) (Q : α → W → Prop) : Except E α → W → Prop
  | .ok a, w => met ∧ Q a w
  | .error _, w => G w ↔ met

/-- From `A`, a run of `p` alone that returns `a` has met `C` and ends in `Q a`; one that raises
ends in `G` exactly when it has met `C`. -/
def Settles (M : Machine T Op Res E Ch Ev σ) (t : T) (C : Op → Ch → World T Op Res E σ → Prop)
    (G A : World T Op Res E σ → Prop) (p : Prog Op Res E α)
    (Q : α → World T Op Res E σ → Prop) : Prop :=
  ∀ w cs x w', A w → M.Ends t p w cs x w' → Verdict (M.Along t C p w cs) G Q x w'

namespace Settles

variable {G : World T Op Res E σ → Prop}

theorem ret {a : α} (h : ∀ w, A w → Q a w) : M.Settles t C G A (.ret a) Q := by
  intro w cs x w' hA hend
  cases hend
  exact ⟨trivial, h w hA⟩

theorem raise {e : E} (h : ∀ w, A w → G w) : M.Settles t C G A (.raise e) Q := by
  intro w cs x w' hA hend
  cases hend
  exact iff_of_true (h w hA) trivial

theorem bind {f : α → Prog Op Res E β} (hp : M.Settles t C G A p Q)
    (hf : ∀ a, M.Settles t C G (Q a) (f a) Q') : M.Settles t C G A (p.bind f) Q' := by
  intro w cs x w' hA hend
  obtain ⟨cs₁, cs₂, a, w₁, rfl, h₁, h₂⟩ | ⟨e, rfl, he⟩ := ends_bind hend
  · obtain ⟨hC, hQ⟩ := hp w cs₁ (.ok a) w₁ hA h₁
    have hrest := hf a w₁ cs₂ x w' hQ h₂
    rw [along_bind h₁]
    cases x with
    | ok b => exact ⟨⟨hC, hrest.1⟩, hrest.2⟩
    | error e => exact hrest.trans (and_iff_right hC).symm
  · rw [along_bind_error he]
    exact hp w cs (.error e) w' hA he

theorem perform {o : Op} {Q : Res o → World T Op Res E σ → Prop}
    (h : ∀ w c r s, A w → M.exec t o c w.state = some (r, s) →
      Verdict (C o c w) G Q r (w.after t o r s)) : M.Settles t C G A (Prog.perform o) Q := by
  intro w cs x w' hA hend
  obtain ⟨c, s, rfl, hexec, rfl⟩ := ends_perform hend
  have hC : M.Along t C (Prog.perform o) w [c] = C o c w := propext along_perform
  rw [hC]
  exact h w c x s hA hexec

/-- One await: an answer meets `C` and leads on, or it does not, and what is raised leaves `G`
spoilt. -/
theorem call {o : Op} {k : Except E (Res o) → Prog Op Res E α}
    {B : Except E (Res o) → World T Op Res E σ → Prop}
    (h : ∀ w c r s, A w → M.exec t o c w.state = some (r, s) →
      (C o c w ∧ B r (w.after t o r s)) ∨
        ∃ e, k r = .raise e ∧ ¬C o c w ∧ ¬G (w.after t o r s))
    (hk : ∀ r, M.Settles t C G (B r) (k r) Q) : M.Settles t C G A (.call o k) Q := by
  intro w cs x w' hA hend
  cases hend with
  | @call _ _ _ _ c r s cs _ hexec hrest =>
    have hone : M.Along t C (.call o k) w (c :: cs) =
        (C o c w ∧ M.Along t C (k r) (w.after t o r s) cs) := by
      refine propext (and_congr_right fun _ => ⟨fun hall => hall r s hexec, fun h r' s' h' => ?_⟩)
      cases hexec.symm.trans h'
      exact h
    rw [hone]
    rcases h w c r s hA hexec with ⟨hC, hB⟩ | ⟨e, hraise, hC, hG⟩
    · have hverdict := hk r _ _ _ _ hB hrest
      rw [propext (and_iff_right hC)]
      exact hverdict
    · rw [hraise] at hrest
      cases hrest
      exact iff_of_false hG fun h => hC h.1

/-- Operations that keep an assertion under which nothing is spoilt. -/
theorem only {P : Op → Prop} (hp : p.Only P) (hG : ∀ w, A w → G w)
    (hC : ∀ o, P o → ∀ c w, C o c w)
    (hstep : ∀ o, P o → ∀ w c r s, A w → M.exec t o c w.state = some (r, s) → A (w.after t o r s)) :
    M.Settles t C G A p fun _ => A := by
  intro w cs x w' hA hend
  have hkept := Triple.only hp hstep w cs x w' hA hend
  have hmet : M.Along t C p w cs := by
    clear hkept hA
    induction hend with
    | ret a w => trivial
    | raise e w => trivial
    | @call o k w w' c r s cs x hexec hk ih =>
      refine ⟨hC o hp.1 c w, fun r' s' h' => ?_⟩
      cases hexec.symm.trans h'
      exact ih (hp.2 _)
  cases x with
  | ok a => exact ⟨hmet, hkept⟩
  | error e => exact iff_of_true (hG w' hkept) hmet

end Settles

/-! ### Contracts of a program alone -/

/-- The contract under which only process `t` moves: whatever it knows is stable. -/
def alone (M : Machine T Op Res E Ch Ev σ) (t : T) : Contract M where
  inv _ := True
  pre := ⟨fun t' _ _ _ => t' = t, fun _ _ => False⟩
  guar _ _ _ _ _ := True

theorem alone_stable : (M.alone t).Stable t A := by
  intro w w' _ _ ho _
  cases ho with
  | proc hne hpre => exact absurd hpre hne
  | event hpre => exact hpre.elim

/-- What a program is safe for, it does alone. -/
theorem triple_of_safe {p : Prog Op Res E α} (h : (M.alone t).Safe t p A Q R) :
    M.Triple t A p Q R := by
  intro w cs x w' hA hend
  induction hend generalizing A with
  | ret a w => exact h w trivial hA
  | raise e w => exact h w trivial hA
  | @call o k w w' c r s cs x hexec hk ih =>
    obtain ⟨B, -, hstep, hsafe⟩ := h
    exact ih (hsafe r) (hstep w c r s trivial hA rfl hexec).2.2

/-! ### The pool in which nobody else moves -/

variable [DecidableEq T]

theorem Ends.run {x : Except E α} (h : M.Ends t p w cs x w') (progs : T → Prog Op Res E α) :
    M.run ⟨w, Function.update progs t p⟩ (cs.map (.proc t)) =
      some ⟨w', Function.update progs t (.ofExcept x)⟩ := by
  induction h with
  | ret a w => rfl
  | raise e w => rfl
  | @call o k w w' c r s cs x hexec hk ih =>
    have hstep : M.step ⟨w, Function.update progs t (.call o k)⟩ (.proc t c) =
        some ⟨w.after t o r s, Function.update progs t (k r)⟩ := by
      simp [step, hexec, World.after]
    rw [List.map_cons, Machine.run, hstep]
    exact ih

end Interleave.Machine
