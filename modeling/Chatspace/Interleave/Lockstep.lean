import Chatspace.Interleave.Solo
import Mathlib.Data.List.Forall2

/-!
# Two runs in lockstep

What an observer cannot tell apart.  `Lockstep t Φ p q R` says that whatever `p` does alone from one
of two worlds that `Φ` relates, `q` does from the other under the same choices, ending with related
outcomes in worlds that `Φ` still relates.  `Returns` says that a program alone can return.

* `Ends.bind`, `Ends.bind_error` — a run put together from its parts;
* `Lockstep.ret`, `Lockstep.bind`, `Lockstep.perform`, `Lockstep.forEach` — the rules for two runs;
* `Returns.ret`, `Returns.bind`, `Returns.perform`, `Returns.forEach` — the rules for one.
-/

namespace Interleave.Machine

variable {T Op : Type} {Res : Op → Type} {E Ch Ev α β α' β' γ σ : Type}
  {M : Machine T Op Res E Ch Ev σ} {t : T} {w w' w₁ : World T Op Res E σ} {cs cs₁ cs₂ : List Ch}

/-! ### Runs put together -/

theorem Ends.bind {p : Prog Op Res E α} {f : α → Prog Op Res E β} {a : α} {x : Except E β}
    (h : M.Ends t p w cs₁ (.ok a) w₁) (hf : M.Ends t (f a) w₁ cs₂ x w') :
    M.Ends t (p.bind f) w (cs₁ ++ cs₂) x w' := by
  induction p generalizing w cs₁ with
  | ret b =>
    cases h
    exact hf
  | raise e => cases h
  | call o k ih =>
    cases h with
    | call hexec hk => exact .call hexec (ih _ hk)

theorem Ends.bind_error {p : Prog Op Res E α} {f : α → Prog Op Res E β} {e : E}
    (h : M.Ends t p w cs (.error e) w') : M.Ends t (p.bind f) w cs (.error e) w' := by
  induction p generalizing w cs with
  | ret b => cases h
  | raise e' =>
    cases h
    exact .raise e w'
  | call o k ih =>
    cases h with
    | call hexec hk => exact .call hexec (ih _ hk)

theorem Ends.perform {o : Op} {c : Ch} {r : Except E (Res o)} {s : σ}
    (h : M.exec t o c w.state = some (r, s)) :
    M.Ends t (Prog.perform o) w [c] r (w.after t o r s) := by
  refine .call h ?_
  cases r with
  | ok a => exact .ret a _
  | error e => exact .raise e _

/-! ### Two runs -/

/-- Both returned, with related values, or both raised the same. -/
def Outcomes (R : α → β → Prop) : Except E α → Except E β → Prop
  | .ok a, .ok b => R a b
  | .error e, .error e' => e = e'
  | _, _ => False

/-- What `p` does from one world, `q` does from the other. -/
def Lockstep (M : Machine T Op Res E Ch Ev σ) (t : T)
    (Φ : World T Op Res E σ → World T Op Res E σ → Prop) (p : Prog Op Res E α)
    (q : Prog Op Res E β) (R : α → β → Prop) : Prop :=
  ∀ w v cs x w', Φ w v → M.Ends t p w cs x w' →
    ∃ y v', M.Ends t q v cs y v' ∧ Φ w' v' ∧ Outcomes R x y

namespace Lockstep

variable {Φ : World T Op Res E σ → World T Op Res E σ → Prop} {R : α → β → Prop}
  {R' : α' → β' → Prop}

theorem ret {a : α} {b : β} (h : R a b) : M.Lockstep t Φ (.ret a) (.ret b) R := by
  intro w v cs x w' hΦ hend
  cases hend
  exact ⟨.ok b, v, .ret b v, hΦ, h⟩

theorem bind {p : Prog Op Res E α} {q : Prog Op Res E β} {f : α → Prog Op Res E α'}
    {g : β → Prog Op Res E β'} (hp : M.Lockstep t Φ p q R)
    (hf : ∀ a b, R a b → M.Lockstep t Φ (f a) (g b) R') :
    M.Lockstep t Φ (p.bind f) (q.bind g) R' := by
  intro w v cs x w' hΦ hend
  obtain ⟨cs₁, cs₂, a, w₁, rfl, h₁, h₂⟩ | ⟨e, rfl, he⟩ := ends_bind hend
  · obtain ⟨y, v₁, hq, hΦ₁, hR⟩ := hp w v cs₁ _ w₁ hΦ h₁
    cases y with
    | error e => exact hR.elim
    | ok b =>
      obtain ⟨z, v', hg, hΦ', hR'⟩ := hf a b hR w₁ v₁ cs₂ x w' hΦ₁ h₂
      exact ⟨z, v', hq.bind hg, hΦ', hR'⟩
  · obtain ⟨y, v', hq, hΦ', hR⟩ := hp w v cs _ w' hΦ he
    cases y with
    | ok b => exact hR.elim
    | error e' => exact ⟨.error e', v', hq.bind_error, hΦ', hR⟩

theorem perform {o : Op} {R : Res o → Res o → Prop}
    (h : ∀ w v c r s, Φ w v → M.exec t o c w.state = some (r, s) →
      ∃ r' s', M.exec t o c v.state = some (r', s') ∧ Φ (w.after t o r s) (v.after t o r' s') ∧
        Outcomes R r r') : M.Lockstep t Φ (Prog.perform o) (Prog.perform o) R := by
  intro w v cs x w' hΦ hend
  obtain ⟨c, s, rfl, hexec, rfl⟩ := ends_perform hend
  obtain ⟨r', s', hexec', hΦ', hR⟩ := h w v c x s hΦ hexec
  exact ⟨r', _, .perform hexec', hΦ', hR⟩

/-- A loop over the same list. -/
theorem forEach {f : γ → Prog Op Res E α} {g : γ → Prog Op Res E β} {S : γ → α → Prop}
    {S' : γ → β → Prop} {xs : List γ}
    (h : ∀ x ∈ xs, M.Lockstep t Φ (f x) (g x) fun a b => S x a ∧ S' x b) :
    M.Lockstep t Φ (Prog.forEach xs f) (Prog.forEach xs g) fun as bs =>
      List.Forall₂ S xs as ∧ List.Forall₂ S' xs bs := by
  induction xs with
  | nil => exact ret ⟨.nil, .nil⟩
  | cons x xs ih =>
    apply bind (h x List.mem_cons_self)
    intro a b hab
    apply bind (ih fun y hy => h y (List.mem_cons_of_mem x hy))
    intro as bs hbs
    exact ret ⟨.cons hab.1 hbs.1, .cons hab.2 hbs.2⟩

end Lockstep

/-! ### Runs that return -/

/-- From `A` the program alone can return, with `Q` of its value, to `A`. -/
def Returns (M : Machine T Op Res E Ch Ev σ) (t : T) (A : World T Op Res E σ → Prop)
    (p : Prog Op Res E α) (Q : α → Prop) : Prop :=
  ∀ w, A w → ∃ cs a w', M.Ends t p w cs (.ok a) w' ∧ A w' ∧ Q a

namespace Returns

variable {A : World T Op Res E σ → Prop} {Q : α → Prop} {Q' : β → Prop}

theorem ret {a : α} (h : Q a) : M.Returns t A (.ret a) Q := fun w hw => ⟨[], a, w, .ret a w, hw, h⟩

theorem bind {p : Prog Op Res E α} {f : α → Prog Op Res E β} (hp : M.Returns t A p Q)
    (hf : ∀ a, Q a → M.Returns t A (f a) Q') : M.Returns t A (p.bind f) Q' := by
  intro w hw
  obtain ⟨cs₁, a, w₁, h₁, hw₁, hQ⟩ := hp w hw
  obtain ⟨cs₂, b, w', h₂, hw', hQ'⟩ := hf a hQ w₁ hw₁
  exact ⟨cs₁ ++ cs₂, b, w', h₁.bind h₂, hw', hQ'⟩

theorem perform {o : Op} {Q : Res o → Prop}
    (h : ∀ w, A w → ∃ c a s, M.exec t o c w.state = some (.ok a, s) ∧ A (w.after t o (.ok a) s) ∧
      Q a) : M.Returns t A (Prog.perform o) Q := by
  intro w hw
  obtain ⟨c, a, s, hexec, hw', hQ⟩ := h w hw
  exact ⟨[c], a, _, .perform hexec, hw', hQ⟩

theorem forEach {f : γ → Prog Op Res E α} {S : γ → α → Prop} {xs : List γ}
    (h : ∀ x ∈ xs, M.Returns t A (f x) (S x)) :
    M.Returns t A (Prog.forEach xs f) fun as => List.Forall₂ S xs as := by
  induction xs with
  | nil => exact ret .nil
  | cons x xs ih =>
    apply bind (h x List.mem_cons_self)
    intro a ha
    apply bind (ih fun y hy => h y (List.mem_cons_of_mem x hy))
    intro as has
    exact ret (.cons ha has)

end Returns

end Interleave.Machine
