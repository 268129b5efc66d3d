import Chatspace.Interleave.RelyGuarantee
import Mathlib.Data.List.Induction

/-!
# The moments of a run

A statement about what held at some earlier moment of a run speaks of the run's beginnings.

* `Passes` — the run passes a world that satisfies a condition;
* `run_concat` — a run and one more step;
* `run_history` — **a relation between a run and where it ends, kept by one more step;**
* `Sound.history` — the same, with what the contract guarantees of the step;
* `World.own`, `Stable.history` — what one process has done, which no other process changes;
* `Performed`, `performed_of_own` — what it has done, it did at some moment of the run; `During` — at
  one of these moments;
* `Sound.unstarted` — a process that has done nothing is where it was, and knows what it knew;
* `run_of_free` — a process that is specified whatever the others do.
-/

namespace Interleave

variable {T Op : Type} {Res : Op → Type} {E Ch Ev α σ : Type} [DecidableEq T]
  {M : Machine T Op Res E Ch Ev σ} {p q : Pool T Op Res E α σ} {ls : List (Label T Ch Ev)}

/-- What process `t` has done, newest first. -/
def World.own (t : T) (w : World T Op Res E σ) : List (Entry T Op Res E) :=
  w.trace.filter fun x => x.proc = t

@[simp] theorem World.own_after {w : World T Op Res E σ} {t : T} {o : Op} {r : Except E (Res o)}
    {s : σ} : (w.after t o r s).own t = ⟨t, o, r⟩ :: w.own t :=
  List.filter_cons_of_pos (by simp)

theorem World.own_after_of_ne {w : World T Op Res E σ} {t t' : T} {o : Op} {r : Except E (Res o)}
    {s : σ} (h : t' ≠ t) : (w.after t' o r s).own t = w.own t :=
  List.filter_cons_of_neg (by simpa using h)

theorem World.mem_own {w : World T Op Res E σ} {t : T} {x : Entry T Op Res E} :
    x ∈ w.own t ↔ x ∈ w.trace ∧ x.proc = t := by
  simp [World.own]

namespace Machine

/-- The run passes a world that satisfies `P`; the first and the last count. -/
def Passes (M : Machine T Op Res E Ch Ev σ) (p : Pool T Op Res E α σ) (ls : List (Label T Ch Ev))
    (P : World T Op Res E σ → Prop) : Prop :=
  ∃ ls₁ ls₂ m, ls = ls₁ ++ ls₂ ∧ M.run p ls₁ = some m ∧ P m.world

variable {P P' : World T Op Res E σ → Prop}

/-- What a run passes, a longer run passes. -/
theorem Passes.append (h : M.Passes p ls P) (ls' : List (Label T Ch Ev)) :
    M.Passes p (ls ++ ls') P := by
  obtain ⟨ls₁, ls₂, m, rfl, hr, hP⟩ := h
  exact ⟨ls₁, ls₂ ++ ls', m, List.append_assoc .., hr, hP⟩

theorem Passes.mono (hP : ∀ w, P w → P' w) (h : M.Passes p ls P) : M.Passes p ls P' := by
  obtain ⟨ls₁, ls₂, m, hls, hr, hm⟩ := h
  exact ⟨ls₁, ls₂, m, hls, hr, hP _ hm⟩

/-- A run passes the world in which it ends. -/
theorem passes_last (h : M.run p ls = some q) (hP : P q.world) : M.Passes p ls P :=
  ⟨ls, [], q, (List.append_nil ls).symm, h, hP⟩

theorem run_concat (l : Label T Ch Ev) :
    M.run p (ls ++ [l]) = (M.run p ls).bind fun m => M.step m l := by
  rw [run_append]
  congr 1
  funext m
  simp only [run]
  cases M.step m l <;> rfl

/-- A run and one more step, cut before that step. -/
theorem run_concat_some {l : Label T Ch Ev} (h : M.run p (ls ++ [l]) = some q) :
    ∃ m, M.run p ls = some m ∧ M.step m l = some q := by
  rw [run_concat] at h
  exact Option.bind_eq_some_iff.mp h

/-- In this run `t` performed `x` from world `w`, having performed `h` before. -/
def Performed (M : Machine T Op Res E Ch Ev σ) (p : Pool T Op Res E α σ)
    (ls : List (Label T Ch Ev)) (t : T) (x : Entry T Op Res E) (h : List (Entry T Op Res E))
    (w : World T Op Res E σ) : Prop :=
  ∃ ls₁ c ls₂ m m', ls = ls₁ ++ .proc t c :: ls₂ ∧ M.run p ls₁ = some m ∧
    M.step m (.proc t c) = some m' ∧ m.world = w ∧ w.own t = h ∧ m'.world.own t = x :: h

/-- What has been done was done at some moment. -/
theorem performed_of_own {t : T} {x : Entry T Op Res E} {newer older : List (Entry T Op Res E)}
    (hp : p.world.own t = []) (h : M.run p ls = some q)
    (hown : q.world.own t = newer ++ x :: older) : ∃ w, M.Performed p ls t x older w := by
  induction ls using List.reverseRecOn generalizing q newer with
  | nil =>
    cases h
    rw [hp] at hown
    cases newer <;> cases hown
  | append_singleton ls l ih =>
    obtain ⟨m, hm, hq⟩ := run_concat_some h
    have hbefore : ∀ newer, m.world.own t = newer ++ x :: older →
        ∃ w, M.Performed p (ls ++ [l]) t x older w := by
      intro newer hown
      obtain ⟨w, ls₁, c, ls₂, n, n', rfl, hrest⟩ := ih hm hown
      exact ⟨w, ls₁, c, ls₂ ++ [l], n, n', by simp, hrest⟩
    cases l with
    | event e =>
      obtain ⟨s, -, rfl⟩ := step_event hq
      exact hbefore newer hown
    | proc t' c =>
      obtain ⟨o, k, r, s, hk, hx, rfl⟩ := step_proc hq
      by_cases ht : t' = t
      · subst ht
        have hown' : (⟨t', o, r⟩ : Entry T Op Res E) :: m.world.own t' = newer ++ x :: older := by
          rw [← hown]
          exact World.own_after.symm
        cases newer with
        | nil =>
          cases hown'
          exact ⟨m.world, ls, c, [], m, _, rfl, hm, hq, rfl, rfl, World.own_after⟩
        | cons y newer => exact hbefore newer (List.cons.inj hown').2
      · refine hbefore newer ?_
        rw [← hown]
        exact (World.own_after_of_ne ht).symm

/-- What was done is what the machine answered. -/
theorem Performed.exec {t : T} {x : Entry T Op Res E} {h : List (Entry T Op Res E)}
    {w : World T Op Res E σ} (hx : M.Performed p ls t x h w) :
    ∃ c s, M.exec t x.op c w.state = some (x.answer, s) := by
  obtain ⟨ls₁, c, ls₂, m, m', -, -, hs, rfl, rfl, hown⟩ := hx
  obtain ⟨o, k, r, s, -, hexec, rfl⟩ := step_proc hs
  have hown' : (⟨t, o, r⟩ : Entry T Op Res E) :: m.world.own t = x :: m.world.own t := by
    rw [← hown]
    exact World.own_after.symm
  cases hown'
  exact ⟨c, s, hexec⟩

/-- The last step of a run. -/
theorem performed_concat {t : T} {c : Ch} {o : Op} {k : Except E (Res o) → Prog Op Res E α}
    {r : Except E (Res o)} {s : σ} (h : M.run p ls = some q) (hk : q.prog t = .call o k)
    (hx : M.exec t o c q.world.state = some (r, s)) :
    M.Performed p (ls ++ [.proc t c]) t ⟨t, o, r⟩ (q.world.own t) q.world := by
  have hstep : M.step q (.proc t c) =
      some ⟨q.world.after t o r s, Function.update q.prog t (k r)⟩ := by
    simp only [step, hk, hx, Option.map_some]
    rfl
  exact ⟨ls, c, [], q, _, rfl, h, hstep, rfl, rfl, World.own_after⟩

/-- What is done in a run is done in a longer run. -/
theorem Performed.append {t : T} {x : Entry T Op Res E} {h : List (Entry T Op Res E)}
    {w : World T Op Res E σ} (hx : M.Performed p ls t x h w) (ls' : List (Label T Ch Ev)) :
    M.Performed p (ls ++ ls') t x h w := by
  obtain ⟨ls₁, c, ls₂, m, m', rfl, hrest⟩ := hx
  exact ⟨ls₁, c, ls₂ ++ ls', m, m', by simp, hrest⟩

/-- What is done at a moment is done at a moment of the run. -/
theorem Performed.passes {t : T} {x : Entry T Op Res E} {h : List (Entry T Op Res E)}
    {w : World T Op Res E σ} (hx : M.Performed p ls t x h w) {P : World T Op Res E σ → Prop}
    (hw : P w) : M.Passes p ls P := by
  obtain ⟨ls₁, c, ls₂, m, m', rfl, hm, -, rfl, -⟩ := hx
  exact ⟨ls₁, _, m, rfl, hm, hw⟩

/-- At a moment of the run at which `t` does something. -/
def During (M : Machine T Op Res E Ch Ev σ) (p : Pool T Op Res E α σ) (ls : List (Label T Ch Ev))
    (t : T) (P : World T Op Res E σ → Prop) : Prop :=
  ∃ x h w, M.Performed p ls t x h w ∧ P w

theorem During.mono {t : T} {P P' : World T Op Res E σ → Prop} (h : M.During p ls t P)
    (hP : ∀ w, P w → P' w) : M.During p ls t P' := by
  obtain ⟨x, old, w, hx, hw⟩ := h
  exact ⟨x, old, w, hx, hP w hw⟩

/-- What a process that started in this run has done, it did at some moment. -/
theorem performed_of_mem {t : T} {x : Entry T Op Res E} (hp : p.world.own t = [])
    (h : M.run p ls = some q) (hx : x ∈ q.world.own t) : ∃ old w, M.Performed p ls t x old w := by
  obtain ⟨newer, older, hown⟩ := List.append_of_mem hx
  obtain ⟨w, hperf⟩ := performed_of_own hp h hown
  exact ⟨older, w, hperf⟩

/-- What holds at the start, and is kept by one more step, holds of every run that meets the
condition. -/
theorem run_history {C : Condition T Op Res E Ch Ev σ}
    {H : List (Label T Ch Ev) → Pool T Op Res E α σ → Prop} (h₀ : H [] p)
    (hstep : ∀ ls l m q, M.run p ls = some m → H ls m → C.At m l → M.step m l = some q →
      H (ls ++ [l]) q)
    (hC : M.Meets C p ls) (h : M.run p ls = some q) : H ls q := by
  induction ls using List.reverseRecOn generalizing q with
  | nil =>
    cases h
    exact h₀
  | append_singleton ls l ih =>
    obtain ⟨m, hm, hq⟩ := run_concat_some h
    obtain ⟨hls, hl⟩ := meets_append hC
    exact hstep ls l m q hm (ih hls hm) (hl m hm).1 hq

end Machine

namespace Contract

variable {K : Contract M} {Q : T → α → World T Op Res E σ → Prop}
  {R : T → E → World T Op Res E σ → Prop}

/-- What a process knows of its own history stays true while the others move. -/
theorem Stable.history {t : T} (P : List (Entry T Op Res E) → Prop) :
    K.Stable t fun w => P (w.own t) := by
  intro w w' _ _ ho h
  cases ho with
  | proc hne hpre hexec hguar =>
    show P (World.own t _)
    rw [World.own_after_of_ne hne]
    exact h
  | event hpre hexec => exact h

/-- A relation between a run and where it ends, kept by every step that satisfies the guarantee of
the process that takes it. -/
theorem Sound.history {H : List (Label T Ch Ev) → Pool T Op Res E α σ → Prop}
    (hproc : ∀ ls m t c o k r s, M.run p ls = some m → H ls m → m.prog t = .call o k →
      M.exec t o c m.world.state = some (r, s) → K.guar t o r m.world (m.world.after t o r s) →
      H (ls ++ [.proc t c]) ⟨m.world.after t o r s, Function.update m.prog t (k r)⟩)
    (hevent : ∀ ls m e s, M.run p ls = some m → H ls m → M.event e m.world.state = some s →
      H (ls ++ [.event e]) ⟨⟨s, m.world.trace⟩, m.prog⟩)
    (hev : K.EventsOk) (h : K.Sound Q R p) (h₀ : H [] p) (hC : M.Meets K.pre p ls)
    (hr : M.run p ls = some q) : K.Sound Q R q ∧ H ls q := by
  refine Machine.run_history (H := fun ls q => K.Sound Q R q ∧ H ls q) ⟨h, h₀⟩ ?_ hC hr
  intro ls l m q hm hH hl hs
  refine ⟨hH.1.step hev hl hs, ?_⟩
  cases l with
  | event e =>
    obtain ⟨s, hx, rfl⟩ := Machine.step_event hs
    exact hevent ls m e s hm hH.2 hx
  | proc t c =>
    obtain ⟨o, k, r, s, hk, hx, rfl, hg⟩ := hH.1.guar hl hs
    exact hproc ls m t c o k r s hm hH.2 hk hx hg

/-- A process that has done nothing has its whole program before it, and what was stable when it
was created still holds. -/
theorem Sound.unstarted {t : T} {A : World T Op Res E σ → Prop} (hev : K.EventsOk)
    (h : K.Sound Q R p) (hA : K.Stable t A) (hw : A p.world) (hC : M.Meets K.pre p ls)
    (hr : M.run p ls = some q) (hq : q.world.own t = []) : q.prog t = p.prog t ∧ A q.world := by
  refine (Machine.run_induction (P := fun q => K.Sound Q R q ∧
    (q.world.own t = [] → q.prog t = p.prog t ∧ A q.world)) (fun m l n hm hl hs => ?_)
    ⟨h, fun _ => ⟨rfl, hw⟩⟩ hC hr).2 hq
  have hn := hm.1.step hev hl hs
  refine ⟨hn, fun hown => ?_⟩
  cases l with
  | event e =>
    obtain ⟨s, hx, rfl⟩ := Machine.step_event hs
    obtain ⟨hprog, hwm⟩ := hm.2 hown
    exact ⟨hprog, hA _ _ hm.1.inv hn.inv (.event hl hx) hwm⟩
  | proc t' c =>
    obtain ⟨o, k, r, s, hk, hx, rfl, hg⟩ := hm.1.guar hl hs
    by_cases ht : t' = t
    · subst ht
      rw [World.own_after] at hown
      cases hown
    · rw [World.own_after_of_ne ht] at hown
      obtain ⟨hprog, hwm⟩ := hm.2 hown
      refine ⟨(Function.update_of_ne (Ne.symm ht) _ _).trans hprog, ?_⟩
      exact hA _ _ hm.1.inv hn.inv (.proc ht (hl o k hk) hx hg) hwm

/-- What is specified of one process whatever the others do holds of it in every run. -/
theorem run_of_free {t : T} {A : World T Op Res E σ → Prop} {Q' : α → World T Op Res E σ → Prop}
    {R' : E → World T Op Res E σ → Prop} (hA : (free M).Stable t A) (hw : A p.world)
    (h : (free M).Safe t (p.prog t) A Q' R') (hr : M.run p ls = some q) :
    (∀ a, q.prog t = .ret a → Q' a q.world) ∧ ∀ e, q.prog t = .raise e → R' e q.world := by
  have hp : (free M).Sound (fun _ _ _ => True) (fun _ _ _ => True) p :=
    ⟨trivial, fun t' => ⟨fun _ => True, .const True, trivial,
      safe_free (fun _ _ _ _ _ _ _ _ _ => ⟨trivial, trivial, trivial⟩) _⟩⟩
  have hq := (hp.focus hA hw h).run (fun _ _ _ _ _ _ => trivial) (Machine.meets_always ls) hr
  refine ⟨fun a ha => ?_, fun e he => ?_⟩
  · simpa using hq.ret ha
  · simpa using hq.raise he

end Contract

end Interleave
