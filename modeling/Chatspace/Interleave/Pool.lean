import Chatspace.Interleave.Program

/-!
# Pools of programs over one shared state

A `Machine` says what each operation does to a shared state when process `t` performs it, under a
choice `c` of the environment (which answer an unconstrained read gives, whether the operation
fails, in what order rows come back), and which events happen outside every process.  `exec`
answers `none` where the operation has to wait.

A `Pool` is a family of programs, one per process, with the shared state and the trace of every
operation performed so far (newest first).  A run is a list of labels; nothing restricts which
process moves next, so a statement over all runs is a statement over all interleavings.

* `step`, `run` — executable: a schedule can be replayed;
* `Meets` — every step of a run satisfies a condition on the world before it;
* `run_append`, `meets_append` — cutting a run in two;
* `mem_trace_of_run` — the history only grows.
-/

namespace Interleave

/-- One performed operation. -/
structure Entry (T Op : Type) (Res : Op → Type) (E : Type) where
  proc : T
  op : Op
  answer : Except E (Res op)

/-- The shared state with the history of operations performed on it, newest first. -/
structure World (T Op : Type) (Res : Op → Type) (E σ : Type) where
  state : σ
  trace : List (Entry T Op Res E)

/-- What operations and outside events do to the shared state; `none` is "not enabled". -/
structure Machine (T Op : Type) (Res : Op → Type) (E Ch Ev σ : Type) where
  exec : T → (o : Op) → Ch → σ → Option (Except E (Res o) × σ)
  event : Ev → σ → Option σ

/-- Every process's remaining program, and the world they share. -/
structure Pool (T Op : Type) (Res : Op → Type) (E α σ : Type) where
  world : World T Op Res E σ
  prog : T → Prog Op Res E α

/-- Who moves next: process `t` under choice `c`, or the environment. -/
inductive Label (T Ch Ev : Type) where
  | proc (t : T) (c : Ch)
  | event (e : Ev)

namespace Machine

variable {T Op : Type} {Res : Op → Type} {E Ch Ev α σ : Type} [DecidableEq T]

/-- One step of the pool. -/
def step (M : Machine T Op Res E Ch Ev σ) (p : Pool T Op Res E α σ) :
    Label T Ch Ev → Option (Pool T Op Res E α σ)
  | .proc t c =>
    match p.prog t with
    | .call o k => (M.exec t o c p.world.state).map fun a =>
        ⟨⟨a.2, ⟨t, o, a.1⟩ :: p.world.trace⟩, Function.update p.prog t (k a.1)⟩
    | _ => none
  | .event e => (M.event e p.world.state).map fun s => ⟨⟨s, p.world.trace⟩, p.prog⟩

/-- A run: the labels in order. -/
def run (M : Machine T Op Res E Ch Ev σ) (p : Pool T Op Res E α σ) :
    List (Label T Ch Ev) → Option (Pool T Op Res E α σ)
  | [] => some p
  | l :: ls => (M.step p l).bind fun q => M.run q ls

/-- Conditions on the steps of a run, each on the world before the step. -/
structure Condition (T Op : Type) (Res : Op → Type) (E Ch Ev σ : Type) where
  op : T → (o : Op) → Ch → World T Op Res E σ → Prop
  event : Ev → World T Op Res E σ → Prop

/-- The condition at one label of a pool. -/
def Condition.At (C : Condition T Op Res E Ch Ev σ) (p : Pool T Op Res E α σ) :
    Label T Ch Ev → Prop
  | .proc t c => ∀ o k, p.prog t = .call o k → C.op t o c p.world
  | .event e => C.event e p.world

/-- Every step of the run meets the condition. -/
def Meets (M : Machine T Op Res E Ch Ev σ) (C : Condition T Op Res E Ch Ev σ)
    (p : Pool T Op Res E α σ) : List (Label T Ch Ev) → Prop
  | [] => True
  | l :: ls => C.At p l ∧ ∀ q, M.step p l = some q → M.Meets C q ls

/-- The condition every run meets. -/
def Condition.always : Condition T Op Res E Ch Ev σ := ⟨fun _ _ _ _ => True, fun _ _ => True⟩

variable {M : Machine T Op Res E Ch Ev σ} {p q : Pool T Op Res E α σ}

/-- What a step of process `t` did: it performed its program's next operation. -/
theorem step_proc {t : T} {c : Ch} (h : M.step p (.proc t c) = some q) :
    ∃ o k r s, p.prog t = .call o k ∧ M.exec t o c p.world.state = some (r, s) ∧
      q = ⟨⟨s, ⟨t, o, r⟩ :: p.world.trace⟩, Function.update p.prog t (k r)⟩ := by
  simp only [step] at h
  split at h
  · rename_i o k hp
    obtain ⟨a, ha, hq⟩ := Option.map_eq_some_iff.mp h
    exact ⟨o, k, a.1, a.2, hp, ha, hq.symm⟩
  · cases h

/-- What an event did: it changed the shared state and no program. -/
theorem step_event {e : Ev} (h : M.step p (.event e) = some q) :
    ∃ s, M.event e p.world.state = some s ∧ q = ⟨⟨s, p.world.trace⟩, p.prog⟩ := by
  obtain ⟨s, hs, hq⟩ := Option.map_eq_some_iff.mp h
  exact ⟨s, hs, hq.symm⟩

theorem run_append (ls ls' : List (Label T Ch Ev)) :
    M.run p (ls ++ ls') = (M.run p ls).bind fun q => M.run q ls' := by
  induction ls generalizing p with
  | nil => rfl
  | cons l ls ih =>
    simp only [List.cons_append, run]
    cases M.step p l with
    | none => rfl
    | some q => exact ih

/-- A run that ends is a run to the middle followed by the rest. -/
theorem run_append_some {ls ls' : List (Label T Ch Ev)} (h : M.run p (ls ++ ls') = some q) :
    ∃ m, M.run p ls = some m ∧ M.run m ls' = some q := by
  rw [run_append] at h
  exact Option.bind_eq_some_iff.mp h

theorem meets_append {C : Condition T Op Res E Ch Ev σ} {ls ls' : List (Label T Ch Ev)}
    (h : M.Meets C p (ls ++ ls')) :
    M.Meets C p ls ∧ ∀ m, M.run p ls = some m → M.Meets C m ls' := by
  induction ls generalizing p with
  | nil =>
    refine ⟨trivial, ?_⟩
    rintro m hm
    cases hm
    exact h
  | cons l ls ih =>
    obtain ⟨hl, hrest⟩ := h
    refine ⟨⟨hl, fun q hq => (ih (hrest q hq)).1⟩, fun m hm => ?_⟩
    obtain ⟨q, hq, hqm⟩ := Option.bind_eq_some_iff.mp hm
    exact (ih (hrest q hq)).2 m hqm

/-- A weaker condition is met as well. -/
theorem meets_mono {C C' : Condition T Op Res E Ch Ev σ}
    (hop : ∀ t o c w, C.op t o c w → C'.op t o c w) (hevent : ∀ e w, C.event e w → C'.event e w)
    {ls : List (Label T Ch Ev)} (h : M.Meets C p ls) : M.Meets C' p ls := by
  induction ls generalizing p with
  | nil => trivial
  | cons l ls ih =>
    obtain ⟨hl, hrest⟩ := h
    refine ⟨?_, fun q hq => ih (hrest q hq)⟩
    cases l with
    | proc t c => exact fun o k hk => hop t o c _ (hl o k hk)
    | event e => exact hevent e _ hl

theorem meets_always (ls : List (Label T Ch Ev)) : M.Meets .always p ls := by
  induction ls generalizing p with
  | nil => trivial
  | cons l ls ih =>
    refine ⟨?_, fun q _ => ih⟩
    cases l <;> simp [Condition.At, Condition.always]

/-- A property kept by every step that meets the condition is kept by every run that does. -/
theorem run_induction {C : Condition T Op Res E Ch Ev σ} {P : Pool T Op Res E α σ → Prop}
    (hstep : ∀ p l q, P p → C.At p l → M.step p l = some q → P q)
    {ls : List (Label T Ch Ev)} (hp : P p) (hC : M.Meets C p ls) (h : M.run p ls = some q) :
    P q := by
  induction ls generalizing p with
  | nil =>
    cases h
    exact hp
  | cons l ls ih =>
    obtain ⟨m, hm, hmq⟩ := Option.bind_eq_some_iff.mp h
    exact ih (hstep p l m hp hC.1 hm) (hC.2 m hm) hmq

/-- What has happened stays in the history. -/
theorem mem_trace_of_run {ls : List (Label T Ch Ev)} (h : M.run p ls = some q)
    {e : Entry T Op Res E} (he : e ∈ p.world.trace) : e ∈ q.world.trace := by
  refine run_induction (C := .always) (P := fun q => e ∈ q.world.trace) (fun m l n hm _ hs => ?_) he
    (meets_always ls) h
  cases l with
  | event ev =>
    obtain ⟨s, -, rfl⟩ := step_event hs
    exact hm
  | proc t c =>
    obtain ⟨o, k, r, s, -, -, rfl⟩ := step_proc hs
    exact List.mem_cons_of_mem _ hm

/-! ### Replaying a run -/

instance {C : Condition T Op Res E Ch Ev σ} [∀ t o c w, Decidable (C.op t o c w)]
    [∀ e w, Decidable (C.event e w)] (p : Pool T Op Res E α σ) (l : Label T Ch Ev) :
    Decidable (C.At p l) :=
  match l with
  | .event e => inferInstanceAs (Decidable (C.event e p.world))
  | .proc t c =>
    match hp : p.prog t with
    | .call o k => decidable_of_iff (C.op t o c p.world)
        ⟨fun h o' k' he => by cases hp.symm.trans he; exact h, fun h => h o k hp⟩
    | .ret a => .isTrue (by simp [Condition.At, hp])
    | .raise e => .isTrue (by simp [Condition.At, hp])

/-- Whether a concrete run meets a decidable condition can be computed. -/
instance decidableMeets {C : Condition T Op Res E Ch Ev σ} [∀ t o c w, Decidable (C.op t o c w)]
    [∀ e w, Decidable (C.event e w)] :
    ∀ (p : Pool T Op Res E α σ) (ls : List (Label T Ch Ev)), Decidable (M.Meets C p ls)
  | _, [] => .isTrue trivial
  | p, l :: ls =>
    match hs : M.step p l with
    | none => decidable_of_iff (C.At p l) (by simp [Meets, hs])
    | some q =>
      have : Decidable (M.Meets C q ls) := decidableMeets q ls
      decidable_of_iff (C.At p l ∧ M.Meets C q ls) (by simp [Meets, hs])

end Machine

end Interleave
