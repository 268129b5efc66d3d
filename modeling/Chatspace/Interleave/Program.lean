import Mathlib.Logic.Function.Basic

/-!
# Programs that await: sequential code cut at its suspension points

An asynchronous function runs undisturbed between two awaits and is at the mercy of everybody
else at each of them.  `Prog Op Res E α` is that shape and nothing more: a program returns,
raises, or calls an operation and goes on with its answer.  The answer to `o` is an
`Except E (Res o)`, so an exception delivered at an await (a failure of the operation, a
cancellation of the task) is one of the answers the continuation must deal with.

* `bind`, `raise`, `handle`, `tryFinally` — sequencing, `raise`, `try … except` and
  `try … finally`, by recursion on the program, so that a program built with `do` reduces to its
  next call;
* `next`, `value` — the operation a program calls next, and what it has returned;
* `perform o` — call `o` and let an exceptional answer propagate;
* `forEach` — the loop over a list; other loops are recursions of the client on a counter;
* `Only` — the program performs only operations of a certain kind;
* `Propagates` — the program handles no exception.

No operation is fixed here; a client chooses `Op`, `Res` and `E`.
-/

namespace Interleave

/-- A program over operations `Op` answered in `Res`, raising `E`, returning `α`. -/
inductive Prog (Op : Type) (Res : Op → Type) (E α : Type) : Type where
  | ret : α → Prog Op Res E α
  | raise : E → Prog Op Res E α
  | call : (o : Op) → (Except E (Res o) → Prog Op Res E α) → Prog Op Res E α

namespace Prog

variable {Op : Type} {Res : Op → Type} {E α β : Type}

/-- Sequencing: an exception skips the rest. -/
def bind : Prog Op Res E α → (α → Prog Op Res E β) → Prog Op Res E β
  | .ret a, f => f a
  | .raise e, _ => .raise e
  | .call o k, f => .call o fun r => bind (k r) f

/-- `try p except e: h e`. -/
def handle : Prog Op Res E α → (E → Prog Op Res E α) → Prog Op Res E α
  | .ret a, _ => .ret a
  | .raise e, h => h e
  | .call o k, h => .call o fun r => handle (k r) h

/-- `try: p finally: f`. -/
def tryFinally (p : Prog Op Res E α) (f : Prog Op Res E Unit) : Prog Op Res E α :=
  (p.handle fun e => f.bind fun _ => .raise e).bind fun a => f.bind fun _ => .ret a

/-- The outcome of an operation whose exception is left to propagate. -/
def ofExcept : Except E α → Prog Op Res E α
  | .ok a => .ret a
  | .error e => .raise e

/-- Await `o`; an exceptional answer propagates. -/
def perform (o : Op) : Prog Op Res E (Res o) := .call o ofExcept

instance : Monad (Prog Op Res E) where
  pure := .ret
  bind := bind

@[simp] theorem pure_eq (a : α) : (pure a : Prog Op Res E α) = .ret a := rfl

@[simp] theorem bind_eq (p : Prog Op Res E α) (f : α → Prog Op Res E β) :
    (p >>= f) = p.bind f := rfl

@[simp] theorem bind_ret (a : α) (f : α → Prog Op Res E β) : (ret a).bind f = f a := rfl

@[simp] theorem bind_raise (e : E) (f : α → Prog Op Res E β) :
    (raise e : Prog Op Res E α).bind f = raise e := rfl

@[simp] theorem handle_ret (a : α) (h : E → Prog Op Res E α) : (ret a).handle h = ret a := rfl

@[simp] theorem handle_raise (e : E) (h : E → Prog Op Res E α) : (raise e).handle h = h e := rfl

/-- The operation a program calls next. -/
def next : Prog Op Res E α → Option Op
  | .call o _ => some o
  | _ => none

theorem call_of_next {p : Prog Op Res E α} {o : Op} (h : p.next = some o) :
    ∃ k, p = .call o k := by
  cases p with
  | ret a => cases h
  | raise e => cases h
  | call o' k =>
    cases h
    exact ⟨k, rfl⟩

/-- What it has returned. -/
def value : Prog Op Res E α → Option α
  | .ret a => some a
  | _ => none

theorem ret_of_value {p : Prog Op Res E α} {a : α} (h : p.value = some a) : p = .ret a := by
  cases p with
  | ret a' => rw [Option.some.inj h]
  | raise e => cases h
  | call o k => cases h

theorem ne_call_of_next {p : Prog Op Res E α} (h : p.next = none) (o : Op)
    (k : Except E (Res o) → Prog Op Res E α) : p ≠ .call o k := by
  rintro rfl
  cases h

/-- `for x in xs: f x`, collecting the results in order. -/
def forEach {γ : Type} (xs : List γ) (f : γ → Prog Op Res E β) : Prog Op Res E (List β) :=
  match xs with
  | [] => .ret []
  | x :: xs => (f x).bind fun b => (forEach xs f).bind fun bs => .ret (b :: bs)

@[simp] theorem forEach_nil {γ : Type} (f : γ → Prog Op Res E β) : forEach [] f = .ret [] := rfl

@[simp] theorem forEach_cons {γ : Type} (x : γ) (xs : List γ) (f : γ → Prog Op Res E β) :
    forEach (x :: xs) f = (f x).bind fun b => (forEach xs f).bind fun bs => .ret (b :: bs) := rfl

/-! ### Programs that perform only certain operations -/

/-- Every operation the program may come to perform satisfies `P`. -/
def Only (P : Op → Prop) : Prog Op Res E α → Prop
  | .ret _ => True
  | .raise _ => True
  | .call o k => P o ∧ ∀ r, Only P (k r)

variable {P : Op → Prop}

@[simp] theorem only_ret (a : α) : (ret a : Prog Op Res E α).Only P := trivial

@[simp] theorem only_raise (e : E) : (raise e : Prog Op Res E α).Only P := trivial

theorem Only.bind {p : Prog Op Res E α} {f : α → Prog Op Res E β} (hp : p.Only P)
    (hf : ∀ a, (f a).Only P) : (p.bind f).Only P := by
  induction p with
  | ret a => exact hf a
  | raise e => trivial
  | call o k ih => exact ⟨hp.1, fun r => ih r (hp.2 r)⟩

theorem Only.handle {p : Prog Op Res E α} {f : E → Prog Op Res E α} (hp : p.Only P)
    (hf : ∀ e, (f e).Only P) : (p.handle f).Only P := by
  induction p with
  | ret a => trivial
  | raise e => exact hf e
  | call o k ih => exact ⟨hp.1, fun r => ih r (hp.2 r)⟩

theorem Only.tryFinally {p : Prog Op Res E α} {f : Prog Op Res E Unit} (hp : p.Only P)
    (hf : f.Only P) : (p.tryFinally f).Only P :=
  (hp.handle fun e => hf.bind fun _ => only_raise e).bind fun a => hf.bind fun _ => only_ret a

theorem only_ofExcept (r : Except E α) : (ofExcept r : Prog Op Res E α).Only P := by
  cases r <;> trivial

theorem only_perform {o : Op} (h : P o) : (perform o : Prog Op Res E (Res o)).Only P :=
  ⟨h, only_ofExcept⟩

theorem only_forEach {γ : Type} (xs : List γ) {f : γ → Prog Op Res E β}
    (hf : ∀ x, (f x).Only P) : (forEach xs f).Only P := by
  induction xs with
  | nil => trivial
  | cons x xs ih => exact (hf x).bind fun b => ih.bind fun bs => trivial

theorem Only.mono {P' : Op → Prop} {p : Prog Op Res E α} (h : ∀ o, P o → P' o) (hp : p.Only P) :
    p.Only P' := by
  induction p with
  | ret a => trivial
  | raise e => trivial
  | call o k ih => exact ⟨h o hp.1, fun r => ih r (hp.2 r)⟩

/-! ### Programs that let exceptions through -/

/-- Every exceptional answer ends the program with that exception, and the exceptions the program
raises of its own satisfy `P`. -/
def Propagates (P : E → Prop) : Prog Op Res E α → Prop
  | .ret _ => True
  | .raise e => P e
  | .call _ k => (∀ e, k (.error e) = .raise e) ∧ ∀ a, Propagates P (k (.ok a))

theorem Propagates.bind {P : E → Prop} {p : Prog Op Res E α} {f : α → Prog Op Res E β}
    (hp : p.Propagates P) (hf : ∀ a, (f a).Propagates P) : (p.bind f).Propagates P := by
  induction p with
  | ret a => exact hf a
  | raise e => exact hp
  | call o k ih =>
    refine ⟨fun e => ?_, fun a => ih (.ok a) (hp.2 a)⟩
    show (k (.error e)).bind f = raise e
    rw [hp.1 e]
    rfl

theorem propagates_perform {P : E → Prop} (o : Op) :
    (perform o : Prog Op Res E (Res o)).Propagates P :=
  ⟨fun _ => rfl, fun _ => trivial⟩

theorem propagates_forEach {P : E → Prop} {γ : Type} (xs : List γ) {f : γ → Prog Op Res E β}
    (hf : ∀ x, (f x).Propagates P) : (forEach xs f).Propagates P := by
  induction xs with
  | nil => trivial
  | cons x xs ih => exact (hf x).bind fun b => ih.bind fun bs => trivial

end Prog

end Interleave
