import Chatspace.Backend.Tables
import Chatspace.Interleave.Moments

/-!
# Requests that only read

A request that only reads a table holds no row of it, so that each of its statements sees what is
committed at that moment, whatever the other requests do.

* `ReadsOnly` — a request that only reads the table, before it starts; `Reader` — one that writes
  nothing;
* `ReadsOnly.during_get`, `ReadsOnly.during_select` — **what it was told was committed at a moment
  of the request;**
* `Seen`, `Known`, `safe_ask`, `safe_readSession` — what a request has been told, for programs.
-/

namespace Chatspace

open Interleave Store

variable {T : Type} [DecidableEq T] {hash : RawToken → TokenHash} {α : Type} {t : T} {τ : Tbl}
  {k : τ.Key} {p p₀ : Pool T Op Op.Res Exc α (State T)} {ls : List (Label T Choice Tick)}
  {w w' : BackendWorld T} {s s' : State T}

/-! ### What is read of one table -/

/-- An operation that neither locks nor writes a row of table `τ`. -/
def Leaves (τ : Tbl) : Op → Prop
  | .sql (.lock τ' ..) | .sql (.update τ' ..) | .sql (.insert τ' ..) | .sql (.delete τ' ..) =>
    τ' ≠ τ
  | _ => True

theorem Leaves.spares {o : Op} (ho : Leaves τ o) :
    Spares τ o ∨ o = .sql .commit ∨ o = .sql .rollback := by
  cases o with
  | sql q =>
    cases q with
    | commit => exact .inr (.inl rfl)
    | rollback => exact .inr (.inr rfl)
    | _ => exact .inl ho
  | _ => exact .inl trivial

theorem Leaves.not_holds {o : Op} (ho : Leaves τ o) {r : Except Exc o.Res} {c : Choice}
    (hx : (machine T hash).exec t o c s = some (r, s')) (h : ∀ k, ¬ (s.db τ).Holds t k)
    (k : τ.Key) : ¬ (s'.db τ).Holds t k := by
  rcases ho.spares with hspares | rfl | rfl
  · rw [exec_spares hspares hx]
    exact h k
  · rcases exec_commitAll hx with ⟨rfl, -⟩ | ⟨rfl, -⟩
    · exact h k
    · exact Table.not_holds_release rfl
  · rcases exec_rollbackAll hx with ⟨rfl, -⟩ | ⟨rfl, -⟩
    · exact h k
    · exact Table.not_holds_release rfl

/-- Process `t` is about to run a program that only reads table `τ`. -/
structure ReadsOnly (τ : Tbl) (t : T) (p : Pool T Op Op.Res Exc α (State T)) : Prop where
  only : (p.prog t).Only (Leaves τ)
  hold : ∀ k, ¬ (p.world.state.db τ).Holds t k
  own : p.world.own t = []

/-- The rows are those that are committed and satisfy the condition, each once. -/
def Reader.Selects (τ : Tbl) (q : τ.Key → τ.Row → Bool) (rows : List (τ.Key × τ.Row))
    (w : BackendWorld T) : Prop :=
  (rows.map Prod.fst).Nodup ∧
    ∀ r, r ∈ rows ↔ (w.state.db τ).committed r.1 = some r.2 ∧ q r.1 r.2 = true

namespace ReadsOnly

/-- It goes on so, and holds no row of it. -/
theorem run (h : ReadsOnly τ t p₀) (hr : (machine T hash).run p₀ ls = some p) :
    (p.prog t).Only (Leaves τ) ∧ ∀ k, ¬ (p.world.state.db τ).Holds t k := by
  refine Machine.run_induction (C := .always) (P := fun p : Pool T Op Op.Res Exc α (State T) =>
    (p.prog t).Only (Leaves τ) ∧ ∀ k, ¬ (p.world.state.db τ).Holds t k)
    (fun m l n hm _ hs => ?_) ⟨h.only, h.hold⟩ (Machine.meets_always ls) hr
  obtain ⟨honly, hhold⟩ := hm
  cases l with
  | event e =>
    obtain ⟨s, he, rfl⟩ := Machine.step_event hs
    cases e with
    | tick n =>
      cases he
      exact ⟨honly, hhold⟩
  | proc t' c =>
    obtain ⟨o, k, r, s, hk, hx, rfl⟩ := Machine.step_proc hs
    by_cases ht : t' = t
    · subst ht
      rw [hk] at honly
      refine ⟨?_, honly.1.not_holds hx hhold⟩
      show (Function.update m.prog t' (k r) t').Only (Leaves τ)
      rw [Function.update_self]
      exact honly.2 r
    · refine ⟨?_, fun k hholds => hhold k ((exec_keeps ht hx τ).holds.mpr hholds)⟩
      show (Function.update m.prog t' (k r) t).Only (Leaves τ)
      rw [Function.update_of_ne (Ne.symm ht)]
      exact honly

theorem not_holds (h : ReadsOnly τ t p₀) {x : Entry T Op Op.Res Exc}
    {old : List (Entry T Op Op.Res Exc)} (hx : (machine T hash).Performed p₀ ls t x old w)
    (k : τ.Key) : ¬ (w.state.db τ).Holds t k := by
  obtain ⟨ls₁, c, ls₂, m, m', -, hm, -, rfl, -⟩ := hx
  exact (h.run hm).2 k

/-- A row it was told of was committed. -/
theorem during_get (h : ReadsOnly τ t p₀) (hr : (machine T hash).run p₀ ls = some p)
    {x : Option τ.Row} (hx : ⟨t, .sql (.get τ k), .ok x⟩ ∈ p.world.own t) :
    (machine T hash).During p₀ ls t fun w => (w.state.db τ).committed k = x := by
  obtain ⟨old, w, hperf⟩ := Machine.performed_of_mem h.own hr hx
  obtain ⟨c, s, hexec⟩ := hperf.exec
  have hview := (exec_getTable hexec).2 x rfl
  rw [Table.view_of_not_holds (h.not_holds hperf k)] at hview
  exact ⟨_, old, w, hperf, hview.symm⟩

theorem during_select (h : ReadsOnly τ t p₀) (hr : (machine T hash).run p₀ ls = some p)
    {q : τ.Key → τ.Row → Bool} {rows : List (τ.Key × τ.Row)}
    (hx : ⟨t, .sql (.select τ q), .ok rows⟩ ∈ p.world.own t) :
    (machine T hash).During p₀ ls t (Reader.Selects τ q rows) := by
  obtain ⟨old, w, hperf⟩ := Machine.performed_of_mem h.own hr hx
  obtain ⟨c, s, hexec⟩ := hperf.exec
  have hperm := (exec_selectTable hexec).2 rows rfl
  refine ⟨_, old, w, hperf, (hperm.map Prod.fst).nodup_iff.mpr (Table.nodup_scan q), fun r => ?_⟩
  rw [hperm.mem_iff, Table.mem_scan, Table.view_of_not_holds (h.not_holds hperf r.1)]

end ReadsOnly

/-! ### Requests that write nothing -/

/-- An operation that leaves no row held. -/
def ReadOnly : Op → Prop
  | .sql (.get ..) | .sql (.select ..) | .sql .commit | .sql .rollback | .redisGet _ |
    .utcNow => True
  | _ => False

theorem ReadOnly.leaves (o : Op) (ho : ReadOnly o) : Leaves τ o := by
  unfold ReadOnly at ho
  split at ho
  · trivial
  · trivial
  · trivial
  · trivial
  · trivial
  · trivial
  · exact ho.elim

/-- Process `t` is about to run a program that only reads. -/
structure Reader (t : T) (p : Pool T Op Op.Res Exc α (State T)) : Prop where
  only : (p.prog t).Only ReadOnly
  hold : ∀ τ k, ¬ (p.world.state.db τ).Holds t k
  own : p.world.own t = []

theorem Reader.readsOnly (h : Reader t p₀) (τ : Tbl) : ReadsOnly τ t p₀ :=
  ⟨h.only.mono ReadOnly.leaves, h.hold τ, h.own⟩

/-! ### What a request has been told -/

/-- The operation was answered so. -/
def Seen (t : T) (o : Op) (a : o.Res) (w : BackendWorld T) : Prop := ⟨t, o, .ok a⟩ ∈ w.own t

/-- What has happened so far says so, and it is not forgotten. -/
def Known (t : T) (A : BackendWorld T → Prop) : Prop :=
  ∀ w w' : BackendWorld T, (∀ x ∈ w.own t, x ∈ w'.own t) → A w → A w'

variable {A B : BackendWorld T → Prop} {β : Type}

theorem Known.true : Known t fun _ : BackendWorld T => True := fun _ _ _ h => h

theorem Known.const (P : Prop) : Known t fun _ : BackendWorld T => P := fun _ _ _ h => h

theorem Known.and (hA : Known t A) (hB : Known t B) : Known t fun w => A w ∧ B w :=
  fun w w' h hw => ⟨hA w w' h hw.1, hB w w' h hw.2⟩

theorem Known.or (hA : Known t A) (hB : Known t B) : Known t fun w => A w ∨ B w :=
  fun w w' h hw => hw.imp (hA w w' h) (hB w w' h)

theorem Known.exists {A : β → BackendWorld T → Prop} (hA : ∀ b, Known t (A b)) :
    Known t fun w => ∃ b, A b w := by
  intro w w' h hw
  obtain ⟨b, hb⟩ := hw
  exact ⟨b, hA b w w' h hb⟩

theorem known_seen {o : Op} {a : o.Res} : Known t (Seen t o a) := fun _ _ h hw => h _ hw

theorem Known.after (hA : Known t A) {o : Op} {r : Except Exc o.Res} (hw : A w) :
    A (w.after t o r s) := by
  refine hA w _ (fun x hx => ?_) hw
  rw [World.own_after]
  exact List.mem_cons_of_mem _ hx

theorem Known.stable {K : Contract (machine T hash)} (hA : Known t A) : K.Stable t A := by
  intro w w' hi hi' ho hw
  have hown : ∀ x ∈ w.own t, x ∈ w'.own t := fun x hx =>
    Contract.Stable.history (K := K) (x ∈ ·) w w' hi hi' ho hx
  exact hA w w' hown hw

/-- The exception is one that an operation raised. -/
abbrev Answered (t : T) (e : Exc) (w : BackendWorld T) : Prop := Contract.Raised t e w

theorem known_answered {e : Exc} : Known t (Answered t e) := by
  intro w w' h hw
  obtain ⟨x, hx, hproc, hor⟩ := hw
  exact ⟨x, (World.mem_own.mp (h x (World.mem_own.mpr ⟨hx, hproc⟩))).1, hproc, hor⟩

/-- An operation of the request has raised. -/
def Failed (t : T) (w : BackendWorld T) : Prop := ∃ e, Answered t e w

theorem known_failed : Known t (Failed (T := T) t) := .exists fun _ => known_answered

/-- Asking: what is answered is known from then on. -/
theorem safe_ask {o : Op} (hA : Known t A) :
    (Contract.free (machine T hash)).Safe t (Prog.perform o) A (fun a w => A w ∧ Seen t o a w)
      fun _ => Failed t := by
  refine Contract.Safe.perform (fun a => (hA.and known_seen).stable) (fun e => known_failed.stable)
    fun w c r s _ hw _ _ => ⟨trivial, trivial, ?_⟩
  cases r with
  | ok a =>
    refine ⟨hA.after hw, ?_⟩
    rw [Seen, World.own_after]
    exact List.mem_cons_self
  | error e => exact ⟨e, _, List.mem_cons_self, rfl, o, rfl⟩

/-- The same, beside the exceptions of the request itself. -/
theorem safe_askOr {o : Op} {R : Exc → BackendWorld T → Prop} (hA : Known t A) :
    (Contract.free (machine T hash)).Safe t (Prog.perform o) A (fun a w => A w ∧ Seen t o a w)
      fun e w => R e w ∨ Failed t w :=
  (safe_ask hA).mono (fun _ _ hw => hw) (fun _ _ _ hw => hw) fun _ _ _ => .inr

theorem safe_keep (o : Op) (hA : Known t A) :
    (Contract.free (machine T hash)).Safe t (Prog.perform o) A (fun _ => A) fun _ => Failed t :=
  (safe_ask hA).mono (fun _ _ hw => hw) (fun _ _ _ hw => hw.1) fun _ _ _ hw => hw

theorem safe_closeReading (hA : Known t A) (r : Except Exc α) :
    (Contract.free (machine T hash)).Safe t (Py.closeSession r) A (fun _ => A)
      fun _ => Failed t := by
  refine Contract.Safe.tryFinally (Q := fun _ => A) (R := fun _ => Failed t) ?_
    (fun _ => safe_keep _ hA) fun e => safe_keep _ known_failed
  cases r with
  | ok a =>
    refine Py.safe_exceptException (safe_keep _ hA) (fun e _ => ?_) fun _ _ _ _ hw => hw
    exact Contract.Safe.bind (safe_keep _ known_failed) fun _ _ _ hw => hw
  | error e =>
    show (Contract.free (machine T hash)).Safe t (if _ then _ else _) _ _ _
    split
    · exact safe_keep _ hA
    · exact fun _ _ hw => hw

/-- The session of a request that only reads is closed, and what is known stays known. -/
theorem safe_readSession {body : Py α} {Q : α → BackendWorld T → Prop}
    {R : Exc → BackendWorld T → Prop} (hQ : ∀ a, Known t (Q a)) (hR : ∀ e, Known t (R e))
    (h : (Contract.free (machine T hash)).Safe t body A Q fun e w => R e w ∨ Failed t w) :
    (Contract.free (machine T hash)).Safe t (Py.getDbSession body) A Q
      fun e w => R e w ∨ Failed t w := by
  refine Contract.Safe.bind (Py.safe_attempt h) fun r => ?_
  cases r with
  | ok a =>
    exact Contract.Safe.bind ((safe_closeReading (hQ a) _).mono (fun _ _ hw => hw)
      (fun _ _ _ hw => hw) fun _ _ _ => .inr) fun _ _ _ hw => hw
  | error e =>
    exact Contract.Safe.bind ((safe_closeReading ((hR e).or known_failed) _).mono
      (fun _ _ hw => hw) (fun _ _ _ hw => hw) fun _ _ _ => .inr) fun _ _ _ hw => hw

theorem only_session {P : Op → Prop} {body : Py α} (h : body.Only P) (hcommit : P (.sql .commit))
    (hrollback : P (.sql .rollback)) : (Py.getDbSession body).Only P := by
  refine Prog.Only.bind (Py.only_attempt h) fun r => ?_
  refine Prog.Only.bind (Py.only_closeSession (fun _ _ => hcommit) hrollback) fun _ => ?_
  cases r <;> trivial

theorem only_readSession {body : Py α} (h : body.Only ReadOnly) :
    (Py.getDbSession body).Only ReadOnly := only_session h trivial trivial

end Chatspace
