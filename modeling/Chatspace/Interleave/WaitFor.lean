import Mathlib.Logic.Relation
import Mathlib.Order.Basic

/-!
# Who waits for whom

Processes hold resources and each wants one at a time.  A process waits for the one that holds what
it wants; a deadlock is a cycle of this relation.

* `WaitsFor` — the relation, at one moment; `deadlock_of_mutual` — its shortest cycle;
* `acyclic_of_ordered` — **who asks for resources in order waits in no cycle**: the order may change
  from one moment to the next.
-/

namespace Interleave

variable {T R ρ : Type} {wants : T → Option R} {holder : R → Option T} {t t' : T}

/-- Process `t` wants what another process `t'` holds. -/
def WaitsFor (wants : T → Option R) (holder : R → Option T) (t t' : T) : Prop :=
  t' ≠ t ∧ ∃ x, wants t = some x ∧ holder x = some t'

theorem waitsFor_iff :
    WaitsFor wants holder t t' ↔ t' ≠ t ∧ (wants t).bind holder = some t' := by
  simp [WaitsFor, Option.bind_eq_some_iff]

instance [DecidableEq T] : Decidable (WaitsFor wants holder t t') :=
  decidable_of_iff _ waitsFor_iff.symm

/-- No process waits, through others, for itself. -/
def NoDeadlock (wants : T → Option R) (holder : R → Option T) : Prop :=
  ∀ t, ¬ Relation.TransGen (WaitsFor wants holder) t t

/-- Two processes that wait for one another. -/
theorem deadlock_of_mutual (h : WaitsFor wants holder t t') (h' : WaitsFor wants holder t' t) :
    ¬ NoDeadlock wants holder := by
  intro hno
  exact hno t (.tail (.single h) h')

/-- A process that has to wait wants something that comes after all it holds. -/
def Ordered [LT ρ] (wants : T → Option R) (holder : R → Option T) (rank : R → ρ) : Prop :=
  ∀ t t' x, wants t = some x → holder x = some t' → t' ≠ t →
    ∀ y, holder y = some t → rank y < rank x

variable [Preorder ρ] {rank : R → ρ}

/-- Along a chain of waiting processes what is wanted comes later and later. -/
theorem rank_lt_of_waits (h : Ordered wants holder rank)
    (hw : Relation.TransGen (WaitsFor wants holder) t t') :
    ∃ x, wants t = some x ∧
      ∀ y t'', wants t' = some y → holder y = some t'' → t'' ≠ t' → rank x < rank y := by
  induction hw with
  | single hw =>
    obtain ⟨-, x, hx, hheld⟩ := hw
    exact ⟨x, hx, fun y t'' hy hholder hne => h _ t'' y hy hholder hne x hheld⟩
  | tail _ hw ih =>
    obtain ⟨x, hx, hlater⟩ := ih
    obtain ⟨hne, y, hy, hheld⟩ := hw
    have hxy : rank x < rank y := hlater y _ hy hheld hne
    refine ⟨x, hx, fun z t'' hz hholder hne' => lt_trans hxy ?_⟩
    exact h _ t'' z hz hholder hne' y hheld

/-- **Who asks in order does not wait in a cycle.** -/
theorem acyclic_of_ordered (h : Ordered wants holder rank) : NoDeadlock wants holder := by
  intro t hw
  obtain ⟨x, hx, hlater⟩ := rank_lt_of_waits h hw
  have hfirst : ∃ t', WaitsFor wants holder t t' := by
    cases hw using Relation.TransGen.head_induction_on with
    | single hw => exact ⟨_, hw⟩
    | head hw _ _ => exact ⟨_, hw⟩
  obtain ⟨t', hne, y, hy, hheld⟩ := hfirst
  obtain rfl : x = y := Option.some.inj (hx.symm.trans hy)
  exact lt_irrefl _ (hlater x t' hy hheld hne)

end Interleave
