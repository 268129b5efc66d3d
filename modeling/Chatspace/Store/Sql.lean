import Chatspace.Store.Table

/-!
# Statements of a transaction under READ COMMITTED

A database is a family of tables.  A `Stmt` is what a transaction sends it: reads, row locks,
single-row writes, commit and rollback; a statement that touches several rows is a loop of these.
`exec` answers `none` where the statement waits for a row held by another transaction, and
evaluates its condition on the row as it is when the wait is over.  The environment's `Choice`
decides whether the statement fails (without effect), the order in which rows come back, and the
transaction's timestamp.

* `exec` — the statements;
* `exec_select`, `exec_get`, `exec_lock`, `exec_update`, `exec_insert`, `exec_delete`,
  `exec_commit`, `exec_rollback` — what each statement can have done, one lemma a statement;
* `exec_keeps` — **no statement touches what another transaction holds**;
* `exec_committed` — only a commit changes the committed rows.
-/

namespace Store

/-- The tables of a database: the type of their keys and of their rows. -/
structure Schema where
  Tbl : Type
  Key : Tbl → Type
  Row : Tbl → Type
  [decTbl : DecidableEq Tbl]
  [decKey : ∀ τ, DecidableEq (Key τ)]

attribute [instance] Schema.decTbl Schema.decKey

/-- Every table of the schema. -/
def Db (T : Type) (S : Schema) : Type := (τ : S.Tbl) → Table T (S.Key τ) (S.Row τ)

namespace Db

variable {T : Type} {S : Schema}

/-- Replace one table. -/
def set (d : Db T S) (τ : S.Tbl) (tb : Table T (S.Key τ) (S.Row τ)) : Db T S :=
  Function.update d τ tb

@[simp] theorem set_self (d : Db T S) (τ : S.Tbl) (tb : Table T (S.Key τ) (S.Row τ)) :
    d.set τ tb τ = tb := Function.update_self ..

theorem set_of_ne {τ τ' : S.Tbl} (h : τ' ≠ τ) (d : Db T S) (tb : Table T (S.Key τ) (S.Row τ)) :
    d.set τ tb τ' = d τ' := Function.update_of_ne h ..

variable [DecidableEq T]

def commit (d : Db T S) (t : T) : Db T S := fun τ => (d τ).commit t

def rollback (d : Db T S) (t : T) : Db T S := fun τ => (d τ).rollback t

@[simp] theorem commit_apply (d : Db T S) (t : T) (τ : S.Tbl) : d.commit t τ = (d τ).commit t := rfl

@[simp] theorem rollback_apply (d : Db T S) (t : T) (τ : S.Tbl) :
    d.rollback t τ = (d τ).rollback t := rfl

end Db

/-- A statement of a transaction. -/
inductive Stmt (S : Schema) where
  /-- `SELECT … WHERE p`. -/
  | select (τ : S.Tbl) (p : S.Key τ → S.Row τ → Bool)
  /-- `SELECT … WHERE pk = k`. -/
  | get (τ : S.Tbl) (k : S.Key τ)
  /-- One row of `SELECT … WHERE p FOR UPDATE`. -/
  | lock (τ : S.Tbl) (k : S.Key τ) (p : S.Row τ → Bool)
  /-- `UPDATE … SET f WHERE pk = k AND p`. -/
  | update (τ : S.Tbl) (k : S.Key τ) (p : S.Row τ → Bool) (f : S.Row τ → S.Row τ)
  /-- `INSERT` under key `k`; columns may default to the transaction's timestamp. -/
  | insert (τ : S.Tbl) (k : S.Key τ) (f : ℕ → S.Row τ)
  /-- `DELETE … WHERE pk = k`. -/
  | delete (τ : S.Tbl) (k : S.Key τ)
  | commit
  | rollback

/-- Rows; the row; the row if it satisfies the condition; whether a row was updated; the row
inserted, if the key was new; whether a row was deleted; nothing. -/
abbrev Stmt.Res {S : Schema} : Stmt S → Type
  | .select τ _ => List (S.Key τ × S.Row τ)
  | .get τ _ => Option (S.Row τ)
  | .lock τ _ _ => Option (S.Row τ)
  | .update .. => Bool
  | .insert τ _ _ => Option (S.Row τ)
  | .delete .. => Bool
  | .commit => Unit
  | .rollback => Unit

/-- What the environment decides about a statement. -/
inductive Choice (E : Type) where
  | ok (order : List ℕ) (now : ℕ)
  | fail (e : E)

/-- The elements of `xs` in the order of the positions `order`. -/
def shuffle {α : Type} (order : List ℕ) (xs : List α) : List α :=
  if order.Perm (List.range xs.length) then order.filterMap (xs[·]?) else xs

theorem filterMap_getElem_range {α : Type} (xs : List α) :
    (List.range xs.length).filterMap (xs[·]?) = xs := by
  induction xs with
  | nil => rfl
  | cons x xs ih =>
    rw [List.length_cons, List.range_succ_eq_map, List.filterMap_cons, List.filterMap_map]
    simp only [List.getElem?_cons_zero]
    exact congrArg (x :: ·) ih

theorem shuffle_perm {α : Type} (order : List ℕ) (xs : List α) : (shuffle order xs).Perm xs := by
  unfold shuffle
  split
  · rename_i h
    exact (h.filterMap _).trans (.of_eq (filterMap_getElem_range xs))
  · exact .refl xs

variable {T E : Type} {S : Schema} [DecidableEq T]

/-- A statement of transaction `t`; `none` while it waits. -/
def exec (t : T) : (o : Stmt S) → Choice E → Db T S → Option (Except E o.Res × Db T S)
  | _, .fail e, d => some (.error e, d)
  | .select τ p, .ok order _, d => some (.ok (shuffle order ((d τ).scan t p)), d)
  | .get τ k, .ok .., d => some (.ok ((d τ).view t k), d)
  | .lock τ k p, .ok .., d =>
    if (d τ).Free t k then
      match (d τ).view t k with
      | some x => some (.ok (if p x then some x else none), d.set τ ((d τ).lock t k))
      | none => some (.ok none, d)
    else none
  | .update τ k p f, .ok .., d =>
    if (d τ).Free t k then
      match (d τ).view t k with
      | some x =>
        if p x then some (.ok true, d.set τ ((d τ).write t k (some (f x))))
        else some (.ok false, d)
      | none => some (.ok false, d)
    else none
  | .insert τ k f, .ok _ now, d =>
    if (d τ).Free t k then
      match (d τ).view t k with
      | some _ => some (.ok none, d)
      | none => some (.ok (some (f now)), d.set τ ((d τ).write t k (some (f now))))
    -- a row that is only locked by another transaction exists: no need to wait for its outcome
    else if ((d τ).hold k).bind Hold.pending = none then some (.ok none, d)
    else none
  | .delete τ k, .ok .., d =>
    if (d τ).Free t k then
      match (d τ).view t k with
      | some _ => some (.ok true, d.set τ ((d τ).write t k none))
      | none => some (.ok false, d)
    else none
  | .commit, .ok .., d => some (.ok (), d.commit t)
  | .rollback, .ok .., d => some (.ok (), d.rollback t)

/-! ### What each statement can have done -/

variable {t t' : T} {c : Choice E} {d d' : Db T S} {τ : S.Tbl} {k : S.Key τ}

theorem exec_select {p : S.Key τ → S.Row τ → Bool} {r : Except E (List (S.Key τ × S.Row τ))}
    (h : exec t (.select τ p) c d = some (r, d')) :
    d' = d ∧ ∀ rows, r = .ok rows → rows.Perm ((d τ).scan t p) := by
  cases c with
  | fail e =>
    cases h
    exact ⟨rfl, fun _ hr => nomatch hr⟩
  | ok order now =>
    cases h
    refine ⟨rfl, fun rows hr => ?_⟩
    cases hr
    exact shuffle_perm ..

theorem exec_get {r : Except E (Option (S.Row τ))} (h : exec t (.get τ k) c d = some (r, d')) :
    d' = d ∧ ∀ x, r = .ok x → x = (d τ).view t k := by
  cases c with
  | fail e =>
    cases h
    exact ⟨rfl, fun _ hr => nomatch hr⟩
  | ok order now =>
    cases h
    refine ⟨rfl, fun x hr => ?_⟩
    cases hr
    rfl

theorem exec_lock {p : S.Row τ → Bool} {r : Except E (Option (S.Row τ))}
    (h : exec t (.lock τ k p) c d = some (r, d')) :
    (d' = d ∧ ∀ x, r = .ok x → x = none ∧ (d τ).view t k = none) ∨
      ∃ x, (d τ).Free t k ∧ (d τ).view t k = some x ∧ d' = d.set τ ((d τ).lock t k) ∧
        r = .ok (if p x then some x else none) := by
  cases c with
  | fail e =>
    cases h
    exact .inl ⟨rfl, fun _ hr => nomatch hr⟩
  | ok order now =>
    simp only [exec] at h
    split at h
    · rename_i hf
      split at h
      · rename_i x hx
        cases h
        exact .inr ⟨x, hf, hx, rfl, rfl⟩
      · rename_i hx
        cases h
        refine .inl ⟨rfl, fun x hr => ?_⟩
        cases hr
        exact ⟨rfl, hx⟩
    · cases h

theorem exec_update {p : S.Row τ → Bool} {f : S.Row τ → S.Row τ} {r : Except E Bool}
    (h : exec t (.update τ k p f) c d = some (r, d')) :
    (d' = d ∧ r ≠ .ok true) ∨
      ∃ x, (d τ).Free t k ∧ (d τ).view t k = some x ∧ p x = true ∧
        d' = d.set τ ((d τ).write t k (some (f x))) ∧ r = .ok true := by
  cases c with
  | fail e =>
    cases h
    exact .inl ⟨rfl, by simp⟩
  | ok order now =>
    simp only [exec] at h
    split at h
    · rename_i hf
      split at h
      · rename_i x hx
        split at h
        · rename_i hp
          cases h
          exact .inr ⟨x, hf, hx, hp, rfl, rfl⟩
        · cases h
          exact .inl ⟨rfl, by simp⟩
      · cases h
        exact .inl ⟨rfl, by simp⟩
    · cases h

theorem exec_insert {f : ℕ → S.Row τ} {r : Except E (Option (S.Row τ))}
    (h : exec t (.insert τ k f) c d = some (r, d')) :
    (d' = d ∧ ∀ x, r ≠ .ok (some x)) ∨
      ∃ now, (d τ).Free t k ∧ (d τ).view t k = none ∧
        d' = d.set τ ((d τ).write t k (some (f now))) ∧ r = .ok (some (f now)) := by
  cases c with
  | fail e =>
    cases h
    exact .inl ⟨rfl, by simp⟩
  | ok order now =>
    simp only [exec] at h
    split at h
    · rename_i hf
      split at h
      · cases h
        exact .inl ⟨rfl, by simp⟩
      · rename_i hx
        cases h
        exact .inr ⟨now, hf, hx, rfl, rfl⟩
    · split at h
      · cases h
        exact .inl ⟨rfl, by simp⟩
      · cases h

theorem exec_delete {r : Except E Bool} (h : exec t (.delete τ k) c d = some (r, d')) :
    (d' = d ∧ r ≠ .ok true) ∨
      ∃ x, (d τ).Free t k ∧ (d τ).view t k = some x ∧
        d' = d.set τ ((d τ).write t k none) ∧ r = .ok true := by
  cases c with
  | fail e =>
    cases h
    exact .inl ⟨rfl, by simp⟩
  | ok order now =>
    simp only [exec] at h
    split at h
    · rename_i hf
      split at h
      · rename_i x hx
        cases h
        exact .inr ⟨x, hf, hx, rfl, rfl⟩
      · cases h
        exact .inl ⟨rfl, by simp⟩
    · cases h

/-- A deletion that matches nothing finds no row. -/
theorem exec_delete_none (h : exec t (.delete τ k) c d = some (.ok false, d')) :
    (d τ).view t k = none := by
  cases c with
  | fail e => cases h
  | ok order now =>
    simp only [exec] at h
    split at h
    · split at h
      · cases h
      · assumption
    · cases h

theorem exec_commit {r : Except E Unit} (h : exec t .commit c d = some (r, d')) :
    (d' = d ∧ r ≠ .ok ()) ∨ (d' = d.commit t ∧ r = .ok ()) := by
  cases c with
  | fail e =>
    cases h
    exact .inl ⟨rfl, by simp⟩
  | ok order now =>
    cases h
    exact .inr ⟨rfl, rfl⟩

theorem exec_rollback {r : Except E Unit} (h : exec t .rollback c d = some (r, d')) :
    (d' = d ∧ r ≠ .ok ()) ∨ (d' = d.rollback t ∧ r = .ok ()) := by
  cases c with
  | fail e =>
    cases h
    exact .inl ⟨rfl, by simp⟩
  | ok order now =>
    cases h
    exact .inr ⟨rfl, rfl⟩

/-- A statement raises exactly when the environment makes it fail. -/
theorem exec_answer {o : Stmt S} {r : Except E o.Res} (h : exec t o c d = some (r, d')) :
    (∃ a order now, r = .ok a ∧ c = .ok order now) ∨ ∃ e, r = .error e ∧ c = .fail e := by
  cases c with
  | fail e =>
    cases h
    exact .inr ⟨e, rfl, rfl⟩
  | ok order now =>
    refine .inl ?_
    cases o <;> simp only [exec] at h <;> (repeat' split at h) <;> cases h <;>
      exact ⟨_, order, now, rfl, rfl⟩

/-! ### What no statement can do -/

omit [DecidableEq T] in
theorem keeps_set {tb : Table T (S.Key τ) (S.Row τ)} (h : (d τ).Keeps t tb) (τ' : S.Tbl) :
    (d τ').Keeps t (d.set τ tb τ') := by
  by_cases hτ : τ' = τ
  · subst hτ
    rw [Db.set_self]
    exact h
  · rw [Db.set_of_ne hτ]
    exact .refl

/-- **Frame.** What another transaction holds is kept by every statement. -/
theorem exec_keeps {o : Stmt S} {r : Except E o.Res} (hne : t' ≠ t)
    (h : exec t' o c d = some (r, d')) (τ' : S.Tbl) : (d τ').Keeps t (d' τ') := by
  cases o with
  | select τ p =>
    rw [(exec_select h).1]
    exact .refl
  | get τ k =>
    rw [(exec_get h).1]
    exact .refl
  | lock τ k p =>
    obtain ⟨rfl, -⟩ | ⟨x, hf, -, rfl, -⟩ := exec_lock h
    · exact .refl
    · exact keeps_set (.lock hne hf) τ'
  | update τ k p f =>
    obtain ⟨rfl, -⟩ | ⟨x, hf, -, -, rfl, -⟩ := exec_update h
    · exact .refl
    · exact keeps_set (.write hne hf) τ'
  | insert τ k f =>
    obtain ⟨rfl, -⟩ | ⟨now, hf, -, rfl, -⟩ := exec_insert h
    · exact .refl
    · exact keeps_set (.write hne hf) τ'
  | delete τ k =>
    obtain ⟨rfl, -⟩ | ⟨x, hf, -, rfl, -⟩ := exec_delete h
    · exact .refl
    · exact keeps_set (.write hne hf) τ'
  | commit =>
    obtain ⟨rfl, -⟩ | ⟨rfl, -⟩ := exec_commit h
    · exact .refl
    · exact .commit hne
  | rollback =>
    obtain ⟨rfl, -⟩ | ⟨rfl, -⟩ := exec_rollback h
    · exact .refl
    · exact .rollback hne

omit [DecidableEq T] in
theorem committed_set {tb : Table T (S.Key τ) (S.Row τ)}
    (h : tb.committed = (d τ).committed) (τ' : S.Tbl) :
    (d.set τ tb τ').committed = (d τ').committed := by
  by_cases hτ : τ' = τ
  · subst hτ
    rw [Db.set_self, h]
  · rw [Db.set_of_ne hτ]

/-- Only a commit changes the committed rows. -/
theorem exec_committed {o : Stmt S} {r : Except E o.Res} (ho : o ≠ .commit)
    (h : exec t o c d = some (r, d')) (τ' : S.Tbl) :
    (d' τ').committed = (d τ').committed := by
  cases o with
  | select τ p => rw [(exec_select h).1]
  | get τ k => rw [(exec_get h).1]
  | lock τ k p =>
    obtain ⟨rfl, -⟩ | ⟨x, -, -, rfl, -⟩ := exec_lock h
    · rfl
    · exact committed_set Table.committed_lock τ'
  | update τ k p f =>
    obtain ⟨rfl, -⟩ | ⟨x, -, -, -, rfl, -⟩ := exec_update h
    · rfl
    · exact committed_set Table.committed_write τ'
  | insert τ k f =>
    obtain ⟨rfl, -⟩ | ⟨now, -, -, rfl, -⟩ := exec_insert h
    · rfl
    · exact committed_set Table.committed_write τ'
  | delete τ k =>
    obtain ⟨rfl, -⟩ | ⟨x, -, -, rfl, -⟩ := exec_delete h
    · rfl
    · exact committed_set Table.committed_write τ'
  | commit => exact absurd rfl ho
  | rollback =>
    obtain ⟨rfl, -⟩ | ⟨rfl, -⟩ := exec_rollback h <;> rfl

/-- A transaction changes no committed row but those it holds. -/
theorem exec_committed_of_not_holds {o : Stmt S} {r : Except E o.Res}
    (h : exec t o c d = some (r, d')) (hk : ¬ (d τ).Holds t k) :
    (d' τ).committed k = (d τ).committed k := by
  by_cases ho : o = .commit
  · subst ho
    obtain ⟨rfl, -⟩ | ⟨rfl, -⟩ := exec_commit h
    · rfl
    · exact Table.view_of_not_holds hk
  · rw [exec_committed ho h]

omit [DecidableEq T] in
theorem holds_set {tb : Table T (S.Key τ) (S.Row τ)} (h : ∀ k, (d τ).Holds t k → tb.Holds t k)
    {τ' : S.Tbl} {k' : S.Key τ'} (hk : (d τ').Holds t k') : (d.set τ tb τ').Holds t k' := by
  by_cases hτ : τ' = τ
  · subst hτ
    rw [Db.set_self]
    exact h k' hk
  · rw [Db.set_of_ne hτ]
    exact hk

/-- A transaction lets go of a row only when it ends. -/
theorem exec_holds {o : Stmt S} {r : Except E o.Res} (hc : o ≠ .commit) (hr : o ≠ .rollback)
    (h : exec t o c d = some (r, d')) {τ' : S.Tbl} {k' : S.Key τ'} (hk : (d τ').Holds t k') :
    (d' τ').Holds t k' := by
  cases o with
  | select τ p =>
    rw [(exec_select h).1]
    exact hk
  | get τ k =>
    rw [(exec_get h).1]
    exact hk
  | lock τ k p =>
    obtain ⟨rfl, -⟩ | ⟨x, -, -, rfl, -⟩ := exec_lock h
    · exact hk
    · exact holds_set (fun _ => Table.holds_put) hk
  | update τ k p f =>
    obtain ⟨rfl, -⟩ | ⟨x, -, -, -, rfl, -⟩ := exec_update h
    · exact hk
    · exact holds_set (fun _ => Table.holds_put) hk
  | insert τ k f =>
    obtain ⟨rfl, -⟩ | ⟨now, -, -, rfl, -⟩ := exec_insert h
    · exact hk
    · exact holds_set (fun _ => Table.holds_put) hk
  | delete τ k =>
    obtain ⟨rfl, -⟩ | ⟨x, -, -, rfl, -⟩ := exec_delete h
    · exact hk
    · exact holds_set (fun _ => Table.holds_put) hk
  | commit => exact absurd rfl hc
  | rollback => exact absurd rfl hr

end Store
