import Chatspace.Backend.Machine

/-!
# One table of the database, operation by operation

What an operation of the machine does to the table it names, and that it leaves the rest of the
state alone.

* `exec_updateTable`, `exec_insertTable`, `exec_deleteTable`, `exec_lockTable`, `exec_selectTable`,
  `exec_getTable`, `exec_commitAll`, `exec_rollbackAll` — what each statement has done;
* `exec_spares` — the operations that leave a table alone;
* `stable_mine` — **what a transaction knows of the rows it holds is not changed by the others;**
* `Quiet`, `Kept` — the operations that leave the tables watched alone, and what they keep;
* `CommittedWhen` — what a transaction had done when it committed;
* `Unwritten`, `afterCommit` — what a transaction has not written, and what its commit leaves.
-/

namespace Chatspace

open Interleave Store

variable {T : Type} {hash : RawToken → TokenHash} {t : T} {c : Choice}
  {s s' : State T} {τ τ' : Tbl} {k : τ.Key} {tb : Table T τ.Key τ.Row}

/-- Replace one table. -/
def State.set (s : State T) (τ : Tbl) (tb : Table T τ.Key τ.Row) : State T :=
  { s with db := s.db.set τ tb }

@[simp] theorem State.set_db : (s.set τ tb).db τ = tb := Db.set_self s.db τ tb

theorem State.set_db_of_ne (h : τ' ≠ τ) : (s.set τ tb).db τ' = s.db τ' := Db.set_of_ne h s.db tb

@[simp] theorem State.set_published : (s.set τ tb).published = s.published := rfl

@[simp] theorem State.set_purged : (s.set τ tb).purged = s.purged := rfl

@[simp] theorem State.set_clock : (s.set τ tb).clock = s.clock := rfl

variable [DecidableEq T]

theorem exec_updateTable {p : τ.Row → Bool} {f : τ.Row → τ.Row} {r : Except Exc Bool}
    (h : (machine T hash).exec t (.sql (.update τ k p f)) c s = some (r, s')) :
    (s' = s ∧ r ≠ .ok true) ∨
      ∃ x, (s.db τ).Free t k ∧ (s.db τ).view t k = some x ∧ p x = true ∧
        s' = s.set τ ((s.db τ).write t k (some (f x))) ∧ r = .ok true := by
  obtain ⟨d, hd, rfl⟩ := exec_sql h
  obtain ⟨rfl, hr⟩ | ⟨x, hf, hx, hp, rfl, rfl⟩ := exec_update hd
  · exact .inl ⟨rfl, hr⟩
  · exact .inr ⟨x, hf, hx, hp, rfl, rfl⟩

theorem exec_insertTable {f : ℕ → τ.Row} {r : Except Exc (Option τ.Row)}
    (h : (machine T hash).exec t (.sql (.insert τ k f)) c s = some (r, s')) :
    (s' = s ∧ ∀ x, r ≠ .ok (some x)) ∨
      ∃ now, (s.db τ).Free t k ∧ (s.db τ).view t k = none ∧
        s' = s.set τ ((s.db τ).write t k (some (f now))) ∧ r = .ok (some (f now)) := by
  obtain ⟨d, hd, rfl⟩ := exec_sql h
  obtain ⟨rfl, hr⟩ | ⟨now, hf, hx, rfl, rfl⟩ := exec_insert hd
  · exact .inl ⟨rfl, hr⟩
  · exact .inr ⟨now, hf, hx, rfl, rfl⟩

theorem exec_deleteTable {r : Except Exc Bool}
    (h : (machine T hash).exec t (.sql (.delete τ k)) c s = some (r, s')) :
    (s' = s ∧ r ≠ .ok true) ∨
      ∃ x, (s.db τ).Free t k ∧ (s.db τ).view t k = some x ∧
        s' = s.set τ ((s.db τ).write t k none) ∧ r = .ok true := by
  obtain ⟨d, hd, rfl⟩ := exec_sql h
  obtain ⟨rfl, hr⟩ | ⟨x, hf, hx, rfl, rfl⟩ := exec_delete hd
  · exact .inl ⟨rfl, hr⟩
  · exact .inr ⟨x, hf, hx, rfl, rfl⟩

theorem exec_lockTable {p : τ.Row → Bool} {r : Except Exc (Option τ.Row)}
    (h : (machine T hash).exec t (.sql (.lock τ k p)) c s = some (r, s')) :
    (s' = s ∧ ∀ x, r = .ok x → x = none ∧ (s.db τ).view t k = none) ∨
      ∃ x, (s.db τ).Free t k ∧ (s.db τ).view t k = some x ∧ s' = s.set τ ((s.db τ).lock t k) ∧
        r = .ok (if p x then some x else none) := by
  obtain ⟨d, hd, rfl⟩ := exec_sql h
  obtain ⟨rfl, hr⟩ | ⟨x, hf, hx, rfl, rfl⟩ := exec_lock hd
  · exact .inl ⟨rfl, hr⟩
  · exact .inr ⟨x, hf, hx, rfl, rfl⟩

theorem exec_selectTable {p : τ.Key → τ.Row → Bool} {r : Except Exc (List (τ.Key × τ.Row))}
    (h : (machine T hash).exec t (.sql (.select τ p)) c s = some (r, s')) :
    s' = s ∧ ∀ rows, r = .ok rows → rows.Perm ((s.db τ).scan t p) := by
  obtain ⟨d, hd, rfl⟩ := exec_sql h
  obtain ⟨rfl, hr⟩ := exec_select hd
  exact ⟨rfl, hr⟩

theorem exec_getTable {r : Except Exc (Option τ.Row)}
    (h : (machine T hash).exec t (.sql (.get τ k)) c s = some (r, s')) :
    s' = s ∧ ∀ x, r = .ok x → x = (s.db τ).view t k := by
  obtain ⟨d, hd, rfl⟩ := exec_sql h
  obtain ⟨rfl, hr⟩ := exec_get hd
  exact ⟨rfl, hr⟩

theorem exec_commitAll {r : Except Exc Unit}
    (h : (machine T hash).exec t (.sql .commit) c s = some (r, s')) :
    (s' = s ∧ ∃ e, r = .error e) ∨ (s' = { s with db := s.db.commit t } ∧ r = .ok ()) := by
  obtain ⟨d, hd, rfl⟩ := exec_sql h
  obtain ⟨rfl, hr⟩ | ⟨rfl, rfl⟩ := exec_commit hd
  · refine .inl ⟨rfl, ?_⟩
    cases r with
    | ok a => exact absurd rfl hr
    | error e => exact ⟨e, rfl⟩
  · exact .inr ⟨rfl, rfl⟩

theorem exec_rollbackAll {r : Except Exc Unit}
    (h : (machine T hash).exec t (.sql .rollback) c s = some (r, s')) :
    (s' = s ∧ ∃ e, r = .error e) ∨ (s' = { s with db := s.db.rollback t } ∧ r = .ok ()) := by
  obtain ⟨d, hd, rfl⟩ := exec_sql h
  obtain ⟨rfl, hr⟩ | ⟨rfl, rfl⟩ := exec_rollback hd
  · refine .inl ⟨rfl, ?_⟩
    cases r with
    | ok a => exact absurd rfl hr
    | error e => exact ⟨e, rfl⟩
  · exact .inr ⟨rfl, rfl⟩

/-- The operations that leave table `τ` alone. -/
def Spares (τ : Tbl) : Op → Prop
  | .sql (.lock τ' ..) | .sql (.update τ' ..) | .sql (.insert τ' ..) | .sql (.delete τ' ..) => τ' ≠ τ
  | .sql .commit | .sql .rollback => False
  | _ => True

/-- An operation that spares a table leaves it as it is. -/
theorem exec_spares {o : Op} (ho : Spares τ o) {r : Except Exc o.Res}
    (h : (machine T hash).exec t o c s = some (r, s')) : s'.db τ = s.db τ := by
  obtain hd | ⟨q, r', rfl, -⟩ := exec_db h
  · rw [hd]
  · cases q with
    | select τ' p => rw [(exec_selectTable h).1]
    | get τ' k => rw [(exec_getTable h).1]
    | lock τ' k p =>
      obtain ⟨rfl, -⟩ | ⟨y, -, -, rfl, -⟩ := exec_lockTable h
      · rfl
      · exact State.set_db_of_ne (Ne.symm ho)
    | update τ' k p f =>
      obtain ⟨rfl, -⟩ | ⟨y, -, -, -, rfl, -⟩ := exec_updateTable h
      · rfl
      · exact State.set_db_of_ne (Ne.symm ho)
    | insert τ' k f =>
      obtain ⟨rfl, -⟩ | ⟨now, -, -, rfl, -⟩ := exec_insertTable h
      · rfl
      · exact State.set_db_of_ne (Ne.symm ho)
    | delete τ' k =>
      obtain ⟨rfl, -⟩ | ⟨y, -, -, rfl, -⟩ := exec_deleteTable h
      · rfl
      · exact State.set_db_of_ne (Ne.symm ho)
    | commit => exact ho.elim
    | rollback => exact ho.elim

/-- Only a commit changes what is committed. -/
theorem exec_committed_db {o : Op} (ho : o ≠ .sql .commit) {r : Except Exc o.Res}
    (h : (machine T hash).exec t o c s = some (r, s')) (τ : Tbl) :
    (s'.db τ).committed = (s.db τ).committed := by
  obtain hd | ⟨q, r', rfl, hd⟩ := exec_db h
  · rw [hd]
  · refine exec_committed (fun hq => ho ?_) hd τ
    rw [hq]

/-- What the operations leave alone besides the database. -/
theorem exec_rest {o : Op} {r : Except Exc o.Res}
    (h : (machine T hash).exec t o c s = some (r, s')) : s'.clock = s.clock ∧
      ((∀ m, o ≠ .deleteObject m) → s'.purged = s.purged) ∧
      ((∀ topic e, o ≠ .redisPublish topic e) → s'.published = s.published) := by
  cases o with
  | sql q =>
    rcases exec_sql h with ⟨d, -, rfl⟩
    exact ⟨rfl, fun _ => rfl, fun _ => rfl⟩
  | redisGet k =>
    rw [(exec_redisGet h).1]
    exact ⟨rfl, fun _ => rfl, fun _ => rfl⟩
  | redisSet k v ex =>
    rcases exec_redisSet h with ⟨rfl, -⟩ | rfl <;> exact ⟨rfl, fun _ => rfl, fun _ => rfl⟩
  | redisSetNx k v ex =>
    rcases exec_redisSetNx h with ⟨rfl, -⟩ | ⟨-, -, rfl⟩ <;> exact ⟨rfl, fun _ => rfl, fun _ => rfl⟩
  | redisDelete k =>
    rcases exec_redisDelete h with ⟨rfl, -⟩ | rfl <;> exact ⟨rfl, fun _ => rfl, fun _ => rfl⟩
  | redisPublish topic e =>
    rcases exec_redisPublish h with ⟨rfl, -⟩ | rfl
    · exact ⟨rfl, fun _ => rfl, fun _ => rfl⟩
    · exact ⟨rfl, fun _ => rfl, fun ho => absurd rfl (ho topic e)⟩
  | sendEmail =>
    rw [exec_sendEmail h]
    exact ⟨rfl, fun _ => rfl, fun _ => rfl⟩
  | deleteObject m =>
    rcases exec_deleteObject h with ⟨rfl, -⟩ | rfl
    · exact ⟨rfl, fun _ => rfl, fun _ => rfl⟩
    · exact ⟨rfl, fun ho => absurd rfl (ho m), fun _ => rfl⟩
  | sleep =>
    rw [exec_sleep h]
    exact ⟨rfl, fun _ => rfl, fun _ => rfl⟩
  | utcNow =>
    rw [(exec_utcNow h).2]
    exact ⟨rfl, fun _ => rfl, fun _ => rfl⟩
  | generateId =>
    rcases exec_generateId h with ⟨n, -, -, rfl⟩
    exact ⟨rfl, fun _ => rfl, fun _ => rfl⟩
  | tokenUrlsafe =>
    rcases exec_tokenUrlsafe h with ⟨n, -, -, rfl⟩
    exact ⟨rfl, fun _ => rfl, fun _ => rfl⟩

/-- No operation takes time. -/
theorem exec_clock {o : Op} {r : Except Exc o.Res}
    (h : (machine T hash).exec t o c s = some (r, s')) : s'.clock = s.clock := (exec_rest h).1

/-- Only the deletion of an object takes one out of storage. -/
theorem exec_purged {o : Op} (ho : ∀ m, o ≠ .deleteObject m) {r : Except Exc o.Res}
    (h : (machine T hash).exec t o c s = some (r, s')) : s'.purged = s.purged :=
  (exec_rest h).2.1 ho

/-- Only a publish publishes. -/
theorem exec_published {o : Op} (ho : ∀ topic e, o ≠ .redisPublish topic e) {r : Except Exc o.Res}
    (h : (machine T hash).exec t o c s = some (r, s')) : s'.published = s.published :=
  (exec_rest h).2.2 ho

/-! ### What a transaction knows -/

variable {K : Contract (machine T hash)} {A B : BackendWorld T → Prop}

/-- What a transaction knows of the rows it holds is not changed by the others. -/
theorem stable_mine {P : (τ.Key → Option (Option (Option τ.Row) × Option τ.Row)) → Prop} :
    K.Stable t fun w => P ((w.state.db τ).mine t) := by
  intro w w' _ _ ho h
  rw [(other_keeps ho τ).mine]
  exact h

/-! ### Quiet operations -/

/-- The step changed none of the tables watched, and no object. -/
structure Unchanged (W : List Tbl) (w : BackendWorld T) (s : State T) : Prop where
  db : ∀ τ ∈ W, s.db τ = w.state.db τ
  purged : s.purged = w.state.purged

/-- An operation that leaves the tables watched and the objects alone, and is not noted. -/
structure Quiet (W : List Tbl) (N : Op → Prop) (o : Op) : Prop where
  spares : ∀ τ ∈ W, Spares τ o
  keeps : ∀ m, o ≠ .deleteObject m
  unnoted : ¬ N o

variable {W : List Tbl} {N : Op → Prop}

theorem quiet_select {p : τ.Key → τ.Row → Bool} (hN : ¬ N (.sql (.select τ p))) :
    Quiet W N (.sql (.select τ p)) := ⟨fun _ _ => trivial, (fun _ h => nomatch h), hN⟩

theorem quiet_get (hN : ¬ N (.sql (.get τ k))) : Quiet W N (.sql (.get τ k)) :=
  ⟨fun _ _ => trivial, (fun _ h => nomatch h), hN⟩

theorem quiet_lock (hτ : τ ∉ W) {p : τ.Row → Bool} (hN : ¬ N (.sql (.lock τ k p))) :
    Quiet W N (.sql (.lock τ k p)) :=
  ⟨fun _ hτ' he => hτ (he ▸ hτ'), (fun _ h => nomatch h), hN⟩

theorem quiet_update (hτ : τ ∉ W) {p : τ.Row → Bool} {f : τ.Row → τ.Row}
    (hN : ¬ N (.sql (.update τ k p f))) : Quiet W N (.sql (.update τ k p f)) :=
  ⟨fun _ hτ' he => hτ (he ▸ hτ'), (fun _ h => nomatch h), hN⟩

theorem quiet_insert (hτ : τ ∉ W) {f : ℕ → τ.Row} (hN : ¬ N (.sql (.insert τ k f))) :
    Quiet W N (.sql (.insert τ k f)) :=
  ⟨fun _ hτ' he => hτ (he ▸ hτ'), (fun _ h => nomatch h), hN⟩

/-- What asks nothing of the database. -/
theorem quiet_other {o : Op} (ho : ∀ q, o ≠ .sql q) (hd : ∀ m, o ≠ .deleteObject m) (hN : ¬ N o) :
    Quiet W N o where
  spares τ _ := by
    cases o with
    | sql q => exact absurd rfl (ho q)
    | _ => trivial
  keeps := hd
  unnoted := hN

/-- The contract allows quiet operations at any time. -/
def Allows (K : Contract (machine T hash)) (W : List Tbl) (N : Op → Prop) : Prop :=
  ∀ t o r w s, Quiet W N o → Unchanged W w s → K.inv w →
    K.inv (w.after t o r s) ∧ K.guar t o r w (w.after t o r s)

/-- Kept by the others, and by quiet operations of the transaction itself. -/
structure Kept (K : Contract (machine T hash)) (W : List Tbl) (N : Op → Prop) (t : T)
    (A : BackendWorld T → Prop) : Prop where
  stable : K.Stable t A
  quiet : ∀ w o r s, Quiet W N o → Unchanged W w s → A w → A (w.after t o r s)

namespace Kept

protected theorem and (hA : Kept K W N t A) (hB : Kept K W N t B) :
    Kept K W N t fun w => A w ∧ B w :=
  ⟨hA.stable.and hB.stable, fun w o r s ho h hw => ⟨hA.quiet w o r s ho h hw.1,
    hB.quiet w o r s ho h hw.2⟩⟩

protected theorem or (hA : Kept K W N t A) (hB : Kept K W N t B) :
    Kept K W N t fun w => A w ∨ B w :=
  ⟨hA.stable.or hB.stable, fun w o r s ho h hw => hw.imp (hA.quiet w o r s ho h)
    (hB.quiet w o r s ho h)⟩

protected theorem const (P : Prop) : Kept K W N t fun _ => P :=
  ⟨.const P, fun _ _ _ _ _ _ h => h⟩

protected theorem imp {P : Prop} (hA : Kept K W N t A) : Kept K W N t fun w => P → A w :=
  ⟨.imp fun _ => hA.stable, fun w o r s ho h hw hP => hA.quiet w o r s ho h (hw hP)⟩

protected theorem «exists» {γ : Type} {A : γ → BackendWorld T → Prop}
    (hA : ∀ x, Kept K W N t (A x)) : Kept K W N t fun w => ∃ x, A x w :=
  ⟨.exists fun x => (hA x).stable, fun w o r s ho h ⟨x, hx⟩ => ⟨x, (hA x).quiet w o r s ho h hx⟩⟩

/-- What a transaction knows of the rows it holds. -/
protected theorem mine (hτ : τ ∈ W)
    {P : (τ.Key → Option (Option (Option τ.Row) × Option τ.Row)) → Prop} :
    Kept K W N t fun w => P ((w.state.db τ).mine t) where
  stable := stable_mine
  quiet w o r s _ h hw := by
    rw [World.after_state, h.db τ hτ]
    exact hw

/-- What a transaction has done of what is noted. -/
protected theorem own {P : Entry T Op Op.Res Exc → Prop} (hP : ∀ e, Quiet W N e.op → P e) :
    Kept K W N t fun w => ∀ e ∈ w.trace, e.proc = t → P e where
  stable := .own
  quiet w o r s ho _ hw e he hproc := by
    rcases List.mem_cons.mp he with rfl | he
    · exact hP _ ho
    · exact hw e he hproc

/-- What has happened. -/
protected theorem seen {P : Entry T Op Op.Res Exc → Prop} :
    Kept K W N t fun w => ∃ e ∈ w.trace, P e where
  stable := .seen
  quiet _ _ _ _ _ _ := fun ⟨e, he, hP⟩ => ⟨e, List.mem_cons_of_mem _ he, hP⟩

variable (hK : Allows K W N)
include hK

theorem step (hA : Kept K W N t A) {o : Op} (ho : Quiet W N o) : K.StepOk t A o fun _ => A := by
  intro w ch r s hi hw _ h
  have hun : Unchanged W w s :=
    ⟨fun τ hτ => exec_spares (ho.spares τ hτ) h, exec_purged ho.keeps h⟩
  rcases hK t o r w s ho hun hi with ⟨hi', hg⟩
  exact ⟨hi', hg, hA.quiet w o r s ho hun hw⟩

/-- A piece of a request that performs quiet operations only. -/
theorem only {α : Type} {p : Py α} (hA : Kept K W N t A) (hp : p.Only (Quiet W N)) :
    K.Safe t p A (fun _ => A) fun _ _ => True :=
  (Contract.Safe.only hp hA.stable fun _ ho => hA.step hK ho).mono (fun _ _ hw => hw)
    (fun _ _ _ hw => hw) fun _ _ _ _ => trivial

theorem perform (hA : Kept K W N t A) {o : Op} (ho : Quiet W N o) :
    K.Safe t (Prog.perform o) A (fun _ => A) fun _ _ => True :=
  hA.only hK (Prog.only_perform ho)

end Kept

/-! ### What has been committed -/

section History

variable {P : List (Entry T Op Op.Res Exc) → Prop} {t' : T} {w : BackendWorld T} {o : Op}
  {r : Except Exc o.Res}

/-- Transaction `t` committed at a moment when `P` held of the history. -/
def CommittedWhen (t : T) (P : List (Entry T Op Op.Res Exc) → Prop) (w : BackendWorld T) : Prop :=
  ∃ newer older, w.trace = newer ++ ⟨t, .sql .commit, .ok ()⟩ :: older ∧ P older

omit [DecidableEq T] in
theorem CommittedWhen.after (h : CommittedWhen t P w) : CommittedWhen t P (w.after t' o r s) := by
  rcases h with ⟨newer, older, htrace, h⟩
  exact ⟨⟨t', o, r⟩ :: newer, older, by rw [World.after_trace, htrace, List.cons_append], h⟩

omit [DecidableEq T] in
/-- A step commits only if it is the commit. -/
theorem committedWhen_after (h : CommittedWhen t P (w.after t' o r s)) :
    CommittedWhen t P w ∨
      ((⟨t', o, r⟩ : Entry T Op Op.Res Exc) = ⟨t, .sql .commit, .ok ()⟩ ∧ P w.trace) := by
  rcases h with ⟨newer, older, htrace, h⟩
  rw [World.after_trace] at htrace
  cases newer with
  | nil =>
    rcases List.cons.inj htrace with ⟨he, rfl⟩
    exact .inr ⟨he, h⟩
  | cons e newer => exact .inl ⟨newer, older, (List.cons.inj htrace).2, h⟩

omit [DecidableEq T] in
/-- What a transaction has done, and does now. -/
theorem own_after {P : Entry T Op Op.Res Exc → Prop} (h : ∀ e ∈ w.trace, e.proc = t → P e)
    (hP : P ⟨t, o, r⟩) : ∀ e ∈ (w.after t o r s).trace, e.proc = t → P e := by
  intro e he hproc
  rcases List.mem_cons.mp he with rfl | he
  · exact hP
  · exact h e he hproc

protected theorem Kept.committedWhen : Kept K W N t (CommittedWhen t' P) where
  stable _ _ _ _ ho h := by
    cases ho with
    | proc hne hpre hexec hguar => exact h.after
    | event hpre hexec => exact h
  quiet _ _ _ _ _ _ h := h.after

/-- What a transaction has not committed, nobody else commits for it. -/
protected theorem Kept.notCommittedWhen (hτ : τ ∈ W) :
    Kept K W N t fun w => ¬ CommittedWhen t P w where
  stable _ _ _ _ ho h := by
    cases ho with
    | proc hne hpre hexec hguar =>
      intro hc
      rcases committedWhen_after hc with hc | ⟨he, -⟩
      · exact h hc
      · cases he
        exact hne rfl
    | event hpre hexec => exact h
  quiet _ _ _ _ ho _ h hc := by
    rcases committedWhen_after hc with hc | ⟨he, -⟩
    · exact h hc
    · cases he
      exact ho.spares τ hτ

end History

/-! ### Rows not written -/

/-- The transaction has written no row of the table. -/
def Unwritten (τ : Tbl) (t : T) (w : BackendWorld T) : Prop :=
  ∀ k v x, (w.state.db τ).mine t k ≠ some (some v, x)

variable {w : BackendWorld T} {o : Op} {r : Except Exc o.Res}

theorem kept_unwritten (hτ : τ ∈ W) : Kept K W N t (Unwritten τ t) :=
  Kept.mine hτ (P := fun m => ∀ k v x, m k ≠ some (some v, x))

/-- Before it has written to any of the tables. -/
theorem kept_unwrittenAll : Kept K W N t fun w => ∀ τ ∈ W, Unwritten τ t w where
  stable := .forall fun _ => .imp fun hτ => (kept_unwritten (N := N) hτ).stable
  quiet w o r s ho h hw τ hτ := (kept_unwritten (K := K) hτ).quiet w o r s ho h (hw τ hτ)

/-- A transaction that holds no row has written none. -/
theorem unwritten_of_released (h : ∀ k, (w.state.db τ).mine t k = none) : Unwritten τ t w := by
  intro k v x hv
  rw [h] at hv
  cases hv

theorem view_of_unwritten (h : Unwritten τ t w) (k : τ.Key) :
    (w.state.db τ).view t k = (w.state.db τ).committed k :=
  Table.view_of_unwritten fun v x => h k v x

/-- A write elsewhere. -/
theorem Unwritten.set (h : Unwritten τ t w) {τ' : Tbl} {tb : Table T τ'.Key τ'.Row}
    (hτ : τ ≠ τ') : Unwritten τ t (w.after t o r (w.state.set τ' tb)) := by
  intro k v x
  rw [World.after_state, State.set_db_of_ne hτ]
  exact h k v x

/-- The only row written. -/
theorem Unwritten.mine_write (h : Unwritten τ t w) {v : Option τ.Row} {k' : τ.Key}
    {v' x : Option τ.Row} (hv : ((w.state.db τ).write t k v).mine t k' = some (some v', x)) :
    k' = k ∧ v' = v ∧ x = (w.state.db τ).committed k := by
  by_cases hk : k' = k
  · subst hk
    rw [Table.mine_write_self] at hv
    cases hv
    exact ⟨rfl, rfl, rfl⟩
  · rw [Table.mine_write_of_ne hk] at hv
    exact absurd hv (h k' v' x)

/-! ### After a commit -/

/-- The world after a commit of `t`. -/
def afterCommit (t : T) (w : BackendWorld T) : BackendWorld T :=
  w.after t (.sql .commit) (.ok ()) { w.state with db := w.state.db.commit t }

/-- A row is as it was, or as the transaction wrote it. -/
theorem committed_afterCommit (τ : Tbl) (k : τ.Key) :
    ((afterCommit t w).state.db τ).committed k = (w.state.db τ).committed k ∨
      ∃ v, (w.state.db τ).mine t k = some (some v, (w.state.db τ).committed k) ∧
        ((afterCommit t w).state.db τ).committed k = v := by
  rcases (w.state.db τ).view_cases t k with hv | ⟨v, hhold, hv⟩
  · exact .inl hv
  · exact .inr ⟨v, Table.mine_eq_some.mpr ⟨hhold, rfl⟩, hv⟩

/-! ### Contracts about what is committed -/

/-- The contract allows every step that commits nothing, takes no object out of storage and is not
noted. -/
def AboutCommitted (K : Contract (machine T hash)) (W : List Tbl) (N : Op → Prop) : Prop :=
  ∀ t o r w s, ¬ N o → s.purged = w.state.purged →
    (∀ p, (⟨t, o, r⟩ : Entry T Op Op.Res Exc) ≠ ⟨p, .sql .commit, .ok ()⟩) →
    (∀ τ ∈ W, (s.db τ).committed = (w.state.db τ).committed) → K.inv w →
    K.inv (w.after t o r s) ∧ K.guar t o r w (w.after t o r s)

section AboutCommitted

variable {N' : Op → Prop} {C : BackendWorld T → Prop} (hK : AboutCommitted K W N)
include hK

theorem AboutCommitted.allows (hτ : τ ∈ W) (hN : ∀ o, N o → N' o) : Allows K W N' := by
  intro t o r w s ho h hi
  refine hK t o r w s (fun h => ho.unnoted (hN o h)) h.purged (fun p he => ?_)
    (fun τ hτ => by rw [h.db τ hτ]) hi
  cases he
  exact ho.spares τ hτ

/-- A statement that is no commit is allowed. -/
theorem AboutCommitted.uncommitted {q : Stmt schema} (hq : q ≠ .commit) (hN : ¬ N (.sql q))
    {r : Except Exc q.Res} (h : (machine T hash).exec t (.sql q) c w.state = some (r, s))
    (hi : K.inv w) : K.inv (w.after t (.sql q) r s) ∧ K.guar t (.sql q) r w (w.after t (.sql q) r s) := by
  refine hK t (.sql q) r w s hN (exec_purged (o := .sql q) nofun h) (fun p he => ?_) (fun τ _ => ?_) hi
  · cases he
    exact hq rfl
  · exact exec_committed_db (o := .sql q) (fun he => hq (Op.sql.inj he)) h τ

/-- A commit that fails is allowed. -/
theorem AboutCommitted.failed {e : Exc} (hN : ¬ N (.sql .commit)) (hi : K.inv w) :
    K.inv (w.after t (.sql .commit) (.error e) w.state) ∧
      K.guar t (.sql .commit) (.error e) w (w.after t (.sql .commit) (.error e) w.state) :=
  hK t (.sql .commit) (.error e) w w.state hN rfl (fun _ he => nomatch he) (fun _ _ => rfl) hi

/-- A rollback is allowed at any time. -/
theorem safe_abort (hN : ¬ N (.sql .rollback)) :
    K.Safe t Py.rollback (fun _ => True) (fun _ _ => True) fun _ _ => True := by
  refine Contract.Safe.perform (fun _ => .const True) (fun _ => .const True)
    fun w ch r s hi _ _ h => ?_
  rcases hK.uncommitted (q := .rollback) nofun hN h hi with ⟨hi', hg⟩
  refine ⟨hi', hg, ?_⟩
  cases r <;> trivial

/-- What holds of a transaction that has let go of its rows holds after a rollback. -/
theorem safe_rollback (hN : ¬ N (.sql .rollback)) (hB : K.Stable t B)
    (h : ∀ w s, A w → s.purged = w.state.purged → (∀ τ k, (s.db τ).mine t k = none) →
      B (w.after t (.sql .rollback) (.ok ()) s)) :
    K.Safe t Py.rollback A (fun _ => B) fun _ _ => True := by
  refine Contract.Safe.perform (fun _ => hB) (fun _ => .const True) fun w ch r s hi hw _ hx => ?_
  rcases hK.uncommitted (q := .rollback) nofun hN hx hi with ⟨hi', hg⟩
  refine ⟨hi', hg, ?_⟩
  rcases exec_rollbackAll hx with ⟨rfl, e, rfl⟩ | ⟨rfl, rfl⟩
  · trivial
  · exact h w _ hw rfl fun _ _ => Table.mine_rollback

/-- The flush of a new object: the row is written where the transaction saw none. -/
theorem AboutCommitted.flushInsert {f : Time → τ.Row} (hN : ¬ N (.sql (.insert τ k f)))
    (hB : K.Stable t B)
    (h : ∀ w now, A w → (w.state.db τ).Free t k → (w.state.db τ).view t k = none →
      B (w.after t (.sql (.insert τ k f)) (.ok (some (f now)))
        (w.state.set τ ((w.state.db τ).write t k (some (f now)))))) :
    K.Safe t (Py.flushInsert τ k f) A (fun _ => B) fun _ _ => True := by
  refine Contract.Safe.await (fun row w => row.isSome → B w) (fun _ => .imp fun _ => hB)
    (fun _ => .const True) (fun w ch r s hi hw _ hx => ?_) fun row => ?_
  · rcases hK.uncommitted (q := .insert τ k f) nofun hN hx hi with ⟨hi', hg⟩
    refine ⟨hi', hg, ?_⟩
    rcases exec_insertTable hx with ⟨rfl, hr⟩ | ⟨now, hfree, hview, rfl, rfl⟩
    · cases r with
      | error e => trivial
      | ok row =>
        cases row with
        | none => exact fun hrow => absurd hrow Bool.false_ne_true
        | some row => exact absurd rfl (hr row)
    · exact fun _ => h w now hw hfree hview
  · cases row with
    | none => exact fun _ _ _ => trivial
    | some row => exact fun w _ hw => hw rfl

/-- The rows locked so far are the transaction's, and satisfy the condition. -/
def LockedRows (τ : Tbl) (t : T) (p : τ.Key → τ.Row → Bool) (ks : List τ.Key)
    (rows : List (Option (τ.Key × τ.Row))) (w : BackendWorld T) : Prop :=
  Unwritten τ t w ∧ ((rows.filterMap id).map Prod.fst ++ ks).Nodup ∧
    ∀ r ∈ rows.filterMap id, (w.state.db τ).mine t r.1 = some (none, some r.2) ∧ p r.1 r.2 = true

omit hK in
theorem stable_lockedRows {p : τ.Key → τ.Row → Bool} {ks : List τ.Key}
    {rows : List (Option (τ.Key × τ.Row))} : K.Stable t (LockedRows τ t p ks rows) :=
  stable_mine (P := fun m => (∀ k v x, m k ≠ some (some v, x)) ∧
    ((rows.filterMap id).map Prod.fst ++ ks).Nodup ∧
      ∀ r ∈ rows.filterMap id, m r.1 = some (none, some r.2) ∧ p r.1 r.2 = true)

theorem safe_lockRow {p : τ.Key → τ.Row → Bool} (hN : ∀ k q, ¬ N (.sql (.lock τ k q)))
    {ks : List τ.Key} {rows : List (Option (τ.Key × τ.Row))} :
    K.Safe t ((Py.sql (.lock τ k (p k))).bind fun x => .ret (x.map fun v => (k, v)))
      (LockedRows τ t p (k :: ks) rows) (fun b => LockedRows τ t p ks (rows ++ [b]))
      fun _ _ => True := by
  refine Contract.Safe.await (fun a => LockedRows τ t p ks (rows ++ [a.map fun v => (k, v)]))
    (fun _ => stable_lockedRows) (fun _ => .const True) (fun w ch r s hi hw _ h => ?_)
    fun a _ _ hw => hw
  rcases hK.uncommitted (q := .lock τ k (p k)) nofun (hN _ _) h hi with ⟨hi', hg⟩
  refine ⟨hi', hg, ?_⟩
  rcases hw with ⟨hunwritten, hnodup, hrows⟩
  have hnone : ((rows ++ [none]).filterMap id : List (τ.Key × τ.Row)) = rows.filterMap id := by simp
  have hsub : ((rows.filterMap id).map Prod.fst ++ ks).Nodup :=
    hnodup.sublist ((List.sublist_cons_self _ _).append_left _)
  rcases exec_lockTable h with ⟨rfl, hr⟩ | ⟨x, hfree, hx, rfl, rfl⟩
  · cases r with
    | error e => trivial
    | ok a =>
      rcases hr a rfl with ⟨rfl, -⟩
      simp only [Contract.Outcome_ok, LockedRows, Option.map_none, hnone]
      exact ⟨hunwritten, hsub, hrows⟩
  have hself : ((w.state.db τ).lock t k).mine t k = some (none, some x) := by
    rw [Table.mine_lock_self hfree fun v y => hunwritten k v y]
    rw [view_of_unwritten hunwritten] at hx
    rw [hx]
  have hunwritten' : ∀ k' v y, ((w.state.db τ).lock t k).mine t k' ≠ some (some v, y) := by
    intro k' v y hv
    by_cases hk : k' = k
    · rw [hk, hself] at hv
      cases hv
    · rw [Table.mine_lock_of_ne hk] at hv
      exact hunwritten k' v y hv
  have hrows' : ∀ r ∈ rows.filterMap id, ((w.state.db τ).lock t k).mine t r.1 =
      some (none, some r.2) ∧ p r.1 r.2 = true := by
    intro r hr
    have hk : r.1 ≠ k := by
      rintro rfl
      exact List.disjoint_of_nodup_append hnodup (List.mem_map_of_mem hr) List.mem_cons_self
    rw [Table.mine_lock_of_ne hk]
    exact hrows r hr
  simp only [Contract.Outcome_ok, LockedRows, Unwritten, World.after_state, State.set_db]
  by_cases hp : p k x = true
  · have hsome : ((rows ++ [some (k, x)]).filterMap id : List (τ.Key × τ.Row)) =
        rows.filterMap id ++ [(k, x)] := by simp
    rw [if_pos hp, Option.map_some, hsome]
    refine ⟨hunwritten', by simpa using hnodup, fun r hr => ?_⟩
    rcases List.mem_append.mp hr with hr | hr
    · exact hrows' r hr
    · rw [List.mem_singleton.mp hr]
      exact ⟨hself, hp⟩
  · rw [if_neg hp, Option.map_none, hnone]
    exact ⟨hunwritten', hsub, hrows'⟩

/-- **`SELECT … FOR UPDATE`**: the rows returned are distinct, satisfy the condition, and are held. -/
theorem safe_selectForUpdate {p : τ.Key → τ.Row → Bool} {le : τ.Key → τ.Key → Bool}
    (hN : ¬ N (.sql (.select τ p))) (hN' : ∀ k q, ¬ N (.sql (.lock τ k q))) :
    K.Safe t (Py.selectForUpdate τ p le) (Unwritten τ t)
      (fun rows w => Unwritten τ t w ∧ (rows.map Prod.fst).Nodup ∧
        ∀ r ∈ rows, (w.state.db τ).mine t r.1 = some (none, some r.2) ∧ p r.1 r.2 = true)
      fun _ _ => True := by
  refine Contract.Safe.bind (Q := fun rows w => Unwritten τ t w ∧ (rows.map Prod.fst).Nodup) ?_
    fun rows => ?_
  · refine Contract.Safe.perform (fun rows => ?_) (fun _ => .const True) fun w ch r s hi hw _ h => ?_
    · exact Contract.Stable.and (stable_mine (P := fun m => ∀ k v x, m k ≠ some (some v, x)))
        (.const _)
    rcases hK.uncommitted (q := .select τ p) nofun hN h hi with ⟨hi', hg⟩
    rcases exec_selectTable h with ⟨rfl, hperm⟩
    refine ⟨hi', hg, ?_⟩
    cases r with
    | error e => trivial
    | ok rows => exact ⟨hw, ((hperm rows rfl).map Prod.fst).nodup_iff.mpr (Table.nodup_scan p)⟩
  · have hsorted := List.perm_insertionSort (fun j k => le j k = true) (rows.map Prod.fst)
    refine Contract.Safe.bind (Contract.Safe.weaken (Contract.Safe.forEach
      (I := fun ks bs => LockedRows τ t p ks bs) (fun k ks bs => safe_lockRow hK hN') _ [])
      fun w _ hw => ⟨hw.1, ?_, by simp⟩) fun locked w _ hw => ?_
    · simpa using hsorted.nodup_iff.mpr hw.2
    · simpa [LockedRows] using hw

end AboutCommitted

end Chatspace
