import Mathlib.Data.List.Dedup
import Mathlib.Data.Option.Basic
import Mathlib.Logic.Function.Basic

/-!
# One table under READ COMMITTED with row locks

A table is the committed rows, and for each row the transaction that holds it, if any, with the
version it has written but not yet committed.  A transaction sees the committed rows and its own
versions (`view`); nobody sees another's.  A held row cannot be held by a second transaction, so
what a transaction knows about the rows it holds stays true whatever the others do: that is
`Keeps`, and every operation of another transaction satisfies it.

* `view`, `scan` — what a transaction reads;
* `lock`, `write`, `commit`, `rollback` — what it does;
* `mine` — what it knows of the rows it holds;
* `Keeps.lock`, `Keeps.write`, `Keeps.commit`, `Keeps.rollback` — **what a transaction holds is
  kept by the others' operations.**
-/

namespace Store

/-- A row held by `owner`: locked only (`pending = none`), or with an uncommitted version
(`some none` is a deletion). -/
structure Hold (T V : Type) where
  owner : T
  pending : Option (Option V)
deriving DecidableEq

/-- Committed rows, held rows, and a finite list of keys beyond which there is neither. -/
structure Table (T K V : Type) where
  committed : K → Option V
  hold : K → Option (Hold T V)
  keys : List K
  nodup : keys.Nodup
  covers : ∀ k, k ∉ keys → committed k = none ∧ hold k = none

namespace Table

variable {T K V : Type}

/-- A table with these committed rows and nothing held. -/
def ofRows [DecidableEq K] (rows : List (K × V)) : Table T K V where
  committed k := (rows.find? fun r => r.1 = k).map Prod.snd
  hold _ := none
  keys := (rows.map Prod.fst).dedup
  nodup := List.nodup_dedup _
  covers k hk := by
    refine ⟨?_, rfl⟩
    have : rows.find? (fun r => r.1 = k) = none := by
      rw [List.find?_eq_none]
      intro r hr he
      rw [decide_eq_true_eq] at he
      exact hk (List.mem_dedup.mpr (List.mem_map.mpr ⟨r, hr, he⟩))
    rw [this]
    rfl

theorem mem_of_ofRows [DecidableEq K] {rows : List (K × V)} {k : K} {x : V}
    (h : (ofRows (T := T) rows).committed k = some x) : (k, x) ∈ rows := by
  obtain ⟨⟨j, y⟩, hfind, rfl⟩ := Option.map_eq_some_iff.mp h
  have hk : j = k := by simpa using List.find?_some hfind
  subst hk
  exact List.mem_of_find?_eq_some hfind

/-- A last row makes no difference under other keys. -/
theorem committed_ofRows_concat [DecidableEq K] {rows : List (K × V)} {j k : K} {x : V}
    (h : k ≠ j) :
    (ofRows (T := T) (rows ++ [(j, x)])).committed k = (ofRows (T := T) (rows ++ [])).committed k := by
  have hj : (decide (j = k)) = false := decide_eq_false h.symm
  simp only [ofRows, List.find?_append, List.find?_cons, hj, List.find?_nil]

/-- Transaction `t` holds row `k`. -/
def Holds (tb : Table T K V) (t : T) (k : K) : Prop := ∃ p, tb.hold k = some ⟨t, p⟩

/-- Nobody but `t` holds row `k`: an operation of `t` on it need not wait. -/
def Free (tb : Table T K V) (t : T) (k : K) : Prop := ∀ h ∈ tb.hold k, h.owner = t

/-- One transaction holds a row at most. -/
theorem holds_inj {tb : Table T K V} {t t' : T} {k : K} (h : tb.Holds t k) (h' : tb.Holds t' k) :
    t = t' := by
  obtain ⟨p, hp⟩ := h
  obtain ⟨q, hq⟩ := h'
  exact congrArg Hold.owner (Option.some.inj (hp.symm.trans hq))

instance [DecidableEq T] (tb : Table T K V) (t : T) (k : K) : Decidable (tb.Free t k) :=
  inferInstanceAs (Decidable (∀ h ∈ tb.hold k, h.owner = t))

instance [DecidableEq T] (tb : Table T K V) (t : T) (k : K) : Decidable (tb.Holds t k) :=
  match hk : tb.hold k with
  | none => .isFalse fun ⟨_, hp⟩ => nomatch hk.symm.trans hp
  | some h =>
    if ho : h.owner = t then .isTrue ⟨h.pending, ho ▸ hk⟩
    else .isFalse fun ⟨_, hp⟩ => ho (Option.some.inj (hk.symm.trans hp) ▸ rfl)

section Hold

variable [DecidableEq K]

/-- Hold row `k` with this version. -/
def put (tb : Table T K V) (t : T) (k : K) (p : Option (Option V)) :
    Table T K V where
  committed := tb.committed
  hold := Function.update tb.hold k (some ⟨t, p⟩)
  keys := tb.keys.insert k
  nodup := tb.nodup.insert
  covers k' hk' := by
    rw [List.mem_insert_iff, not_or] at hk'
    rw [Function.update_of_ne hk'.1]
    exact tb.covers k' hk'.2

/-- Lock row `k`, keeping the version `t` may already have written. -/
def lock (tb : Table T K V) (t : T) (k : K) : Table T K V :=
  tb.put t k ((tb.hold k).bind Hold.pending)

/-- Write an uncommitted version of row `k`; `none` deletes it. -/
def write (tb : Table T K V) (t : T) (k : K) (v : Option V) : Table T K V :=
  tb.put t k (some v)

variable {tb : Table T K V} {t : T} {k k' : K} {v : Option V} {p : Option (Option V)}

@[simp] theorem committed_put : (tb.put t k p).committed = tb.committed := rfl

@[simp] theorem committed_lock : (tb.lock t k).committed = tb.committed := rfl

@[simp] theorem committed_write : (tb.write t k v).committed = tb.committed := rfl

@[simp] theorem hold_put_self : (tb.put t k p).hold k = some ⟨t, p⟩ := by simp [put]

@[simp] theorem hold_write_self : (tb.write t k v).hold k = some ⟨t, some v⟩ := hold_put_self

theorem hold_put_of_ne (h : k' ≠ k) : (tb.put t k p).hold k' = tb.hold k' := by simp [put, h]

theorem hold_write_of_ne (h : k' ≠ k) : (tb.write t k v).hold k' = tb.hold k' := hold_put_of_ne h

theorem hold_lock_of_ne (h : k' ≠ k) : (tb.lock t k).hold k' = tb.hold k' := hold_put_of_ne h

theorem holds_put_self : (tb.put t k p).Holds t k := ⟨p, hold_put_self⟩

/-- A row that `t` holds is not let go of when `t` takes another. -/
theorem holds_put (h : tb.Holds t k') : (tb.put t k p).Holds t k' := by
  by_cases hk : k' = k
  · subst hk
    exact holds_put_self
  · obtain ⟨q, hq⟩ := h
    exact ⟨q, by rw [hold_put_of_ne hk, hq]⟩

theorem holds_lock : (tb.lock t k).Holds t k' ↔ k' = k ∨ tb.Holds t k' := by
  refine ⟨fun h => ?_, fun h => ?_⟩
  · by_cases hk : k' = k
    · exact .inl hk
    · obtain ⟨q, hq⟩ := h
      exact .inr ⟨q, by rw [← hold_lock_of_ne hk, hq]⟩
  · obtain rfl | h := h
    · exact holds_put_self
    · exact holds_put h

end Hold

variable [DecidableEq T]

/-- What transaction `t` reads of row `k`: its own version, else the committed one. -/
def view (tb : Table T K V) (t : T) (k : K) : Option V :=
  match tb.hold k with
  | some ⟨o, some v⟩ => if o = t then v else tb.committed k
  | _ => tb.committed k

/-- The rows transaction `t` sees that satisfy `p`. -/
def scan (tb : Table T K V) (t : T) (p : K → V → Bool) : List (K × V) :=
  tb.keys.filterMap fun k => (tb.view t k).bind fun v => if p k v then some (k, v) else none

/-- What `t` knows of a row that it holds: the version it has written, if any, and the committed
row. -/
def mine (tb : Table T K V) (t : T) (k : K) : Option (Option (Option V) × Option V) :=
  (tb.hold k).bind fun h => if h.owner = t then some (h.pending, tb.committed k) else none

/-- The holds of every transaction but `t`. -/
def release (tb : Table T K V) (t : T) (k : K) : Option (Hold T V) :=
  (tb.hold k).filter fun h => h.owner ≠ t

theorem release_of_none {tb : Table T K V} {t : T} {k : K} (h : tb.hold k = none) :
    tb.release t k = none := by
  simp [release, h]

theorem view_of_none {tb : Table T K V} {t : T} {k : K} (h : tb.hold k = none) :
    tb.view t k = tb.committed k := by
  simp [view, h]

/-- Make the versions of `t` the committed ones and let go of its rows. -/
def commit (tb : Table T K V) (t : T) : Table T K V where
  committed := tb.view t
  hold := tb.release t
  keys := tb.keys
  nodup := tb.nodup
  covers k hk := by
    obtain ⟨hc, hh⟩ := tb.covers k hk
    exact ⟨by rw [view_of_none hh, hc], release_of_none hh⟩

/-- Drop the versions of `t` and let go of its rows. -/
def rollback (tb : Table T K V) (t : T) : Table T K V where
  committed := tb.committed
  hold := tb.release t
  keys := tb.keys
  nodup := tb.nodup
  covers k hk := ⟨(tb.covers k hk).1, release_of_none (tb.covers k hk).2⟩

variable {tb tb' : Table T K V} {t t' : T} {k k' : K} {v : Option V} {p : Option (Option V)}

/-! ### Reading -/

theorem view_of_hold (h : tb.hold k = some ⟨t, some v⟩) : tb.view t k = v := by
  simp [view, h]

theorem view_of_locked (h : tb.hold k = some ⟨t', none⟩) : tb.view t k = tb.committed k := by
  simp [view, h]

theorem view_of_not_holds (h : ¬ tb.Holds t k) : tb.view t k = tb.committed k := by
  unfold view
  split
  · rename_i o v hk
    rw [if_neg]
    rintro rfl
    exact h ⟨_, hk⟩
  · rfl

/-- A transaction that sees something else than the committed row holds the row. -/
theorem holds_of_view_ne (h : tb.view t k ≠ tb.committed k) : tb.Holds t k := by
  by_contra hn
  exact h (view_of_not_holds hn)

/-- A transaction sees the committed row, or its own version. -/
theorem view_cases (tb : Table T K V) (t : T) (k : K) :
    tb.view t k = tb.committed k ∨ ∃ v, tb.hold k = some ⟨t, some v⟩ ∧ tb.view t k = v := by
  by_cases hv : tb.view t k = tb.committed k
  · exact .inl hv
  · obtain ⟨p, hp⟩ := holds_of_view_ne hv
    cases p with
    | none => exact absurd (view_of_locked hp) hv
    | some v => exact .inr ⟨v, hp, view_of_hold hp⟩

theorem mine_eq_some {x : Option V} :
    tb.mine t k = some (p, x) ↔ tb.hold k = some ⟨t, p⟩ ∧ tb.committed k = x := by
  cases hh : tb.hold k with
  | none => simp [mine, hh]
  | some h =>
    obtain ⟨o, q⟩ := h
    by_cases ho : o = t
    · simp [mine, hh, ho]
    · simp [mine, hh, ho]

theorem mine_eq_none : tb.mine t k = none ↔ ¬ tb.Holds t k := by
  rw [← not_iff_not, not_not, ← ne_eq, Option.ne_none_iff_exists']
  exact ⟨fun ⟨⟨p, x⟩, hx⟩ => ⟨p, (mine_eq_some.mp hx).1⟩,
    fun ⟨p, hp⟩ => ⟨(p, tb.committed k), mine_eq_some.mpr ⟨hp, rfl⟩⟩⟩

theorem mine_congr (hc : tb'.committed k = tb.committed k) (hh : tb'.hold k = tb.hold k) :
    tb'.mine t k = tb.mine t k := by
  simp only [mine, hc, hh]

/-- A transaction sees the version it has written. -/
theorem view_of_mine {x : Option V} (h : tb.mine t k = some (some v, x)) : tb.view t k = v :=
  view_of_hold (mine_eq_some.mp h).1

/-- A transaction sees the committed row where it has written no version. -/
theorem view_of_unwritten (h : ∀ v x, tb.mine t k ≠ some (some v, x)) :
    tb.view t k = tb.committed k := by
  obtain hv | ⟨v, hv, -⟩ := tb.view_cases t k
  · exact hv
  · exact absurd (mine_eq_some.mpr ⟨hv, rfl⟩) (h v (tb.committed k))

omit [DecidableEq T] in
theorem mem_keys_of_committed {x : V} (h : tb.committed k = some x) : k ∈ tb.keys := by
  by_contra hk
  exact nomatch (tb.covers k hk).1.symm.trans h

theorem mem_keys_of_view {x : V} (h : tb.view t k = some x) : k ∈ tb.keys := by
  by_contra hk
  obtain ⟨hc, hh⟩ := tb.covers k hk
  rw [view_of_none hh, hc] at h
  cases h

theorem mem_scan {q : K → V → Bool} {r : K × V} :
    r ∈ tb.scan t q ↔ tb.view t r.1 = some r.2 ∧ q r.1 r.2 = true := by
  obtain ⟨k, x⟩ := r
  simp only [scan, List.mem_filterMap]
  constructor
  · rintro ⟨k', -, hk'⟩
    obtain ⟨y, hy, hif⟩ := Option.bind_eq_some_iff.mp hk'
    split at hif
    · rename_i hq
      cases hif
      exact ⟨hy, hq⟩
    · cases hif
  · rintro ⟨hv, hq⟩
    exact ⟨k, mem_keys_of_view hv, by simp [hv, hq]⟩

theorem nodup_scan (q : K → V → Bool) : ((tb.scan t q).map Prod.fst).Nodup := by
  have hsub : ((tb.scan t q).map Prod.fst).Sublist tb.keys := by
    unfold scan
    induction tb.keys with
    | nil => simp
    | cons k ks ih =>
      rw [List.filterMap_cons]
      split
      · exact ih.cons k
      · rename_i r hr
        obtain ⟨x, -, hif⟩ := Option.bind_eq_some_iff.mp hr
        split at hif
        · cases hif
          exact ih.cons_cons k
        · cases hif
  exact hsub.nodup tb.nodup

/-! ### Operations, seen by the transaction itself -/

theorem view_congr (hc : tb'.committed k = tb.committed k) (hh : tb'.hold k = tb.hold k) :
    tb'.view t k = tb.view t k := by
  simp only [view, hc, hh]

section Write

variable [DecidableEq K]

@[simp] theorem view_write_self : (tb.write t k v).view t k = v := view_of_hold hold_write_self

theorem view_write_of_ne (h : k' ≠ k) : (tb.write t k v).view t' k' = tb.view t' k' :=
  view_congr rfl (hold_write_of_ne h)

@[simp] theorem mine_write_self : (tb.write t k v).mine t k = some (some v, tb.committed k) :=
  mine_eq_some.mpr ⟨hold_write_self, rfl⟩

theorem mine_write_of_ne (h : k' ≠ k) : (tb.write t k v).mine t' k' = tb.mine t' k' :=
  mine_congr rfl (hold_write_of_ne h)

theorem mine_lock_of_ne (h : k' ≠ k) : (tb.lock t k).mine t' k' = tb.mine t' k' :=
  mine_congr rfl (hold_lock_of_ne h)

/-- A row that was not written before is locked without a version. -/
theorem mine_lock_self (hf : tb.Free t k) (h : ∀ v x, tb.mine t k ≠ some (some v, x)) :
    (tb.lock t k).mine t k = some (none, tb.committed k) := by
  have hpend : (tb.hold k).bind Hold.pending = none := by
    cases hh : tb.hold k with
    | none => rfl
    | some hd =>
      obtain ⟨o, q⟩ := hd
      obtain rfl : o = t := hf _ hh
      cases q with
      | none => rfl
      | some v => exact absurd (mine_eq_some.mpr ⟨hh, rfl⟩) (h v (tb.committed k))
  refine mine_eq_some.mpr ⟨?_, rfl⟩
  rw [lock, hold_put_self, hpend]

/-- A row that was written is locked with its version. -/
theorem mine_lock_of_written {x : Option V} (h : tb.mine t k = some (some v, x)) :
    (tb.lock t k).mine t k = some (some v, x) := by
  obtain ⟨hh, hc⟩ := mine_eq_some.mp h
  refine mine_eq_some.mpr ⟨?_, hc⟩
  rw [lock, hold_put_self, hh]
  rfl

/-- Locking changes nothing that anybody sees. -/
theorem view_lock (hf : tb.Free t k) : (tb.lock t k).view t' k' = tb.view t' k' := by
  by_cases hk : k' = k
  · subst hk
    cases hh : tb.hold k' with
    | none => simp [view, lock, put, hh]
    | some h =>
      have ho : h.owner = t := hf h hh
      subst ho
      exact view_congr rfl (by simp [lock, put, hh])
  · exact view_congr rfl (hold_lock_of_ne hk)

end Write

@[simp] theorem committed_commit : (tb.commit t).committed = tb.view t := rfl

@[simp] theorem committed_rollback : (tb.rollback t).committed = tb.committed := rfl

@[simp] theorem hold_commit : (tb.commit t).hold = tb.release t := rfl

@[simp] theorem hold_rollback : (tb.rollback t).hold = tb.release t := rfl

theorem release_of_holds (h : tb.Holds t k) : tb.release t k = none := by
  obtain ⟨p, hp⟩ := h
  simp [release, hp]

theorem release_of_owner_ne {h : Hold T V} (hk : tb.hold k = some h) (ho : h.owner ≠ t) :
    tb.release t k = some h := by
  simp [release, hk, ho]

/-- What is held after `t` let go was held before, by somebody else. -/
theorem release_eq_some {h : Hold T V} (hk : tb.release t k = some h) :
    tb.hold k = some h ∧ h.owner ≠ t := by
  obtain ⟨hh, ho⟩ := Option.filter_eq_some_iff.mp hk
  exact ⟨hh, by simpa using ho⟩

theorem not_holds_release (hr : tb'.hold = tb.release t) : ¬ tb'.Holds t k := by
  rintro ⟨p, hp⟩
  rw [hr] at hp
  exact (release_eq_some hp).2 rfl

theorem mine_of_release (hr : tb'.hold = tb.release t) : tb'.mine t k = none :=
  mine_eq_none.mpr (not_holds_release hr)

@[simp] theorem mine_commit : (tb.commit t).mine t k = none := mine_of_release rfl

@[simp] theorem mine_rollback : (tb.rollback t).mine t k = none := mine_of_release rfl

theorem release_of_not_holds (h : ∀ k, ¬ tb.Holds t k) : tb.release t = tb.hold := by
  funext k
  cases hk : tb.hold k with
  | none => exact release_of_none hk
  | some x =>
    refine release_of_owner_ne hk ?_
    rintro rfl
    exact h k ⟨x.pending, hk⟩

/-- A transaction that holds nothing commits nothing. -/
theorem commit_of_not_holds (h : ∀ k, ¬ tb.Holds t k) : tb.commit t = tb := by
  have hv : tb.view t = tb.committed := funext fun k => view_of_not_holds (h k)
  simp only [commit, hv, release_of_not_holds h]

theorem rollback_of_not_holds (h : ∀ k, ¬ tb.Holds t k) : tb.rollback t = tb := by
  simp only [rollback, release_of_not_holds h]

/-! ### Operations, seen by the others -/

/-- The rows `t` holds are as they were, and `t` holds no others. -/
structure Keeps (t : T) (tb tb' : Table T K V) : Prop where
  hold : ∀ k p, tb.hold k = some ⟨t, p⟩ ↔ tb'.hold k = some ⟨t, p⟩
  committed : ∀ k, tb.Holds t k → tb'.committed k = tb.committed k

namespace Keeps

omit [DecidableEq T] in
protected theorem refl : Keeps t tb tb := ⟨fun _ _ => Iff.rfl, fun _ _ => rfl⟩

omit [DecidableEq T] in
theorem holds (h : Keeps t tb tb') : tb.Holds t k ↔ tb'.Holds t k :=
  exists_congr fun p => h.hold k p

/-- What a transaction sees of a row it holds is kept. -/
theorem view (h : Keeps t tb tb') (hk : tb.Holds t k) : tb'.view t k = tb.view t k := by
  obtain ⟨p, hp⟩ := hk
  exact view_congr (h.committed k ⟨p, hp⟩) (((h.hold k p).mp hp).trans hp.symm)

/-- What a transaction knows of the rows it holds is kept. -/
theorem mine (h : Keeps t tb tb') : tb'.mine t = tb.mine t := by
  funext k
  by_cases hk : tb.Holds t k
  · obtain ⟨p, hp⟩ := hk
    exact mine_congr (h.committed k ⟨p, hp⟩) (((h.hold k p).mp hp).trans hp.symm)
  · rw [mine_eq_none.mpr hk, mine_eq_none.mpr fun hk' => hk (h.holds.mpr hk')]

omit [DecidableEq T] in
/-- Taking a row that is free for somebody else. -/
theorem put [DecidableEq K] (hne : t' ≠ t) (hf : tb.Free t' k) :
    Keeps t tb (tb.put t' k p) where
  hold j q := by
    by_cases hj : j = k
    · subst hj
      rw [hold_put_self]
      refine ⟨fun h => absurd (hf _ h).symm hne, fun h => ?_⟩
      cases h
      exact absurd rfl hne
    · rw [hold_put_of_ne hj]
  committed _ _ := rfl

omit [DecidableEq T] in
theorem lock [DecidableEq K] (hne : t' ≠ t) (hf : tb.Free t' k) : Keeps t tb (tb.lock t' k) :=
  put hne hf

omit [DecidableEq T] in
theorem write [DecidableEq K] (hne : t' ≠ t) (hf : tb.Free t' k) :
    Keeps t tb (tb.write t' k v) :=
  put hne hf

theorem release_iff (hne : t' ≠ t) (k : K) (p : Option (Option V)) :
    tb.hold k = some ⟨t, p⟩ ↔ tb.release t' k = some ⟨t, p⟩ :=
  ⟨fun h => release_of_owner_ne h (Ne.symm hne), fun h => (release_eq_some h).1⟩

theorem commit (hne : t' ≠ t) : Keeps t tb (tb.commit t') where
  hold := release_iff hne
  committed k hk := by
    obtain ⟨p, hp⟩ := hk
    refine view_of_not_holds ?_
    rintro ⟨q, hq⟩
    rw [hp] at hq
    cases hq
    exact hne rfl

theorem rollback (hne : t' ≠ t) : Keeps t tb (tb.rollback t') where
  hold := release_iff hne
  committed _ _ := rfl

end Keeps

end Table

end Store
