import Chatspace.Services.Channels

/-!
# What a transaction knows of the admins it has locked

The rows of `channel_members` as a transaction that has written none of them sees them: it holds
some, and what is committed in those stays as it is until the transaction ends.

* `Held` — an admin whose row the transaction holds;
* `safe_lockChannelAdminIds` — **the ids returned are those of the admins held**;
* `longestStanding_eq_some` — the successor is one of the rows found, and joined first;
* `Kept` — assertions that survive reads and locks, and the rules for them.
-/

namespace Chatspace.AdminLocks

open Interleave Store Channels

variable {T : Type} [DecidableEq T] {hash : RawToken → TokenHash} {K : Contract (machine T hash)}
  {t : T} {w w' : BackendWorld T} {c : ChannelId} {u x : UserId} {A : BackendWorld T → Prop}

/-- The committed membership. -/
def membership (w : BackendWorld T) (c : ChannelId) (u : UserId) : Option ChannelMember :=
  (w.state.db .channelMembers).committed (c, u)

/-- A committed admin of the channel. -/
def Admin (w : BackendWorld T) (c : ChannelId) (u : UserId) : Prop :=
  ∃ m ∈ membership w c u, m.role = .admin

instance : Decidable (Admin w c u) :=
  inferInstanceAs (Decidable (∃ m ∈ membership w c u, m.role = .admin))

/-- An admin whose row the transaction holds. -/
def Held (t : T) (c : ChannelId) (u : UserId) (w : BackendWorld T) : Prop :=
  (w.state.db .channelMembers).Holds t (c, u) ∧ Admin w c u

/-- The transaction has written no membership. -/
def Clean (t : T) (w : BackendWorld T) : Prop :=
  ∀ k v, (w.state.db .channelMembers).hold k ≠ some ⟨t, some v⟩

theorem view_of_clean (h : Clean t w) (k : ChannelId × UserId) :
    (w.state.db .channelMembers).view t k = (w.state.db .channelMembers).committed k := by
  obtain hv | ⟨v, hv, -⟩ := (w.state.db .channelMembers).view_cases t k
  · exact hv
  · exact absurd hv (h k v)

theorem held_other (ho : K.Other t w w') : Held t c u w' ↔ Held t c u w := by
  have hkeeps := other_keeps ho .channelMembers
  refine ⟨fun ⟨hh, m, hm, hr⟩ => ?_, fun ⟨hh, m, hm, hr⟩ => ?_⟩
  · have hh' := hkeeps.holds.mpr hh
    exact ⟨hh', m, (hkeeps.committed _ hh').symm.trans hm, hr⟩
  · exact ⟨hkeeps.holds.mp hh, m, (hkeeps.committed _ hh).trans hm, hr⟩

theorem stable_held {P : Prop} : K.Stable t fun w => Held t c u w → P :=
  fun _ _ _ _ ho h hh => h ((held_other ho).mp hh)

theorem stable_clean : K.Stable t (Clean t) :=
  fun _ _ _ _ ho h k v hv => h k v (((other_keeps ho .channelMembers).hold k _).mpr hv)

/-! ### Steps that write no membership -/

/-- The step has locked some rows of channel `c` at most. -/
structure Locks (c : ChannelId) (w : BackendWorld T) (s : State T) : Prop where
  committed : (s.db .channelMembers).committed = (w.state.db .channelMembers).committed
  versions : ∀ k t' v, (s.db .channelMembers).hold k = some ⟨t', some v⟩ ↔
    (w.state.db .channelMembers).hold k = some ⟨t', some v⟩
  elsewhere : ∀ k, k.1 ≠ c →
    (s.db .channelMembers).hold k = (w.state.db .channelMembers).hold k

omit [DecidableEq T] in
theorem Locks.of_eq {s : State T} (h : s.db .channelMembers = w.state.db .channelMembers) :
    Locks c w s := by
  constructor <;> simp [h]

omit [DecidableEq T] in
theorem Locks.clean {s : State T} (h : Locks c w s) (hw : Clean t w) {o : Op}
    {r : Except Exc o.Res} : Clean t (w.after t o r s) :=
  fun k v hv => hw k v ((h.versions k t v).mp hv)

omit [DecidableEq T] in
theorem Locks.membership {s : State T} (h : Locks c w s) {o : Op} {r : Except Exc o.Res}
    (c' : ChannelId) (u : UserId) : membership (w.after t o r s) c' u = membership w c' u :=
  congrFun h.committed (c', u)

/-- The contract speaks of the committed memberships only. -/
def AboutMembers (K : Contract (machine T hash)) : Prop :=
  ∀ t o r w s, K.inv w →
    (s.db .channelMembers).committed = (w.state.db .channelMembers).committed →
    K.inv (w.after t o r s) ∧ K.guar t o r w (w.after t o r s)

/-- The operations that leave `channel_members` alone. -/
def Aside : Op → Prop
  | .sql (.lock τ ..) | .sql (.update τ ..) | .sql (.insert τ ..) | .sql (.delete τ ..) =>
    τ ≠ .channelMembers
  | .sql .commit | .sql .rollback => False
  | _ => True

theorem aside_db {o : Op} (ho : Aside o) {ch : Choice} {r : Except Exc o.Res} {s : State T}
    (h : (machine T hash).exec t o ch w.state = some (r, s)) :
    s.db .channelMembers = w.state.db .channelMembers := by
  obtain hd | ⟨q, r', rfl, hd⟩ := exec_db h
  · rw [hd]
  · cases q with
    | select τ p => rw [(exec_select hd).1]
    | get τ k => rw [(exec_get hd).1]
    | lock τ k p =>
      obtain ⟨he, -⟩ | ⟨y, -, -, he, -⟩ := exec_lock hd
      · rw [he]
      · rw [he]
        exact Db.set_of_ne (Ne.symm ho) ..
    | update τ k p f =>
      obtain ⟨he, -⟩ | ⟨y, -, -, -, he, -⟩ := exec_update hd
      · rw [he]
      · rw [he]
        exact Db.set_of_ne (Ne.symm ho) ..
    | insert τ k f =>
      obtain ⟨he, -⟩ | ⟨now, -, -, he, -⟩ := exec_insert hd
      · rw [he]
      · rw [he]
        exact Db.set_of_ne (Ne.symm ho) ..
    | delete τ k =>
      obtain ⟨he, -⟩ | ⟨y, -, -, he, -⟩ := exec_delete hd
      · rw [he]
      · rw [he]
        exact Db.set_of_ne (Ne.symm ho) ..
    | commit => exact ho.elim
    | rollback => exact ho.elim

/-! ### Assertions that survive them -/

/-- Kept by the others, and by steps that leave `channel_members` alone. -/
structure Kept (K : Contract (machine T hash)) (t : T) (A : BackendWorld T → Prop) : Prop where
  stable : K.Stable t A
  aside : ∀ w o r s, s.db .channelMembers = w.state.db .channelMembers → A w → A (w.after t o r s)

/-- A look at the memberships, or the lock of one. -/
def Scans : Op → Prop
  | .sql (.select .channelMembers _) | .sql (.lock .channelMembers ..) => True
  | _ => False

/-- Kept by the others, and by locks in channel `c`. -/
structure LockKept (K : Contract (machine T hash)) (t : T) (c : ChannelId)
    (A : BackendWorld T → Prop) : Prop where
  stable : K.Stable t A
  locks : ∀ w o r s, Scans o → Locks c w s → A w → A (w.after t o r s)

theorem Kept.and {B : BackendWorld T → Prop} (hA : Kept K t A) (hB : Kept K t B) :
    Kept K t fun w => A w ∧ B w :=
  ⟨hA.stable.and hB.stable, fun w o r s h hw => ⟨hA.aside w o r s h hw.1, hB.aside w o r s h hw.2⟩⟩

theorem Kept.imp {P : Prop} (hA : P → Kept K t A) : Kept K t fun w => P → A w :=
  ⟨.imp fun hP => (hA hP).stable, fun w o r s h hw hP => (hA hP).aside w o r s h (hw hP)⟩

theorem kept_clean : Kept K t (Clean t) :=
  ⟨stable_clean, fun _ _ _ _ h hw => (Locks.of_eq (c := 0) h).clean hw⟩

theorem lockKept_true : LockKept K t c fun _ => True :=
  ⟨.const True, fun _ _ _ _ _ _ _ => trivial⟩

/-- As long as `A` is known, those in `S` are admins of channel `c`, and no step of the others or of
a scan lets in another. -/
structure Lasting (K : Contract (machine T hash)) (t : T) (c : ChannelId)
    (A : BackendWorld T → Prop) (S : BackendWorld T → UserId → Prop) : Prop where
  admin : ∀ w u, A w → S w u → Admin w c u
  other : ∀ w w' u, K.inv w → K.inv w' → K.Other t w w' → A w → S w' u → S w u
  locks : ∀ w o r s u, Scans o → Locks c w s → S (w.after t o r s) u → S w u

theorem lasting_none : Lasting K t c A fun _ _ => False :=
  ⟨fun _ _ _ h => h.elim, fun _ _ _ _ _ _ _ h => h, fun _ _ _ _ _ _ _ h => h⟩

variable (hK : AboutMembers K)
include hK

theorem Kept.step (hA : Kept K t A) {o : Op} (ho : Aside o) : K.StepOk t A o fun _ => A := by
  intro w ch r s hi hw _ h
  have hdb := aside_db ho h
  obtain ⟨hi', hg⟩ := hK t o r w s hi (by rw [hdb])
  exact ⟨hi', hg, hA.aside w o r s hdb hw⟩

/-- A piece of a request that leaves `channel_members` alone. -/
theorem Kept.only {α : Type} {p : Py α} (hA : Kept K t A) (hp : p.Only Aside) :
    K.Safe t p A (fun _ => A) fun _ _ => True :=
  (Contract.Safe.only hp hA.stable fun _ ho => hA.step hK ho).mono (fun _ _ hw => hw)
    (fun _ _ _ hw => hw) fun _ _ _ _ => trivial

theorem Kept.perform (hA : Kept K t A) {o : Op} (ho : Aside o) :
    K.Safe t (Prog.perform o) A (fun _ => A) fun _ _ => True :=
  hA.only hK (Prog.only_perform ho)

/-! ### Locking the admins -/

omit hK in
/-- One row lock: the row is the transaction's, and is kept if it is an admin's. -/
theorem lock_step {ch : Choice} {r : Except Exc (Option ChannelMember)} {s : State T}
    (hw : Clean t w)
    (h : (machine T hash).exec t (.sql (.lock .channelMembers (c, x) (isAdminOf c (c, x)))) ch
      w.state = some (r, s)) :
    Locks c w s ∧
      (∀ y, y ≠ x → (s.db .channelMembers).hold (c, y) = (w.state.db .channelMembers).hold (c, y)) ∧
      ∀ a, r = .ok a → (a.isSome = true ↔ Admin w c x) ∧
        (a.isSome = true → (s.db .channelMembers).Holds t (c, x)) := by
  obtain ⟨d, hd, rfl⟩ := exec_sql h
  obtain ⟨rfl, hr⟩ | ⟨m, hfree, hm, hset, rfl⟩ := exec_lock hd
  · refine ⟨.of_eq rfl, fun _ _ => rfl, fun a ha => ?_⟩
    obtain ⟨rfl, hnone⟩ := hr a ha
    refine ⟨⟨nofun, fun ⟨m, hm, _⟩ => ?_⟩, nofun⟩
    rw [view_of_clean hw] at hnone
    exact nomatch hnone.symm.trans hm
  have hlock : d .channelMembers = (w.state.db .channelMembers).lock t (c, x) := by
    rw [hset]
    exact Db.set_self ..
  rw [view_of_clean hw] at hm
  refine ⟨⟨?_, fun k t' v => ?_, fun k hk => ?_⟩, fun y hy => ?_, fun a ha => ?_⟩
  · show (d .channelMembers).committed = _
    rw [hlock]
    rfl
  · show (d .channelMembers).hold k = _ ↔ _
    rw [hlock]
    by_cases hkx : k = (c, x)
    · -- a row that is free and not written is locked, and not written
      subst hkx
      have hpend : ∀ t' v, (w.state.db .channelMembers).hold (c, x) ≠ some ⟨t', some v⟩ := by
        intro t' v hv
        obtain rfl : t' = t := hfree _ hv
        exact hw _ _ hv
      refine ⟨fun hv => ?_, fun hv => absurd hv (hpend t' v)⟩
      simp only [Table.lock, Table.hold_put_self, Option.some.injEq, Hold.mk.injEq] at hv
      obtain ⟨h₀, hh₀, hp⟩ := Option.bind_eq_some_iff.mp hv.2
      exact absurd (by rw [hh₀, ← hp]) (hpend h₀.owner v)
    · rw [Table.hold_lock_of_ne hkx]
  · show (d .channelMembers).hold k = _
    rw [hlock, Table.hold_lock_of_ne]
    rintro rfl
    exact hk rfl
  · show (d .channelMembers).hold (c, y) = _
    rw [hlock, Table.hold_lock_of_ne]
    rintro ⟨⟩
    exact hy rfl
  · cases ha
    have hadmin : Admin w c x ↔ isAdminOf c (c, x) m = true := by
      simp only [Admin, AdminLocks.membership, isAdminOf, hm]
      simp
    refine ⟨?_, fun _ => ?_⟩
    · rw [hadmin]
      cases isAdminOf c (c, x) m <;> simp
    · show (d .channelMembers).Holds t (c, x)
      rw [hlock]
      exact Table.holds_put_self

/-- The ids of the rows locked so far. -/
def lockedIds (rows : List (Option ((ChannelId × UserId) × ChannelMember))) : List UserId :=
  (rows.filterMap id).map fun r => r.1.2

/-- The ids are those of the admins whose row the transaction holds. -/
def Locked (t : T) (c : ChannelId) (ids : List UserId) (w : BackendWorld T) : Prop :=
  ids.Nodup ∧ ∀ u, Held t c u w ↔ u ∈ ids

omit hK in
/-- Among several ids there is another one. -/
theorem exists_ne_of_mem {ids : List UserId} (hnodup : ids.Nodup) (hu : u ∈ ids)
    (hlen : ids.length ≠ 1) : ∃ x ∈ ids, x ≠ u := by
  match ids with
  | [] => cases hu
  | [a] => exact absurd rfl hlen
  | a :: b :: ids =>
    have hab : a ≠ b := by
      rintro rfl
      exact (List.nodup_cons.mp hnodup).1 List.mem_cons_self
    by_cases ha : a = u
    · exact ⟨b, List.mem_cons_of_mem _ List.mem_cons_self, ha ▸ hab.symm⟩
    · exact ⟨a, List.mem_cons_self, ha⟩

variable {S : BackendWorld T → UserId → Prop}

/-- While the rows are locked one after the other: an admin who is held, or is one who lasts, is
still to come or is among those locked. -/
structure Locking (t : T) (c : ChannelId) (S : BackendWorld T → UserId → Prop)
    (ks : List (ChannelId × UserId))
    (rows : List (Option ((ChannelId × UserId) × ChannelMember))) (w : BackendWorld T) : Prop where
  distinct : ((lockedIds rows).map (c, ·) ++ ks).Nodup
  channel : ∀ k ∈ ks, k.1 = c
  covered : ∀ u, Held t c u w ∨ S w u → (c, u) ∈ ks ∨ u ∈ lockedIds rows
  held : ∀ u ∈ lockedIds rows, Held t c u w

omit hK in
theorem stable_locking (hA : K.Stable t A) (hS : Lasting K t c A S) {ks : List (ChannelId × UserId)}
    {rows : List (Option ((ChannelId × UserId) × ChannelMember))} :
    K.Stable t fun w => (A w ∧ Clean t w) ∧ Locking t c S ks rows w := by
  intro w w' hi hi' ho h
  refine ⟨(hA.and stable_clean) w w' hi hi' ho h.1, h.2.distinct, h.2.channel, fun u hu => ?_,
    fun u hu => (held_other ho).mpr (h.2.held u hu)⟩
  exact h.2.covered u (hu.imp (held_other ho).mp (hS.other w w' u hi hi' ho h.1.1))

theorem safe_lockRow (hA : LockKept K t c A) (hS : Lasting K t c A S) {k : ChannelId × UserId}
    {ks : List (ChannelId × UserId)} {rows : List (Option ((ChannelId × UserId) × ChannelMember))} :
    K.Safe t ((Py.sql (.lock .channelMembers k (isAdminOf c k))).bind fun x =>
        .ret (x.map fun v => (k, v)))
      (fun w => (A w ∧ Clean t w) ∧ Locking t c S (k :: ks) rows w)
      (fun b w => (A w ∧ Clean t w) ∧ Locking t c S ks (rows ++ [b]) w) fun _ _ => True := by
  refine Contract.Safe.await
    (fun a w => (A w ∧ Clean t w) ∧ Locking t c S ks (rows ++ [a.map fun v => (k, v)]) w)
    (fun a => stable_locking hA.stable hS) (fun _ => .const True)
    (fun w ch r s hi hw _ h => ?_) fun a _ _ hw => hw
  obtain ⟨⟨hAw, hclean⟩, hlocking⟩ := hw
  obtain ⟨c', x⟩ := k
  obtain rfl : c' = c := hlocking.channel _ List.mem_cons_self
  obtain ⟨hlocks, hothers, hx⟩ := lock_step hclean h
  obtain ⟨hi', hg⟩ := hK t _ r w s hi hlocks.committed
  refine ⟨hi', hg, ?_⟩
  cases r with
  | error e => trivial
  | ok a =>
    obtain ⟨hadmin, hholds⟩ := hx a rfl
    have hadmin' : ∀ u, Admin (w.after t (.sql (.lock .channelMembers (c', x)
        (isAdminOf c' (c', x)))) (.ok a) s) c' u ↔ Admin w c' u := by
      intro u
      unfold Admin
      rw [hlocks.membership]
    -- another admin is held after the lock if and only if it was held before
    have hheld : ∀ u, u ≠ x → (Held t c' u (w.after t (.sql (.lock .channelMembers (c', x)
        (isAdminOf c' (c', x)))) (.ok a) s) ↔ Held t c' u w) := by
      intro u hu
      have hold : (s.db .channelMembers).Holds t (c', u) ↔
          (w.state.db .channelMembers).Holds t (c', u) := by
        unfold Table.Holds
        rw [hothers u hu]
      exact and_congr hold (hadmin' u)
    have hids : lockedIds (rows ++ [a.map fun v => ((c', x), v)]) =
        lockedIds rows ++ (a.map fun _ => x).toList := by
      cases a <;> simp [lockedIds]
    have hlasts : ∀ u, S (w.after t (.sql (.lock .channelMembers (c', x)
        (isAdminOf c' (c', x)))) (.ok a) s) u → S w u := fun u =>
      hS.locks w _ _ s u trivial hlocks
    refine ⟨⟨hA.locks w _ _ s trivial hlocks hAw, hlocks.clean hclean⟩, ?_⟩
    refine ⟨?_, fun k hk => hlocking.channel k (List.mem_cons_of_mem _ hk), fun u hu => ?_,
      fun u hu => ?_⟩
    · have hdistinct := hlocking.distinct
      rw [hids]
      cases a with
      | none =>
        simp only [Option.map_none, Option.toList_none, List.append_nil]
        exact hdistinct.sublist ((List.sublist_cons_self _ _).append_left _)
      | some m => simpa using hdistinct
    · rw [hids, List.mem_append]
      by_cases hux : u = x
      · subst hux
        have hsome : a.isSome = true := by
          refine hadmin.mpr ?_
          obtain hu | hu := hu
          · exact (hadmin' u).mp hu.2
          · exact hS.admin w u hAw (hlasts u hu)
        obtain ⟨m, rfl⟩ := Option.isSome_iff_exists.mp hsome
        exact .inr (.inr (by simp))
      · obtain hu | hu := hlocking.covered u (hu.imp (hheld u hux).mp (hlasts u))
        · obtain he | hu := List.mem_cons.mp hu
          · exact absurd (Prod.mk.inj he).2 hux
          · exact .inl hu
        · exact .inr (.inl hu)
    · rw [hids, List.mem_append] at hu
      obtain hu | hu := hu
      · have hheldu := hlocking.held u hu
        have hux : u ≠ x := by
          rintro rfl
          have hdistinct := hlocking.distinct
          exact List.disjoint_of_nodup_append hdistinct (List.mem_map_of_mem hu)
            List.mem_cons_self
        exact (hheld u hux).mpr hheldu
      · cases a with
        | none => cases hu
        | some m =>
          obtain rfl : u = x := by simpa using hu
          exact ⟨hholds rfl, (hadmin' u).mpr (hadmin.mp rfl)⟩

/-- **The ids returned are those of the admins whose row is now held**, and whoever lasts is among
them. -/
theorem safe_lockChannelAdminIds (hA : LockKept K t c A) (hS : Lasting K t c A S) :
    K.Safe t (lockChannelAdminIds c) (fun w => A w ∧ Clean t w)
      (fun ids w => ((A w ∧ Clean t w) ∧ Locked t c ids w) ∧ ∀ u, S w u → u ∈ ids)
      fun _ _ => True := by
  refine Contract.Safe.bind (Q := fun rows w => ((A w ∧ Clean t w) ∧
    Locked t c (rows.map fun r => r.1.2) w) ∧ ∀ u, S w u → u ∈ rows.map fun r => r.1.2) ?_
    fun rows _ _ hw => hw
  -- the rows that are admins now, if they are held or last
  refine Contract.Safe.await
    (fun rows w => (A w ∧ Clean t w) ∧
      Locking t c S ((rows.map Prod.fst).insertionSort fun j k => decide (j.2 ≤ k.2) = true) [] w)
    (fun _ => stable_locking hA.stable hS) (fun _ => .const True) (fun w ch r s hi hw _ h => ?_)
    fun rows => ?_
  · obtain ⟨d, hd, rfl⟩ := exec_sql h
    obtain ⟨rfl, hperm⟩ := exec_select hd
    obtain ⟨hi', hg⟩ := hK t _ r w w.state hi rfl
    refine ⟨hi', hg, ?_⟩
    cases r with
    | error e => trivial
    | ok rows =>
      have hlocks : Locks c w w.state := .of_eq rfl
      have hrows := hperm rows rfl
      have hmem : ∀ k m, (k, m) ∈ rows ↔
          (w.state.db .channelMembers).committed k = some m ∧ isAdminOf c k m = true := by
        intro k m
        rw [hrows.mem_iff, Table.mem_scan, view_of_clean hw.2]
      have hsorted := List.perm_insertionSort
        (fun j k : ChannelId × UserId => decide (j.2 ≤ k.2) = true) (rows.map Prod.fst)
      refine ⟨⟨hA.locks w _ _ _ trivial hlocks hw.1, hlocks.clean hw.2⟩, ?_, fun k hk => ?_,
        fun u hu => ?_, nofun⟩
      · exact (hsorted.nodup_iff.mpr ((hrows.map Prod.fst).nodup_iff.mpr (Table.nodup_scan _)))
      · obtain ⟨⟨k', m⟩, hkm, rfl⟩ := List.mem_map.mp (hsorted.mem_iff.mp hk)
        have := ((hmem k' m).mp hkm).2
        simp only [isAdminOf, Bool.and_eq_true, decide_eq_true_eq] at this
        exact this.1
      · have hadmin : Admin w c u := by
          obtain hu | hu := hu
          · exact hu.2
          · exact hS.admin w u hw.1 (hS.locks w (.sql (.select .channelMembers (isAdminOf c))) _ _ u
              trivial hlocks hu)
        obtain ⟨m, hm, hrole⟩ := hadmin
        refine .inl (hsorted.mem_iff.mpr (List.mem_map.mpr ⟨((c, u), m), ?_, rfl⟩))
        exact (hmem _ m).mpr ⟨hm, by simp [isAdminOf, hrole]⟩
  · refine Contract.Safe.bind (Contract.Safe.forEach
      (I := fun ks rows w => (A w ∧ Clean t w) ∧ Locking t c S ks rows w)
      (fun k ks rows => safe_lockRow hK hA hS) _ []) fun locked w _ hw => ?_
    obtain ⟨hAw, hlocking⟩ := hw
    rw [List.nil_append] at hlocking
    have hdistinct : ((lockedIds locked).map (c, ·)).Nodup := by simpa using hlocking.distinct
    refine ⟨⟨hAw, hdistinct.of_map _, fun u => ⟨fun hu => ?_, hlocking.held u⟩⟩, fun u hu => ?_⟩
    · exact (hlocking.covered u (.inl hu)).resolve_left List.not_mem_nil
    · exact (hlocking.covered u (.inr hu)).resolve_left List.not_mem_nil

/-! ### The successor -/

omit hK in
theorem longestStanding_eq_none {rows : List ((ChannelId × UserId) × ChannelMember)} :
    longestStanding rows = none ↔ rows = [] := by
  rw [longestStanding, List.head?_eq_none_iff, List.map_eq_nil_iff, ← List.length_eq_zero_iff,
    List.length_insertionSort, List.length_eq_zero_iff]

omit hK in
/-- The successor is in one of the rows, and nobody in them joined earlier. -/
theorem longestStanding_eq_some {rows : List ((ChannelId × UserId) × ChannelMember)}
    {v : UserId × ChannelMember} (h : longestStanding rows = some v) :
    ∃ k, (k, v.2) ∈ rows ∧ k.2 = v.1 ∧ ∀ r ∈ rows, v.2.joinedAt ≤ r.2.joinedAt := by
  have hsorted := List.pairwise_insertionSort
    (fun a b : (ChannelId × UserId) × ChannelMember => a.2.joinedAt ≤ b.2.joinedAt) rows
  have hperm := List.perm_insertionSort
    (fun a b : (ChannelId × UserId) × ChannelMember => a.2.joinedAt ≤ b.2.joinedAt) rows
  unfold longestStanding at h
  cases hrows : rows.insertionSort fun a b => a.2.joinedAt ≤ b.2.joinedAt with
  | nil =>
    rw [hrows] at h
    cases h
  | cons r rs =>
    rw [hrows] at h hsorted hperm
    cases h
    refine ⟨r.1, hperm.mem_iff.mp List.mem_cons_self, rfl, fun r' hr' => ?_⟩
    obtain rfl | hr' := List.mem_cons.mp (hperm.mem_iff.mpr hr')
    · exact le_refl _
    · exact List.rel_of_pairwise_cons hsorted hr'

/-- The query for a successor sees the committed members but the departing one. -/
theorem safe_findSuccessor {B : Option (UserId × ChannelMember) → BackendWorld T → Prop}
    (hB : ∀ a, K.Stable t (B a))
    (h : ∀ w rows, A w → Clean t w → (∀ k m, (k, m) ∈ rows ↔
        membership w k.1 k.2 = some m ∧ k.1 = c ∧ k.2 ≠ u) →
      B (longestStanding rows) (w.after t (.sql (.select .channelMembers
        fun k _ => decide (k.1 = c) && decide (k.2 ≠ u))) (.ok rows) w.state)) :
    K.Safe t (findSuccessor c u) (fun w => A w ∧ Clean t w) B fun _ _ => True := by
  refine Contract.Safe.await (fun rows => B (longestStanding rows)) (fun _ => hB _)
    (fun _ => .const True) (fun w ch r s hi hw _ hx => ?_) fun rows _ _ hw => hw
  obtain ⟨d, hd, rfl⟩ := exec_sql hx
  obtain ⟨rfl, hperm⟩ := exec_select hd
  obtain ⟨hi', hg⟩ := hK t _ r w w.state hi rfl
  refine ⟨hi', hg, ?_⟩
  cases r with
  | error e => trivial
  | ok rows =>
    refine h w rows hw.1 hw.2 fun k m => ?_
    rw [(hperm rows rfl).mem_iff, Table.mem_scan, view_of_clean hw.2, Bool.and_eq_true,
      decide_eq_true_eq, decide_eq_true_eq]
    rfl

end Chatspace.AdminLocks
