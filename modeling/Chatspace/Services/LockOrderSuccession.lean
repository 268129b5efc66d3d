import Chatspace.Services.LockOrder

/-!
# The order in which rows are locked: the succession

The admins of a channel are locked after every row that is held, and whoever is promoted is asked for
after all of them.

* `safe_lockChannelAdminIds` — the admins of a channel, one after another;
* `safe_successorIn`, `safe_succession_all`, `safe_succession_one` — the successions of a
  deactivation and of a departure.
-/

namespace Chatspace.LockOrder

open Interleave Store Channels AdminUsers Sessions
open AdminLocks (Admin membership Clean view_of_clean)

variable {T : Type} [DecidableEq T] {hash : RawToken → TokenHash} {task : T → Task}
  {pos : ChannelId → ℕ} {t t' : T} {w w' : BackendWorld T} {c : ChannelId} {u x : UserId}
  {s : State T} {o : Op} {r : Except Exc o.Res}

variable {K : Contract (machine T hash)} {A : BackendWorld T → Prop}

/-! ### Selecting memberships -/

/-- What a query on the memberships answers, and that it changes nothing. -/
theorem select_step (pos : ChannelId → ℕ) {q : ChannelId × UserId → ChannelMember → Bool} {ch : Choice}
    {r : Except Exc (List ((ChannelId × UserId) × ChannelMember))} (hclean : Clean t w) (hi : Inv w)
    (h : (machine T hash).exec t (.sql (.select .channelMembers q)) ch w.state = some (r, s)) :
    s = w.state ∧ Inv (w.after t (.sql (.select .channelMembers q)) r s) ∧
      Step t w (w.after t (.sql (.select .channelMembers q)) r s) ∧
      InOrder pos t (.sql (.select .channelMembers q)) w ∧
      ∀ rows, r = .ok rows → (rows.map Prod.fst).Nodup ∧
        ∀ k m, (k, m) ∈ rows ↔ membership w k.1 k.2 = some m ∧ q k m = true := by
  have hforward : Forward t w s :=
    forward_of_exec (o := .sql (.select .channelMembers q)) ⟨by simp, by simp⟩ h
  obtain ⟨rfl, hperm⟩ := exec_selectTable h
  have hrows : ∀ rows, r = .ok rows → (rows.map Prod.fst).Nodup ∧
      ∀ k m, (k, m) ∈ rows ↔ membership w k.1 k.2 = some m ∧ q k m = true := by
    intro rows hr
    refine ⟨((hperm rows hr).map Prod.fst).nodup_iff.mpr (Table.nodup_scan _), fun k m => ?_⟩
    rw [(hperm rows hr).mem_iff, Table.mem_scan, view_of_clean hclean]
    rfl
  refine ⟨rfl, hi.after hforward.step hi.present (fun c rows he u => ?_), hforward.step,
    inOrder_of_none rfl, hrows⟩
  cases he
  have hmem := (hrows rows rfl).2
  unfold found Admin
  constructor
  · intro hu
    obtain ⟨⟨k, m⟩, hkm, rfl⟩ := List.mem_map.mp hu
    obtain ⟨hm, hq⟩ := (hmem k m).mp hkm
    simp only [isAdminOf, Bool.and_eq_true, decide_eq_true_eq] at hq
    exact ⟨m, hq.1 ▸ hm, hq.2⟩
  · intro hu
    obtain ⟨m, hm, hrole⟩ := hu
    exact List.mem_map.mpr ⟨((c, u), m), (hmem (c, u) m).mpr ⟨hm, by simp [isAdminOf, hrole]⟩, rfl⟩

/-! ### Locking the admins of a channel -/

omit [DecidableEq T] in
theorem rank_admin (h : Admin w c u) :
    rank pos w (.membership c u) = toLex (1, toLex (pos c, u)) := by
  rw [rank, if_pos h]

omit [DecidableEq T] in
theorem rank_notAdmin (h : ¬ Admin w c u) :
    rank pos w (.membership c u) = toLex (2, toLex (c, u)) := by
  rw [rank, if_neg h]

omit [DecidableEq T] in
theorem rank_sysAdmin (h : sysAdmin w u = true) :
    rank pos w (.user u) = toLex (0, toLex (u, 0)) := by
  rw [rank, if_pos h]

omit [DecidableEq T] in
theorem holder_user : holder w (.user u) = some t ↔ (w.state.db .users).Holds t u := by
  unfold holder Table.Holds
  rw [Option.map_eq_some_iff]
  constructor
  · rintro ⟨⟨owner, p⟩, hp, rfl⟩
    exact ⟨p, hp⟩
  · intro ⟨p, hp⟩
    exact ⟨_, hp, rfl⟩

omit [DecidableEq T] in
theorem holder_membership :
    holder w (.membership c u) = some t ↔ (w.state.db .channelMembers).Holds t (c, u) := by
  unfold holder Table.Holds
  rw [Option.map_eq_some_iff]
  constructor
  · rintro ⟨⟨owner, p⟩, hp, rfl⟩
    exact ⟨p, hp⟩
  · intro ⟨p, hp⟩
    exact ⟨_, hp, rfl⟩

omit [DecidableEq T] in
/-- What another transaction holds, this one does not. -/
theorem not_holds_of_other {k : ChannelId × UserId}
    (h : (w.state.db .channelMembers).Holds t' k) (hne : t' ≠ t) :
    ¬ (w.state.db .channelMembers).Holds t k := by
  intro ⟨p, hp⟩
  obtain ⟨p', hp'⟩ := h
  cases hp.symm.trans hp'
  exact hne rfl

omit [DecidableEq T] in
/-- A membership that is held is there. -/
theorem Inv.membership_of_holds (hi : Inv w) (h : (w.state.db .channelMembers).Holds t (c, u)) :
    membership w c u ≠ none := by
  intro hnone
  obtain ⟨p, hp⟩ := h
  exact nomatch (hi.present c u hnone).symm.trans hp

/-- Rows of the channel `c` are locked in order: `ks` of those found are still to come. -/
structure Locking (pos : ChannelId → ℕ) (t : T) (c : ChannelId) (S : UserId → Prop)
    (sel : List ((ChannelId × UserId) × ChannelMember)) (ks : List (ChannelId × UserId))
    (rows : List (Option ((ChannelId × UserId) × ChannelMember))) (w : BackendWorld T) : Prop where
  holds : HoldsAdmins t w
  selected : Selected t c sel w
  asked : ∀ u, S u → membership w c u = none ∨ u ∈ found sel
  earlier : ∀ k, (w.state.db .channelMembers).Holds t k → pos k.1 < pos c ∨ k.1 = c
  order : ∀ k, (w.state.db .channelMembers).Holds t k → k.1 = c → ∀ j ∈ ks,
    (w.state.db .channelMembers).Holds t j ∨ k.2 < j.2
  covered : ∀ u ∈ found sel, Admin w c u →
    (c, u) ∈ ks ∨ (w.state.db .channelMembers).Holds t (c, u)
  locked : ∀ u ∈ AdminLocks.lockedIds rows, u ∈ found sel ∧ Admin w c u ∧
    (w.state.db .channelMembers).Holds t (c, u)

variable {S : UserId → Prop} {sel : List ((ChannelId × UserId) × ChannelMember)}
  {ks : List (ChannelId × UserId)} {rows : List (Option ((ChannelId × UserId) × ChannelMember))}

theorem stable_locking : (contract hash task pos).Stable t (Locking pos t c S sel ks rows) := by
  intro w w' hi hi' ho h
  have hothers := others ho
  have hholds : ∀ k, (w'.state.db .channelMembers).Holds t k ↔
      (w.state.db .channelMembers).Holds t k := fun k => (other_keeps ho .channelMembers).holds.symm
  refine ⟨stable_holdsAdmins w w' hi hi' ho h.holds, (hothers.selected c sel).mpr h.selected,
    fun u hu => (h.asked u hu).imp_left (hothers.gone c u), fun k hk => ?_, fun k hk hc j hj => ?_,
    fun u hu ha => ?_, fun u hu => ?_⟩
  · exact h.earlier k ((hholds k).mp hk)
  · exact (h.order k ((hholds k).mp hk) hc j hj).imp_left (hholds j).mpr
  · exact (h.covered u hu (hothers.admin_of_found hi h.selected hu ha)).imp_right (hholds _).mpr
  · obtain ⟨hfound, ha, hheld⟩ := h.locked u hu
    obtain ⟨hheld', ha'⟩ := (AdminLocks.held_other ho).mpr ⟨hheld, ha⟩
    exact ⟨hfound, ha', hheld'⟩

omit [DecidableEq T] in
/-- The next row comes after all that are held. -/
theorem Locking.inOrder {k : ChannelId × UserId} (h : Locking pos t c S sel (k :: ks) rows w)
    (hi : Inv w) (hc : k.1 = c) (hfound : k.2 ∈ found sel) {p : ChannelMember → Bool} :
    InOrder pos t (.sql (.lock .channelMembers k p)) w := by
  intro y t' hy hholder hne z hz
  cases hy
  have hother := holder_membership.mp hholder
  have ha : Admin w k.1 k.2 := by
    subst hc
    exact (hi.lasting t k.1 sel h.selected k.2 hfound).resolve_right
      (hi.membership_of_holds hother)
  rw [rank_admin ha]
  cases z with
  | user v =>
    rw [rank_sysAdmin (h.holds.users v (holder_user.mp hz))]
    simp [Prod.Lex.toLex_lt_toLex]
  | membership c' v =>
    have hheld := holder_membership.mp hz
    rw [rank_admin (h.holds.members _ hheld)]
    simp only [Prod.Lex.toLex_lt_toLex, lt_self_iff_false, true_and, false_or]
    cases h.earlier _ hheld with
    | inl hlt => exact .inl (hc ▸ hlt)
    | inr heq =>
      have hlt := (h.order _ hheld heq k List.mem_cons_self).resolve_left
        (not_holds_of_other hother hne)
      exact .inr ⟨by rw [hc]; exact congrArg pos heq, hlt⟩

theorem lockedIds_concat {k : ChannelId × UserId} {a : Option ChannelMember} :
    AdminLocks.lockedIds (rows ++ [a.map fun v => (k, v)]) =
      AdminLocks.lockedIds rows ++ (a.map fun _ => k.2).toList := by
  cases a <;> simp [AdminLocks.lockedIds]

/-- Locking a row that is there, or finding that it is not. -/
theorem lock_cases {k : ChannelId × UserId} {p : ChannelMember → Bool} {ch : Choice}
    {r : Except Exc (Option ChannelMember)} (hclean : Clean t w)
    (h : (machine T hash).exec t (.sql (.lock .channelMembers k p)) ch w.state = some (r, s)) :
    (s = w.state ∧ ∀ a, r = .ok a → a = none ∧ membership w k.1 k.2 = none) ∨
      ∃ m, membership w k.1 k.2 = some m ∧ r = .ok (if p m then some m else none) ∧
        s = w.state.set .channelMembers ((w.state.db .channelMembers).lock t k) ∧
        ((w.state.db .channelMembers).hold k).bind Hold.pending = none := by
  obtain ⟨rfl, hr⟩ | ⟨m, hfree, hm, rfl, rfl⟩ := exec_lockTable h
  · refine .inl ⟨rfl, fun a ha => ⟨(hr a ha).1, ?_⟩⟩
    exact (view_of_clean hclean k).symm.trans (hr a ha).2
  · refine .inr ⟨m, (view_of_clean hclean k).symm.trans hm, rfl, rfl, ?_⟩
    rw [Option.bind_eq_none_iff]
    intro h₀ hh₀
    have howner : h₀.owner = t := hfree h₀ hh₀
    cases hp : h₀.pending with
    | none => rfl
    | some v =>
      refine absurd ?_ (hclean k v)
      rw [hh₀, ← howner, ← hp]

omit [DecidableEq T] in
/-- An admin's membership is locked. -/
theorem HoldsAdmins.lock {k : ChannelId × UserId} (h : HoldsAdmins t w) (ha : Admin w k.1 k.2)
    (hpending : ((w.state.db .channelMembers).hold k).bind Hold.pending = none)
    (hforward : Forward t w (w.state.set .channelMembers ((w.state.db .channelMembers).lock t k))) :
    HoldsAdmins t (w.after t o r
      (w.state.set .channelMembers ((w.state.db .channelMembers).lock t k))) where
  users u hu := by
    rw [hforward.sysAdmin]
    exact h.users u hu
  members j hj := by
    rw [hforward.admin]
    rw [World.after_state, State.set_db, Table.holds_lock] at hj
    cases hj with
    | inl he => exact he ▸ ha
    | inr hj => exact h.members j hj
  usersClean := h.usersClean
  clean j v hv := by
    rw [World.after_state, State.set_db] at hv
    by_cases hjk : j = k
    · subst hjk
      rw [Table.lock, Table.hold_put_self, hpending] at hv
      cases hv
    · rw [Table.hold_lock_of_ne hjk] at hv
      exact h.clean j v hv

theorem safe_lockRow {k : ChannelId × UserId} (hc : k.1 = c) (hfound : k.2 ∈ found sel)
    (hsorted : ∀ j ∈ ks, j.1 = c ∧ k.2 < j.2) :
    (contract hash task pos).Safe t ((Py.sql (.lock .channelMembers k (isAdminOf c k))).bind
        fun x => .ret (x.map fun v => (k, v)))
      (Locking pos t c S sel (k :: ks) rows) (fun b => Locking pos t c S sel ks (rows ++ [b]))
      fun _ _ => True := by
  refine Contract.Safe.await (fun a => Locking pos t c S sel ks (rows ++ [a.map fun v => (k, v)]))
    (fun _ => stable_locking) (fun _ => .const True) (fun w ch r s hi hw _ h => ?_)
    fun _ _ _ hw => hw
  have hforward : Forward t w s :=
    forward_of_exec (o := .sql (.lock .channelMembers k (isAdminOf c k))) ⟨nofun, nofun⟩ h
  have horder := hw.inOrder hi hc hfound (p := isAdminOf c k)
  obtain ⟨rfl, hr⟩ | ⟨m, hm, rfl, rfl, hpending⟩ := lock_cases hw.holds.clean h
  · -- the membership has ended, or the statement failed
    refine ⟨hi.after hforward.step hi.present (fun c rows he => by cases he),
      ⟨hforward.step, horder⟩, ?_⟩
    cases r with
    | error e => trivial
    | ok a =>
      obtain ⟨rfl, hnone⟩ := hr a rfl
      refine ⟨hw.holds.aside rfl rfl, hw.selected.after, hw.asked,
        hw.earlier, fun j hj hjc i hi' => hw.order j hj hjc i (List.mem_cons_of_mem _ hi'),
        fun u hu ha => ?_, fun u hu => ?_⟩
      · refine (hw.covered u hu ha).imp_left fun hmem => ?_
        refine (List.mem_cons.mp hmem).resolve_left fun he => ?_
        subst he
        exact not_admin_of_none hnone ha
      · rw [lockedIds_concat] at hu
        exact hw.locked u (by simpa using hu)
  have hadmin : Admin w k.1 k.2 := by
    subst hc
    refine (hi.lasting t k.1 sel hw.selected k.2 hfound).resolve_right fun hnone => ?_
    exact nomatch hnone.symm.trans hm
  have hholds : ∀ j, ((w.state.set .channelMembers ((w.state.db .channelMembers).lock t k)).db
      .channelMembers).Holds t j ↔ j = k ∨ (w.state.db .channelMembers).Holds t j := by
    intro j
    rw [State.set_db]
    exact Table.holds_lock
  refine ⟨hi.after hforward.step (fun c' u hnone => ?_) (fun c rows he => by cases he),
    ⟨hforward.step, horder⟩, ?_⟩
  · have hnone' : membership w c' u = none := (hforward.membership c' u).symm.trans hnone
    have hne : (c', u) ≠ k := by
      rintro rfl
      exact nomatch hnone'.symm.trans hm
    rw [State.set_db, Table.hold_lock_of_ne hne]
    exact hi.present c' u hnone'
  · refine ⟨hw.holds.lock hadmin hpending hforward, hw.selected.after,
      fun u hu => (hw.asked u hu).imp_left (hforward.membership c u).trans, fun j hj => ?_,
      fun j hj hjc i hi' => ?_, fun u hu ha => ?_, fun u hu => ?_⟩
    · cases (hholds j).mp hj with
      | inl he => exact .inr (he ▸ hc)
      | inr hj => exact hw.earlier j hj
    · cases (hholds j).mp hj with
      | inl he => exact .inr (he ▸ (hsorted i hi').2)
      | inr hj =>
        refine (hw.order j hj hjc i (List.mem_cons_of_mem _ hi')).imp_left fun hheld => ?_
        exact (hholds i).mpr (.inr hheld)
    · cases hw.covered u hu (hforward.admin.mp ha) with
      | inl hmem =>
        refine (List.mem_cons.mp hmem).symm.imp_right fun he => ?_
        exact (hholds _).mpr (.inl he)
      | inr hheld => exact .inr ((hholds _).mpr (.inr hheld))
    · rw [lockedIds_concat, List.mem_append] at hu
      cases hu with
      | inl hu =>
        obtain ⟨hfoundu, ha, hheld⟩ := hw.locked u hu
        exact ⟨hfoundu, hforward.admin.mpr ha, (hholds _).mpr (.inr hheld)⟩
      | inr hu =>
        have hku : k = (c, u) := by
          have hu' : u = k.2 := by
            split at hu <;> simp at hu
            exact hu
          rw [hu', ← hc]
        subst hku
        exact ⟨hfound, hforward.admin.mpr hadmin, (hholds _).mpr (.inl rfl)⟩

/-- The membership has ended, or the transaction holds it. -/
def Reserved (t : T) (c : ChannelId) (u : UserId) (w : BackendWorld T) : Prop :=
  membership w c u = none ∨ (w.state.db .channelMembers).Holds t (c, u)

/-- The channel in which a transaction may lock the admins next: what it holds is in it, or in
earlier ones. -/
def Reached (pos : ChannelId → ℕ) (t : T) (c : ChannelId) (w : BackendWorld T) : Prop :=
  ∀ k, (w.state.db .channelMembers).Holds t k → pos k.1 < pos c ∨ k.1 = c

/-- The keys of the channel that were found, in the order in which they are locked. -/
structure Queue (c : ChannelId) (sel : List ((ChannelId × UserId) × ChannelMember))
    (ks : List (ChannelId × UserId)) : Prop where
  sorted : ks.Pairwise fun j k => j.2 < k.2
  mem : ∀ k ∈ ks, k.1 = c ∧ k.2 ∈ found sel

theorem queue_insertionSort (hc : ∀ k ∈ sel.map Prod.fst, k.1 = c)
    (hnodup : (sel.map Prod.fst).Nodup) :
    Queue c sel ((sel.map Prod.fst).insertionSort fun j k => decide (j.2 ≤ k.2) = true) := by
  have hperm := List.perm_insertionSort
    (fun j k : ChannelId × UserId => decide (j.2 ≤ k.2) = true) (sel.map Prod.fst)
  have hle : ((sel.map Prod.fst).insertionSort fun j k => decide (j.2 ≤ k.2) = true).Pairwise
      fun j k => j.2 ≤ k.2 := by
    have htotal : Std.Total fun j k : ChannelId × UserId => decide (j.2 ≤ k.2) = true :=
      ⟨fun j k => by simpa using Nat.le_total j.2 k.2⟩
    have htrans : IsTrans (ChannelId × UserId) fun j k => decide (j.2 ≤ k.2) = true :=
      ⟨fun i j k => by simpa using Nat.le_trans⟩
    exact (List.pairwise_insertionSort (fun j k : ChannelId × UserId => decide (j.2 ≤ k.2) = true)
      (sel.map Prod.fst)).imp of_decide_eq_true
  refine ⟨?_, fun k hk => ?_⟩
  · refine List.Pairwise.imp_of_mem ?_ (hle.and (hperm.nodup_iff.mpr hnodup))
    intro j k hj hk ⟨hjk, hne⟩
    have hj' := hc j (hperm.mem_iff.mp hj)
    have hk' := hc k (hperm.mem_iff.mp hk)
    refine lt_of_le_of_ne hjk fun he => hne (Prod.ext (hj'.trans hk'.symm) he)
  · have hk' := hperm.mem_iff.mp hk
    obtain ⟨x, hx, rfl⟩ := List.mem_map.mp hk'
    exact ⟨hc x.1 hk', List.mem_map.mpr ⟨x, hx, rfl⟩⟩

/-- The admins are selected. -/
theorem select_queue (hi : Inv w)
    (hw : (HoldsAdmins t w ∧ Reached pos t c w) ∧ ∀ u, S u → Admin w c u ∨ membership w c u = none)
    (hafter : AfterHeld t c w) (hnodup : (sel.map Prod.fst).Nodup)
    (hmem : ∀ k m, (k, m) ∈ sel ↔ membership w k.1 k.2 = some m ∧ isAdminOf c k m = true) :
    Locking pos t c S sel ((sel.map Prod.fst).insertionSort fun j k => decide (j.2 ≤ k.2) = true) []
        (w.after t (.sql (.select .channelMembers (isAdminOf c))) (.ok sel) w.state) ∧
      Queue c sel ((sel.map Prod.fst).insertionSort fun j k => decide (j.2 ≤ k.2) = true) := by
  have hperm := List.perm_insertionSort
    (fun j k : ChannelId × UserId => decide (j.2 ≤ k.2) = true) (sel.map Prod.fst)
  have hkey : ∀ k ∈ sel.map Prod.fst, k.1 = c ∧ Admin w k.1 k.2 := by
    intro k hk
    obtain ⟨⟨k, m⟩, hkm, rfl⟩ := List.mem_map.mp hk
    obtain ⟨hm, hq⟩ := (hmem k m).mp hkm
    simp only [isAdminOf, Bool.and_eq_true, decide_eq_true_eq] at hq
    exact ⟨hq.1, m, hm, hq.2⟩
  have hadmin : ∀ u, Admin w c u → ∃ m, ((c, u), m) ∈ sel := by
    intro u hu
    obtain ⟨m, hm, hrole⟩ := hu
    exact ⟨m, (hmem (c, u) m).mpr ⟨hm, by simp [isAdminOf, hrole]⟩⟩
  refine ⟨⟨hw.1.1.aside rfl rfl, List.mem_cons_self, fun u hu => ?_, hw.1.2, fun k hk hc j hj => ?_,
    fun u _ ha => ?_, fun k hk => (by cases hk)⟩, queue_insertionSort (fun k hk => (hkey k hk).1) hnodup⟩
  · refine (hw.2 u hu).symm.imp_right fun ha => ?_
    obtain ⟨m, hm⟩ := hadmin u ha
    exact List.mem_map.mpr ⟨_, hm, rfl⟩
  · by_cases hheld : (w.state.db .channelMembers).Holds t j
    · exact .inl hheld
    refine .inr ?_
    obtain ⟨hjc, hja⟩ := hkey j (hperm.mem_iff.mp hj)
    have hmemkeys : ∀ k, membership w k.1 k.2 ≠ none → k ∈ (w.state.db .channelMembers).keys := by
      intro k hk
      obtain ⟨m, hm⟩ := Option.ne_none_iff_exists'.mp hk
      exact Table.mem_keys_of_committed hm
    refine hafter k (hmemkeys k (hi.membership_of_holds hk)) j (hmemkeys j fun hnone => ?_) hc hk
      ⟨hjc, hheld, hjc ▸ hja⟩
    exact not_admin_of_none hnone hja
  · obtain ⟨m, hm⟩ := hadmin u ha
    exact .inl (hperm.mem_iff.mpr (List.mem_map.mpr ⟨_, hm, rfl⟩))

omit [DecidableEq T] in
/-- All rows are locked. -/
theorem Locking.done (h : Locking pos t c S sel [] rows w) (hi : Inv w) :
    (HoldsAdmins t w ∧ Reached pos t c w) ∧ (AdminLocks.lockedIds rows ≠ [] → Owns t c w) ∧
      ∀ u, S u → Reserved t c u w := by
  have hcovered : ∀ u ∈ found sel, Admin w c u → (w.state.db .channelMembers).Holds t (c, u) :=
    fun u hu ha => (h.covered u hu ha).resolve_left List.not_mem_nil
  refine ⟨⟨h.holds, h.earlier⟩, fun hids => ?_, fun u hu => ?_⟩
  · obtain ⟨u, hu⟩ := List.exists_mem_of_ne_nil _ hids
    obtain ⟨hfound, ha, -⟩ := h.locked u hu
    exact ⟨sel, h.selected, hcovered, u, hfound, ha⟩
  · refine (h.asked u hu).elim .inl fun hfound => ?_
    exact (hi.lasting t c sel h.selected u hfound).symm.imp_right (hcovered u hfound)

/-- **Locking the admins of a channel in order.** -/
theorem safe_lockChannelAdminIds (S : UserId → Prop) :
    (contract hash task pos).Safe t (lockChannelAdminIds c)
      (fun w => (HoldsAdmins t w ∧ Reached pos t c w) ∧
        ∀ u, S u → Admin w c u ∨ membership w c u = none)
      (fun ids w => (HoldsAdmins t w ∧ Reached pos t c w) ∧ (ids ≠ [] → Owns t c w) ∧
        ∀ u, S u → Reserved t c u w) fun _ _ => True := by
  refine Contract.Safe.bind (Q := fun rows w => (HoldsAdmins t w ∧ Reached pos t c w) ∧
    (rows.map (fun r => r.1.2) ≠ [] → Owns t c w) ∧ ∀ u, S u → Reserved t c u w) ?_
    fun rows _ _ hw => hw
  refine Contract.Safe.await (fun sel w => Locking pos t c S sel
      ((sel.map Prod.fst).insertionSort fun j k => decide (j.2 ≤ k.2) = true) [] w ∧
        Queue c sel ((sel.map Prod.fst).insertionSort fun j k => decide (j.2 ≤ k.2) = true))
    (fun _ => stable_locking.and (.const _))
    (fun _ => .const True) (fun w ch r s hi hw hp h => ?_) fun sel => ?_
  · obtain ⟨rfl, hi', hstep, horder, hrows⟩ := select_step pos hw.1.1.clean hi h
    refine ⟨hi', ⟨hstep, horder⟩, ?_⟩
    cases r with
    | error e => trivial
    | ok sel =>
      obtain ⟨hnodup, hmem⟩ := hrows sel rfl
      exact select_queue hi hw ((hp.1 _ rfl).2 c rfl) hnodup hmem
  · refine Contract.Safe.const fun hqueue => ?_
    refine Contract.Safe.bind ((Contract.Safe.forEach
      (I := fun ks rows w => Locking pos t c S sel ks rows w ∧ Queue c sel ks)
      (fun k ks rows => ?_) _ []).weaken fun _ _ hw => ⟨hw, hqueue⟩) fun locked w hi hw => ?_
    · refine Contract.Safe.const fun hq => ?_
      obtain ⟨hsorted, hrest⟩ := List.pairwise_cons.mp hq.sorted
      have hk := hq.mem k List.mem_cons_self
      have hks := fun j hj => hq.mem j (List.mem_cons_of_mem k hj)
      exact (safe_lockRow hk.1 hk.2 fun j hj => ⟨(hks j hj).1, hsorted j hj⟩).mono
        (fun _ _ hw => hw) (fun _ _ _ hw => ⟨hw, hrest, hks⟩) fun _ _ _ hw => hw
    · exact hw.1.done hi

/-! ### What is carried through a transaction -/

/-- Kept by the others, and by every step that does not end the transaction. -/
structure Carried (K : Contract (machine T hash)) (t : T) (A : BackendWorld T → Prop) : Prop where
  stable : K.Stable t A
  forward : ∀ w o r s, Forward t w s → A w → A (w.after t o r s)

/-- It is known at the end of a piece of the request as it was at the beginning. -/
theorem Carried.frame {α : Type} {p : Py α} {A B : BackendWorld T → Prop}
    {Q : α → BackendWorld T → Prop} {R : Exc → BackendWorld T → Prop} (hB : Carried K t B)
    (hp : p.Only Going) (h : K.Safe t p A Q R) :
    K.Safe t p (fun w => A w ∧ B w) (fun a w => Q a w ∧ B w) R :=
  (h.frame hp hB.stable fun w _ o r s ho hw hx => hB.forward w o r s (forward_of_exec ho hx) hw).mono
    (fun _ _ hw => hw) (fun _ _ _ hw => hw) fun _ _ _ hw => hw.1

theorem Carried.forall {ι : Type} {A : ι → BackendWorld T → Prop} (h : ∀ i, Carried K t (A i)) :
    Carried K t fun w => ∀ i, A i w :=
  ⟨.forall fun i => (h i).stable, fun w o r s hf hw i => (h i).forward w o r s hf (hw i)⟩

theorem Carried.imp {P : Prop} (h : Carried K t A) : Carried K t fun w => P → A w :=
  ⟨.imp fun _ => h.stable, fun w o r s hf hw hP => h.forward w o r s hf (hw hP)⟩

omit [DecidableEq T] in
theorem Owns.forward (h : Owns t c w) (hf : Forward t w s) : Owns t c (w.after t o r s) := by
  obtain ⟨rows, hrows, hcovered, u, hu, ha⟩ := h
  refine ⟨rows, hrows.after, fun v hv hav => ?_, u, hu, hf.admin.mpr ha⟩
  exact hf.holds _ (hcovered v hv (hf.admin.mp hav))

/-- The transaction owns the channel, and the user is no admin of it. -/
theorem carried_notAdmin :
    Carried (contract hash task pos) t fun w => Owns t c w ∧ ¬ Admin w c u :=
  ⟨stable_notAdmin, fun _ _ _ _ hf hw => ⟨hw.1.forward hf, fun ha => hw.2 (hf.admin.mp ha)⟩⟩

theorem carried_reserved : Carried (contract hash task pos) t (Reserved t c u) where
  stable _ _ _ _ ho h :=
    h.imp ((others ho).gone c u) (other_keeps ho .channelMembers).holds.mp
  forward _ _ _ _ hf h := h.imp (hf.membership c u).trans (hf.holds _)

/-! ### The succession -/

/-- A successor who is to be promoted: the channel is owned, and the user is no admin. -/
def Chosen (t : T) (x : ChannelId × UserId × ChannelMember) (w : BackendWorld T) : Prop :=
  x.2.2.role ≠ .admin → Owns t x.1 w ∧ ¬ Admin w x.1 x.2.1

theorem carried_chosen {x : ChannelId × UserId × ChannelMember} :
    Carried (contract hash task pos) t (Chosen t x) := carried_notAdmin.imp

theorem stable_reached {K : Contract (machine T hash)} : K.Stable t (Reached pos t c) :=
  fun _ _ _ _ ho h k hk => h k ((other_keeps ho .channelMembers).holds.mpr hk)

theorem stable_holding :
    (contract hash task pos).Stable t fun w => HoldsAdmins t w ∧ Reached pos t c w :=
  stable_holdsAdmins.and stable_reached

theorem safe_findSuccessor :
    (contract hash task pos).Safe t (findSuccessor c u)
      (fun w => (HoldsAdmins t w ∧ Reached pos t c w) ∧ Owns t c w)
      (fun v w => (HoldsAdmins t w ∧ Reached pos t c w) ∧ ∀ x, v = some x → Chosen t (c, x) w)
      fun _ _ => True := by
  have hstable : ∀ v : Option (UserId × ChannelMember), (contract hash task pos).Stable t fun w =>
      (HoldsAdmins t w ∧ Reached pos t c w) ∧ ∀ x, v = some x → Chosen t (c, x) w :=
    fun v => stable_holding.and (.forall fun x => .imp fun _ => carried_chosen.stable)
  refine Contract.Safe.await (fun rows w => (HoldsAdmins t w ∧ Reached pos t c w) ∧
      ∀ x, longestStanding rows = some x → Chosen t (c, x) w) (fun _ => hstable _)
    (fun _ => .const True) (fun w ch r s hi hw _ h => ?_) fun _ _ _ hw => hw
  have hforward : Forward t w s := forward_of_exec (o := .sql (.select .channelMembers
    fun k _ => decide (k.1 = c) && decide (k.2 ≠ u))) ⟨nofun, nofun⟩ h
  obtain ⟨rfl, hi', hstep, horder, hrows⟩ := select_step pos hw.1.1.clean hi h
  refine ⟨hi', ⟨hstep, horder⟩, ?_⟩
  cases r with
  | error e => trivial
  | ok rows =>
    refine ⟨⟨hw.1.1.aside rfl rfl, hw.1.2⟩, fun x hx hrole => ⟨hw.2.forward hforward, fun ha => ?_⟩⟩
    obtain ⟨k, hk, hkx, -⟩ := AdminLocks.longestStanding_eq_some hx
    obtain ⟨hm, hq⟩ := ((hrows rows rfl).2 k x.2).mp hk
    simp only [Bool.and_eq_true, decide_eq_true_eq] at hq
    obtain ⟨m, hm', hrole'⟩ := hforward.admin.mp ha
    rw [hq.1, hkx] at hm
    have hsame : some x.2 = some m := hm.symm.trans hm'
    exact hrole (Option.some.inj hsame ▸ hrole')

/-- The successor in one channel. -/
theorem safe_successorIn (S : UserId → Prop) :
    (contract hash task pos).Safe t (successorIn u c)
      (fun w => (HoldsAdmins t w ∧ Reached pos t c w) ∧
        ∀ u, S u → Admin w c u ∨ membership w c u = none)
      (fun b w => ((HoldsAdmins t w ∧ Reached pos t c w) ∧
        ∀ x, b = some x → x.1 = c ∧ Chosen t x w) ∧ ∀ u, S u → Reserved t c u w)
      fun _ _ => True := by
  refine Contract.Safe.bind (safe_lockChannelAdminIds S) fun ids => ?_
  show (contract hash task pos).Safe t (if _ then _ else _) _ _ _
  split
  · exact fun w _ hw => ⟨⟨hw.1, nofun⟩, hw.2.2⟩
  · rename_i hlen
    have hids : ids ≠ [] := by
      rintro rfl
      simp at hlen
    have hcarried : Carried (contract hash task pos) t fun w => ∀ u, S u → Reserved t c u w :=
      .forall fun u => .imp carried_reserved
    have hgoing : (findSuccessor c u).Only Going :=
      (Prog.only_perform (P := Going) (o := .sql (.select .channelMembers
        fun k _ => decide (k.1 = c) && decide (k.2 ≠ u))) ⟨nofun, nofun⟩).bind fun _ => trivial
    refine Contract.Safe.bind ((hcarried.frame hgoing safe_findSuccessor).weaken
      fun w _ hw => ⟨⟨hw.1, hw.2.1 hids⟩, hw.2.2⟩) fun successor w _ hw => ?_
    refine ⟨⟨hw.1.1, fun x hx => ?_⟩, hw.2⟩
    obtain ⟨v, hv, rfl⟩ := Option.map_eq_some_iff.mp hx
    exact ⟨rfl, hw.1.2 v hv⟩

/-! ### What a transaction has written -/

/-- What may be committed: the flags of users as they were but for the active one, ended
memberships, and admins of channels that are owned. -/
structure Fit (t : T) (w : BackendWorld T) : Prop where
  users : ∀ u v, (w.state.db .users).hold u = some ⟨t, some v⟩ →
    v.any User.isSystemAdmin = sysAdmin w u
  members : ∀ k m, (w.state.db .channelMembers).hold k = some ⟨t, some (some m)⟩ →
    m.role = .admin ∧ Owns t k.1 w

/-- Promotions are flushed in the order of their rows: `ks` are still to come. -/
structure Promoting (t : T) (ks : List (ChannelId × UserId)) (w : BackendWorld T) : Prop where
  users : ∀ u, (w.state.db .users).Holds t u → sysAdmin w u = true
  usersClean : UsersClean t w
  fit : Fit t w
  chosen : ∀ j ∈ ks, Owns t j.1 w ∧ ¬ Admin w j.1 j.2
  order : ∀ k, (w.state.db .channelMembers).Holds t k →
    Admin w k.1 k.2 ∨ ∀ j ∈ ks, k.1 < j.1 ∨ k.1 = j.1 ∧ k.2 < j.2

theorem stable_fit : (contract hash task pos).Stable t (Fit t) := by
  intro w w' hi hi' ho h
  refine ⟨fun u v hv => ?_, fun k m hm => ?_⟩
  · rw [(others ho).flags u]
    exact h.users u v (((other_keeps ho .users).hold u _).mpr hv)
  · obtain ⟨hrole, howns⟩ := h.members k m (((other_keeps ho .channelMembers).hold k _).mpr hm)
    exact ⟨hrole, stable_owns w w' hi hi' ho howns⟩

theorem stable_promoting : (contract hash task pos).Stable t (Promoting t ks) := by
  intro w w' hi hi' ho h
  refine ⟨fun u hu => ?_, stable_usersClean w w' hi hi' ho h.usersClean,
    stable_fit w w' hi hi' ho h.fit, fun j hj => stable_notAdmin w w' hi hi' ho (h.chosen j hj),
    fun k hk => ?_⟩
  · rw [(others ho).flags u]
    exact h.users u ((other_keeps ho .users).holds.mpr hu)
  · have hk' := (other_keeps ho .channelMembers).holds.mpr hk
    exact (h.order k hk').imp_left fun ha => ((AdminLocks.held_other ho).mpr ⟨hk', ha⟩).2

omit [DecidableEq T] in
theorem fit_of_clean (husers : UsersClean t w) (hmembers : Clean t w) : Fit t w :=
  ⟨fun u v hv => absurd hv (husers u v), fun k _ hm => absurd hm (hmembers k _)⟩

omit [DecidableEq T] in
/-- The next promotion comes after all that are held. -/
theorem Promoting.inOrder {k : ChannelId × UserId} (h : Promoting t (k :: ks) w)
    (pos : ChannelId → ℕ) {p : ChannelMember → Bool} {f : ChannelMember → ChannelMember} :
    InOrder pos t (.sql (.update .channelMembers k p f)) w := by
  intro y t' hy _ _ z hz
  cases hy
  rw [rank_notAdmin (h.chosen k List.mem_cons_self).2]
  cases z with
  | user v =>
    rw [rank_sysAdmin (h.users v (holder_user.mp hz))]
    simp [Prod.Lex.toLex_lt_toLex]
  | membership c v =>
    cases h.order _ (holder_membership.mp hz) with
    | inl ha =>
      rw [rank_admin ha]
      simp [Prod.Lex.toLex_lt_toLex]
    | inr hlt =>
      by_cases ha : Admin w c v
      · rw [rank_admin ha]
        simp [Prod.Lex.toLex_lt_toLex]
      · rw [rank_notAdmin ha]
        simpa [Prod.Lex.toLex_lt_toLex] using hlt k List.mem_cons_self

/-- A membership that the transaction sees is there. -/
theorem Inv.membership_of_view (hi : Inv w) {k : ChannelId × UserId} {m : ChannelMember}
    (h : (w.state.db .channelMembers).view t k = some m) : membership w k.1 k.2 ≠ none := by
  intro hnone
  have hfree := hi.present k.1 k.2 hnone
  rw [Table.view_of_none hfree] at h
  exact nomatch hnone.symm.trans h

omit [DecidableEq T] in
/-- A write of a membership that is there keeps the invariant. -/
theorem Inv.write (hi : Inv w) {k : ChannelId × UserId} {v : Option ChannelMember}
    (hk : membership w k.1 k.2 ≠ none)
    (hforward : Forward t w (w.state.set .channelMembers ((w.state.db .channelMembers).write t k v)))
    (ho : ∀ q, o ≠ .sql (.select .channelMembers q)) :
    Inv (w.after t o r
      (w.state.set .channelMembers ((w.state.db .channelMembers).write t k v))) := by
  refine hi.after hforward.step (fun c u hnone => ?_) fun c rows he => ?_
  · have hnone' : membership w c u = none := (hforward.membership c u).symm.trans hnone
    have hne : (c, u) ≠ k := by
      rintro rfl
      exact hk hnone'
    rw [State.set_db, Table.hold_write_of_ne hne]
    exact hi.present c u hnone'
  · have hop : Op.sql (.select .channelMembers (isAdminOf c)) = o := congrArg Entry.op he
    exact absurd hop.symm (ho _)

omit [DecidableEq T] in
theorem holds_write {k j : ChannelId × UserId} {v : Option ChannelMember} :
    ((w.state.db .channelMembers).write t k v).Holds t j ↔
      j = k ∨ (w.state.db .channelMembers).Holds t j := by
  by_cases hjk : j = k
  · subst hjk
    exact ⟨fun _ => .inl rfl, fun _ => Table.holds_put_self⟩
  · unfold Table.Holds
    rw [Table.hold_write_of_ne hjk]
    exact ⟨.inr, fun hj => hj.resolve_left hjk⟩

omit [DecidableEq T] in
/-- One more version is written. -/
theorem Fit.write (h : Fit t w) {k : ChannelId × UserId} {v : Option ChannelMember}
    (hforward : Forward t w (w.state.set .channelMembers ((w.state.db .channelMembers).write t k v)))
    (hv : ∀ m, v = some m → m.role = .admin ∧ Owns t k.1 w) :
    Fit t (w.after t o r
      (w.state.set .channelMembers ((w.state.db .channelMembers).write t k v))) := by
  refine ⟨fun u v hu => ?_, fun j m hj => ?_⟩
  · rw [hforward.sysAdmin]
    exact h.users u v hu
  · rw [World.after_state, State.set_db] at hj
    by_cases hjk : j = k
    · subst hjk
      rw [Table.hold_write_self] at hj
      cases hj
      exact (hv m rfl).imp_right fun howns => howns.forward hforward
    · rw [Table.hold_write_of_ne hjk] at hj
      exact (h.members j m hj).imp_right fun howns => howns.forward hforward

omit [DecidableEq T] in
theorem Forward.of_eq (husers : s.db .users = w.state.db .users)
    (hmembers : s.db .channelMembers = w.state.db .channelMembers) : Forward t w s := by
  constructor <;> simp [husers, hmembers]

omit [DecidableEq T] in
theorem Fit.aside (h : Fit t w) (husers : s.db .users = w.state.db .users)
    (hmembers : s.db .channelMembers = w.state.db .channelMembers) : Fit t (w.after t o r s) := by
  have hforward : Forward t w s := .of_eq husers hmembers
  refine ⟨fun u v hv => ?_, fun k m hm => ?_⟩
  · rw [hforward.sysAdmin]
    exact h.users u v (husers ▸ hv)
  · exact (h.members k m (hmembers ▸ hm)).imp_right fun howns => howns.forward hforward

theorem kept_fit : Kept (contract hash task pos) t (Fit t) :=
  ⟨stable_fit, fun _ _ _ _ husers hmembers h => h.aside husers hmembers⟩

/-- A successor is promoted. -/
theorem safe_flushSuccessor {k : ChannelId × UserId}
    (hks : ∀ j ∈ ks, k.1 < j.1 ∨ k.1 = j.1 ∧ k.2 < j.2) :
    (contract hash task pos).Safe t (Py.flushUpdate .channelMembers k promote)
      (Promoting t (k :: ks)) (fun _ => Promoting t ks) fun _ _ => True := by
  refine Contract.Safe.await (fun matched w => matched = true → Promoting t ks w)
    (fun _ => .imp fun _ => stable_promoting) (fun _ => .const True)
    (fun w ch r s hi hw _ h => ?_) fun matched => ?_
  · have hforward : Forward t w s := forward_of_exec
      (o := .sql (.update .channelMembers k (fun _ => true) promote)) ⟨nofun, nofun⟩ h
    have horder := hw.inOrder pos (p := fun _ => true) (f := promote)
    obtain ⟨rfl, hr⟩ | ⟨m, -, hm, -, rfl, rfl⟩ := exec_updateTable h
    · refine ⟨hi.after hforward.step hi.present (fun c rows he => by cases he),
        ⟨hforward.step, horder⟩, ?_⟩
      cases r with
      | error e => trivial
      | ok a => exact fun ha => absurd (ha ▸ rfl) hr
    have howns := (hw.chosen k List.mem_cons_self).1
    refine ⟨hi.write (hi.membership_of_view hm) hforward nofun, ⟨hforward.step, horder⟩,
      fun _ => ⟨fun u hu => ?_, hw.usersClean, hw.fit.write hforward fun m' hm' => ?_,
        fun j hj => ?_, fun j hj => ?_⟩⟩
    · rw [hforward.sysAdmin]
      exact hw.users u hu
    · cases hm'
      exact ⟨rfl, howns⟩
    · have hj' := hw.chosen j (List.mem_cons_of_mem _ hj)
      exact ⟨hj'.1.forward hforward, fun ha => hj'.2 (hforward.admin.mp ha)⟩
    · rw [World.after_state, State.set_db, holds_write] at hj
      cases hj with
      | inl he => exact .inr fun i hi' => he ▸ hks i hi'
      | inr hj =>
        exact (hw.order j hj).imp hforward.admin.mpr
          fun hlt i hi' => hlt i (List.mem_cons_of_mem _ hi')
  · cases matched with
    | true => exact fun _ _ hw => hw rfl
    | false => exact fun _ _ _ => trivial

/-- What is left to be done after the succession: no user is written, and those held are system
admins. -/
structure Settled (t : T) (w : BackendWorld T) : Prop where
  users : ∀ u, (w.state.db .users).Holds t u → sysAdmin w u = true
  usersClean : UsersClean t w
  fit : Fit t w

variable {successors : List (ChannelId × UserId × ChannelMember)}

theorem lexLe_total (j k : ℕ × ℕ) :
    (j.1 < k.1 ∨ (j.1 = k.1 ∧ j.2 ≤ k.2)) ∨ (k.1 < j.1 ∨ (k.1 = j.1 ∧ k.2 ≤ j.2)) := by
  omega

theorem lexLe_trans {i j k : ℕ × ℕ} (hij : i.1 < j.1 ∨ (i.1 = j.1 ∧ i.2 ≤ j.2))
    (hjk : j.1 < k.1 ∨ (j.1 = k.1 ∧ j.2 ≤ k.2)) : i.1 < k.1 ∨ (i.1 = k.1 ∧ i.2 ≤ k.2) := by
  omega

/-- The rows of the successors, one in each channel, in order. -/
theorem pairwise_promoted (hnodup : (successors.map Prod.fst).Nodup) :
    (((successors.filter fun s => s.2.2.role ≠ .admin).map fun s => (s.1, s.2.1)).insertionSort
      fun j k => j.1 < k.1 ∨ (j.1 = k.1 ∧ j.2 ≤ k.2)).Pairwise
      fun j k => j.1 < k.1 ∨ j.1 = k.1 ∧ j.2 < k.2 := by
  have htotal : Std.Total fun j k : ChannelId × UserId => j.1 < k.1 ∨ (j.1 = k.1 ∧ j.2 ≤ k.2) :=
    ⟨fun j k => lexLe_total j k⟩
  have htrans : IsTrans (ChannelId × UserId) fun j k => j.1 < k.1 ∨ (j.1 = k.1 ∧ j.2 ≤ k.2) :=
    ⟨fun i j k => lexLe_trans⟩
  have hchannels : ((successors.filter fun s => s.2.2.role ≠ .admin).map
      fun s => (s.1, s.2.1)).Pairwise fun j k => j.1 ≠ k.1 := by
    rw [List.pairwise_map]
    exact (List.pairwise_map.mp hnodup).sublist List.filter_sublist
  have hsorted := List.pairwise_insertionSort
    (fun j k : ChannelId × UserId => j.1 < k.1 ∨ (j.1 = k.1 ∧ j.2 ≤ k.2))
    ((successors.filter fun s => s.2.2.role ≠ .admin).map fun s => (s.1, s.2.1))
  have hdistinct := (List.perm_insertionSort
    (fun j k : ChannelId × UserId => j.1 < k.1 ∨ (j.1 = k.1 ∧ j.2 ≤ k.2))
    ((successors.filter fun s => s.2.2.role ≠ .admin).map fun s => (s.1, s.2.1))).symm.pairwise
      hchannels fun h => h.symm
  refine (hsorted.and hdistinct).imp fun ⟨hle, hne⟩ => ?_
  exact hle.imp_right fun he => absurd he.1 hne

theorem safe_flushSuccessors (hnodup : (successors.map Prod.fst).Nodup) :
    (contract hash task pos).Safe t (flushSuccessors successors)
      (fun w => HoldsAdmins t w ∧ ∀ x ∈ successors, Chosen t x w) (fun _ => Settled t)
      fun _ _ => True := by
  refine Contract.Safe.bind ((Contract.Safe.forEach (I := fun ks (_ : List Unit) w =>
    Promoting t ks w ∧ ks.Pairwise fun j k => j.1 < k.1 ∨ j.1 = k.1 ∧ j.2 < k.2)
    (fun k ks bs => ?_) _ []).weaken fun w _ hw => ⟨?_, pairwise_promoted hnodup⟩) fun _ w _ hw =>
      ⟨hw.1.users, hw.1.usersClean, hw.1.fit⟩
  · refine Contract.Safe.const fun hpairwise => ?_
    obtain ⟨hk, hks⟩ := List.pairwise_cons.mp hpairwise
    exact (safe_flushSuccessor hk).mono (fun _ _ hw => hw) (fun _ _ _ hw => ⟨hw, hks⟩)
      fun _ _ _ hw => hw
  · obtain ⟨hholds, hchosen⟩ := hw
    refine ⟨hholds.users, hholds.usersClean, fit_of_clean hholds.usersClean hholds.clean,
      fun j hj => ?_, fun k hk => .inl (hholds.members k hk)⟩
    rw [List.mem_insertionSort] at hj
    obtain ⟨x, hx, rfl⟩ := List.mem_map.mp hj
    obtain ⟨hx, hrole⟩ := List.mem_filter.mp hx
    exact hchosen x hx (by simpa using hrole)

/-! ### The succession in every channel -/

/-- The channels still to come are in order, and differ from those of the successors found. -/
structure Route (pos : ChannelId → ℕ) (cs : List ChannelId)
    (found : List (Option (ChannelId × UserId × ChannelMember))) : Prop where
  distinct : ((found.filterMap id).map Prod.fst ++ cs).Nodup
  ascending : cs.Pairwise fun c c' => pos c < pos c'

theorem Route.next {cs : List ChannelId}
    {found : List (Option (ChannelId × UserId × ChannelMember))} (h : Route pos (c :: cs) found)
    {b : Option (ChannelId × UserId × ChannelMember)} (hb : ∀ x, b = some x → x.1 = c) :
    Route pos cs (found ++ [b]) := by
  refine ⟨?_, (List.pairwise_cons.mp h.ascending).2⟩
  have hdistinct := h.distinct
  cases b with
  | none =>
    simp only [List.filterMap_append, List.filterMap_cons, id, List.filterMap_nil, List.append_nil]
    exact hdistinct.sublist ((List.sublist_cons_self _ _).append_left _)
  | some x =>
    simpa [List.filterMap_append, hb x rfl] using hdistinct

theorem rows_of_exec {q : ChannelId × UserId → ChannelMember → Bool} {ch : Choice}
    {rows : List ((ChannelId × UserId) × ChannelMember)}
    (h : (machine T hash).exec t (.sql (.select .channelMembers q)) ch w.state =
      some (.ok rows, s)) : rowsOf t q w ch = rows := by
  cases ch with
  | ok order value =>
    cases h
    rfl
  | fail e => cases h
  | lost e => cases h

/-- Rows of one user that come in order are in different channels, in order. -/
theorem route_of_rows {rows : List ((ChannelId × UserId) × ChannelMember)}
    (hnodup : (rows.map Prod.fst).Nodup) (huser : ∀ x ∈ rows, x.1.2 = u)
    (hascending : Ascending pos rows) : Route pos (rows.map fun r => r.1.1) [] := by
  have hkeys : rows.Pairwise fun a b => a.1 ≠ b.1 := List.pairwise_map.mp hnodup
  have hboth : rows.Pairwise fun a b => a.1.1 ≠ b.1.1 ∧ pos a.1.1 < pos b.1.1 := by
    refine List.Pairwise.imp_of_mem ?_ (hkeys.and hascending)
    intro a b ha hb ⟨hne, hab⟩
    have hne' : a.1.1 ≠ b.1.1 :=
      fun he => hne (Prod.ext he ((huser a ha).trans (huser b hb).symm))
    exact ⟨hne', hab.resolve_left hne'⟩
  refine ⟨?_, ?_⟩
  · simp only [List.filterMap_nil, List.map_nil, List.nil_append]
    exact List.pairwise_map.mpr (hboth.imp And.left)
  · exact List.pairwise_map.mpr (hboth.imp And.right)

/-- The transaction holds no membership. -/
def NoMembers (t : T) (w : BackendWorld T) : Prop :=
  ∀ k, ¬ (w.state.db .channelMembers).Holds t k

theorem stable_noMembers : K.Stable t (NoMembers t) :=
  fun _ _ _ _ ho h k hk => h k ((other_keeps ho .channelMembers).holds.mpr hk)

theorem going_successorIn : (successorIn u c).Only Going :=
  only_successorIn (fun _ => ⟨nofun, nofun⟩) (fun _ _ => ⟨nofun, nofun⟩) u c

theorem safe_successors {cs : List ChannelId}
    {found : List (Option (ChannelId × UserId × ChannelMember))} (hroute : Route pos (c :: cs) found) :
    (contract hash task pos).Safe t (successorIn u c)
      (fun w => (HoldsAdmins t w ∧ ∀ c' ∈ c :: cs, Reached pos t c' w) ∧
        ∀ x ∈ found.filterMap id, Chosen t x w)
      (fun b w => ((HoldsAdmins t w ∧ ∀ c' ∈ cs, Reached pos t c' w) ∧
        ∀ x ∈ (found ++ [b]).filterMap id, Chosen t x w) ∧ Route pos cs (found ++ [b]))
      fun _ _ => True := by
  have hcarried : Carried (contract hash task pos) t fun w =>
      ∀ x, x ∈ found.filterMap id → Chosen t x w := .forall fun x => .imp carried_chosen
  refine (hcarried.frame going_successorIn (safe_successorIn fun _ => False)).mono
    (fun w _ hw => ⟨⟨⟨hw.1.1, hw.1.2 c List.mem_cons_self⟩, fun _ h => h.elim⟩, hw.2⟩)
    (fun b w _ hw => ?_) fun _ _ _ hw => hw
  obtain ⟨⟨⟨⟨hholds, hreached⟩, hb⟩, -⟩, hfound⟩ := hw
  refine ⟨⟨⟨hholds, fun c' hc' k hk => .inl ?_⟩, fun x hx => ?_⟩, hroute.next fun x hx => (hb x hx).1⟩
  · have hlt := (List.pairwise_cons.mp hroute.ascending).1 c' hc'
    cases hreached k hk with
    | inl h => exact lt_trans h hlt
    | inr h => exact h ▸ hlt
  · rw [List.filterMap_append, List.mem_append] at hx
    cases hx with
    | inl hx => exact hfound x hx
    | inr hx => exact (hb x (by simpa [eq_comm] using hx)).2

/-- The succession of a deactivation. -/
theorem safe_succession_all :
    (contract hash task pos).Safe t (runSoleAdminSuccession u none)
      (fun w => HoldsAdmins t w ∧ NoMembers t w) (fun _ => Settled t) fun _ _ => True := by
  refine Contract.Safe.await (fun rows w => (HoldsAdmins t w ∧ NoMembers t w) ∧
    Route pos (rows.map fun r => r.1.1) [])
    (fun _ => (stable_holdsAdmins.and stable_noMembers).and (.const _)) (fun _ => .const True)
    (fun w ch r s hi hw hp h => ?_) fun rows => ?_
  · have hrowsOf := fun rows (he : r = .ok rows) => rows_of_exec (he ▸ h)
    obtain ⟨rfl, hi', hstep, horder, hrows⟩ := select_step pos hw.1.clean hi h
    refine ⟨hi', ⟨hstep, horder⟩, ?_⟩
    cases r with
    | error e => trivial
    | ok rows =>
      obtain ⟨hnodup, hmem⟩ := hrows rows rfl
      refine ⟨⟨hw.1.aside rfl rfl, hw.2⟩, route_of_rows (u := u) hnodup (fun x hx => ?_) ?_⟩
      · have hq := ((hmem x.1 x.2).mp hx).2
        simp only [Bool.and_eq_true, decide_eq_true_eq] at hq
        exact hq.1.1
      · rw [← hrowsOf rows rfl]
        exact (hp.1 _ rfl).1
  · refine Contract.Safe.const fun hroute => ?_
    refine Contract.Safe.bind ((Contract.Safe.forEach (I := fun cs found w =>
      ((HoldsAdmins t w ∧ ∀ c ∈ cs, Reached pos t c w) ∧
        ∀ x ∈ found.filterMap id, Chosen t x w) ∧ Route pos cs found)
      (fun c cs found => Contract.Safe.const safe_successors) _ []).weaken fun w _ hw => ?_)
      fun found => ?_
    · refine ⟨⟨⟨hw.1, fun c _ k hk => absurd hk (hw.2 k)⟩, ?_⟩, hroute⟩
      simp
    · refine Contract.Safe.const fun hroute => ?_
      refine Contract.Safe.bind (Q := fun _ => Settled t) ((safe_flushSuccessors ?_).weaken
        fun w _ hw => ⟨hw.1.1, by simpa using hw.2⟩) fun _ _ _ hw => hw
      simpa using hroute.distinct

/-! ### The succession in one channel -/

theorem going_flushSuccessors : (flushSuccessors successors).Only Going :=
  only_flushSuccessors (fun _ => ⟨nofun, nofun⟩) successors

/-- The query for the departing admin finds the membership or nothing. -/
theorem rows_of_one (u : UserId) {rows : List ((ChannelId × UserId) × ChannelMember)}
    (hnodup : (rows.map Prod.fst).Nodup) (hall : ∀ k ∈ rows.map Prod.fst, k = (c, u)) :
    rows = [] ∨ rows.map (fun r => r.1.1) = [c] := by
  match rows with
  | [] => exact .inl rfl
  | [a] => exact .inr (by simp [hall a.1 (by simp)])
  | a :: b :: rows =>
    have hab : a.1 = b.1 := (hall a.1 (by simp)).trans (hall b.1 (by simp)).symm
    simp [hab] at hnodup

/-- The succession of a departure: afterwards the membership is held, or there is none. -/
theorem safe_succession_one :
    (contract hash task pos).Safe t (runSoleAdminSuccession u (some c))
      (fun w => (HoldsAdmins t w ∧ Reached pos t c w) ∧ (Admin w c u ∨ membership w c u = none))
      (fun _ w => Settled t w ∧ Reserved t c u w) fun _ _ => True := by
  have hstable : (contract hash task pos).Stable t fun w =>
      Admin w c u ∨ membership w c u = none := by
    intro w w' _ _ ho h
    exact h.elim ((others ho).lasts c u) fun hnone => .inr ((others ho).gone c u hnone)
  refine Contract.Safe.await (fun rows w => (((HoldsAdmins t w ∧ Reached pos t c w) ∧
      (Admin w c u ∨ membership w c u = none)) ∧ (rows = [] → membership w c u = none)) ∧
      (rows = [] ∨ rows.map (fun r => r.1.1) = [c]))
    (fun _ => ((stable_holding.and hstable).and (.imp fun _ => ?_)).and (.const _))
    (fun _ => .const True) (fun w ch r s hi hw _ h => ?_) fun rows => ?_
  · exact fun w w' _ _ ho hnone => (others ho).gone c u hnone
  · have hforward : Forward t w s := forward_of_exec (o := .sql (.select .channelMembers
      fun k m => decide (k.2 = u) && decide (m.role = .admin) && (some c).all (k.1 = ·)))
      ⟨nofun, nofun⟩ h
    obtain ⟨rfl, hi', hstep, horder, hrows⟩ := select_step pos hw.1.1.clean hi h
    refine ⟨hi', ⟨hstep, horder⟩, ?_⟩
    cases r with
    | error e => trivial
    | ok rows =>
      obtain ⟨hnodup, hmem⟩ := hrows rows rfl
      have hq : ∀ k m, (k, m) ∈ rows ↔
          membership w k.1 k.2 = some m ∧ (k.2 = u ∧ m.role = .admin) ∧ k.1 = c := by
        intro k m
        rw [hmem]
        simp
      refine ⟨⟨⟨⟨hw.1.1.aside rfl rfl, hw.1.2⟩, hw.2.imp_left hforward.admin.mpr⟩, ?_⟩,
        rows_of_one u hnodup fun k hk => ?_⟩
      · rintro rfl
        refine hw.2.resolve_left fun ⟨m, hm, hrole⟩ => ?_
        exact absurd ((hq (c, u) m).mpr ⟨hm, ⟨rfl, hrole⟩, rfl⟩) List.not_mem_nil
      · obtain ⟨⟨k, m⟩, hkm, rfl⟩ := List.mem_map.mp hk
        obtain ⟨-, ⟨hu, -⟩, hc⟩ := (hq k m).mp hkm
        exact Prod.ext hc hu
  · refine Contract.Safe.const fun hrows => ?_
    have hflush : ∀ found : List (ChannelId × UserId × ChannelMember),
        (found.map Prod.fst).Nodup → (contract hash task pos).Safe t
          ((flushSuccessors found).bind fun _ => .ret (found.map Prod.fst))
          (fun w => (HoldsAdmins t w ∧ ∀ x ∈ found, Chosen t x w) ∧ Reserved t c u w)
          (fun _ w => Settled t w ∧ Reserved t c u w) fun _ _ => True :=
      fun found hnodup => Contract.Safe.bind
        (carried_reserved.frame going_flushSuccessors (safe_flushSuccessors hnodup))
        fun _ _ _ hw => hw
    cases hrows with
    | inl hnil =>
      subst hnil
      refine Contract.Safe.bind (Q := fun bs w => (HoldsAdmins t w ∧ Reserved t c u w) ∧ bs = [])
        (fun w _ hw => ⟨⟨hw.1.1.1, .inl (hw.2 rfl)⟩, rfl⟩) fun bs => ?_
      refine Contract.Safe.const fun hbs => ?_
      subst hbs
      exact (hflush [] (by simp)).weaken fun w _ hw => ⟨⟨hw.1, nofun⟩, hw.2⟩
    | inr hone =>
      rw [hone]
      refine Contract.Safe.bind (Q := fun bs w => ((HoldsAdmins t w ∧
        ∀ x ∈ bs.filterMap id, Chosen t x w) ∧ Reserved t c u w) ∧
          ((bs.filterMap id).map Prod.fst).Nodup) ?_ fun bs => Contract.Safe.const (hflush _)
      refine Contract.Safe.bind ((safe_successorIn fun v => v = u).weaken
        fun w _ hw => ⟨hw.1.1, fun v hv => hv ▸ hw.1.2⟩) fun b w _ hw => ?_
      obtain ⟨⟨⟨hholds, -⟩, hb⟩, hreserved⟩ := hw
      refine ⟨⟨⟨hholds, fun x hx => (hb x ?_).2⟩, hreserved u rfl⟩, ?_⟩
      · cases b <;> simp_all
      · cases b <;> simp

end Chatspace.LockOrder
