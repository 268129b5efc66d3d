import Chatspace.Backend.Tables
import Chatspace.Interleave.Lockstep
import Chatspace.Services.Channels

/-!
# What a non-admin learns

The operations of a channel's admins look at their target only after the caller was found among the
locked admins.  Two databases that differ in the target alone, and in which the caller is no admin,
are therefore one to the caller: the operations run in lockstep, are refused alike, and leave
nothing but row locks.

* `lockstep_authorizeAdmin` — the authorization in two such databases;
* `nonadmin_noninterference` — **the three operations, as two-run statements.**
-/

namespace Chatspace.AdminAuthorization

open Interleave Store Channels

variable {T : Type} [DecidableEq T] {hash : RawToken → TokenHash} {t : T}
  {w v : BackendWorld T} {s s₁ s₂ : State T} {c : ChannelId} {caller target u : UserId}

/-- The user is an admin of the channel. -/
def IsAdmin (s : State T) (c : ChannelId) (u : UserId) : Prop :=
  ∃ m, (s.db .channelMembers).committed (c, u) = some m ∧ m.role = .admin

/-- Two databases at rest that differ in the target user and its membership of the channel only; the
admins of the channel are the same, and the caller is not among them. -/
structure DifferInTarget (c : ChannelId) (caller target : UserId) (s₁ s₂ : State T) : Prop where
  rest₁ : ∀ τ k, (s₁.db τ).hold k = none
  rest₂ : ∀ τ k, (s₂.db τ).hold k = none
  channels : (s₁.db .channels).committed = (s₂.db .channels).committed
  members : ∀ k, k ≠ (c, target) →
    (s₁.db .channelMembers).committed k = (s₂.db .channelMembers).committed k
  users : ∀ k, k ≠ target → (s₁.db .users).committed k = (s₂.db .users).committed k
  admins : ∀ u, IsAdmin s₁ c u ↔ IsAdmin s₂ c u
  caller : ¬IsAdmin s₁ c caller

/-- Since `s` the transaction has at most locked rows. -/
structure OnlyLocked (t : T) (s : State T) (w : BackendWorld T) : Prop where
  committed : ∀ τ, (w.state.db τ).committed = (s.db τ).committed
  hold : ∀ τ k h, (w.state.db τ).hold k = some h → h = ⟨t, none⟩
  rest : w.state = { s with db := w.state.db }

omit [DecidableEq T] in
theorem onlyLocked_start (h : ∀ τ k, (s.db τ).hold k = none) : OnlyLocked t s ⟨s, []⟩ where
  committed _ := rfl
  hold τ k x hx := by
    rw [h] at hx
    cases hx
  rest := rfl

namespace OnlyLocked

omit [DecidableEq T] in
theorem free (h : OnlyLocked t s w) {τ : Tbl} (k : τ.Key) : (w.state.db τ).Free t k := by
  intro x hx
  rw [h.hold τ k x hx]

/-- The transaction sees the committed rows. -/
theorem view (h : OnlyLocked t s w) {τ : Tbl} (k : τ.Key) :
    (w.state.db τ).view t k = (s.db τ).committed k := by
  rw [← h.committed]
  cases hk : (w.state.db τ).hold k with
  | none => exact Table.view_of_none hk
  | some x =>
    rw [h.hold τ k x hk] at hk
    exact Table.view_of_locked hk

omit [DecidableEq T] in
/-- A step that changes nothing. -/
theorem same (h : OnlyLocked t s w) {o : Op} {r : Except Exc o.Res} :
    OnlyLocked t s (w.after t o r w.state) := ⟨h.committed, h.hold, h.rest⟩

omit [DecidableEq T] in
/-- A row is locked. -/
theorem lock (h : OnlyLocked t s w) {o : Op} {r : Except Exc o.Res} {τ : Tbl} {k : τ.Key} :
    OnlyLocked t s (w.after t o r (w.state.set τ ((w.state.db τ).lock t k))) where
  committed τ' := by
    rw [World.after_state]
    by_cases hτ : τ' = τ
    · subst hτ
      rw [State.set_db, Table.committed_lock, h.committed]
    · rw [State.set_db_of_ne hτ, h.committed]
  hold τ' k' x hx := by
    rw [World.after_state] at hx
    by_cases hτ : τ' = τ
    · subst hτ
      rw [State.set_db] at hx
      by_cases hk : k' = k
      · subst hk
        have hpending : ((w.state.db τ').hold k').bind Hold.pending = none := by
          cases hy : (w.state.db τ').hold k' with
          | none => rfl
          | some y =>
            rw [h.hold τ' k' y hy]
            rfl
        rw [Table.lock, Table.hold_put_self, hpending] at hx
        exact (Option.some.inj hx).symm
      · rw [Table.hold_lock_of_ne hk] at hx
        exact h.hold τ' k' x hx
    · rw [State.set_db_of_ne hτ] at hx
      exact h.hold τ' k' x hx
  rest := by
    rw [World.after_state]
    show ({ w.state with db := _ } : State T) = _
    conv_lhs => rw [h.rest]
    rfl

end OnlyLocked

/-- The worlds of two runs in which at most rows have been locked since. -/
def BothLocked (t : T) (s₁ s₂ : State T) (w v : BackendWorld T) : Prop :=
  OnlyLocked t s₁ w ∧ OnlyLocked t s₂ v

/-- The key of an admin's row, in both databases. -/
def AdminKey (c : ChannelId) (s : State T) (k : ChannelId × UserId) : Prop :=
  k.1 = c ∧ IsAdmin s c k.2

section Lockstep

variable (h : DifferInTarget c caller target s₁ s₂)
include h

omit [DecidableEq T] in
theorem DifferInTarget.adminKey {k : ChannelId × UserId} : AdminKey c s₁ k ↔ AdminKey c s₂ k :=
  and_congr_right fun _ => h.admins k.2

/-- The channel is the same. -/
theorem lockstep_getChannel :
    (machine T hash).Lockstep t (BothLocked t s₁ s₂) (Py.get .channels c) (Py.get .channels c)
      (· = ·) := by
  apply Machine.Lockstep.perform
  intro w v ch r s hΦ hexec
  obtain ⟨hw, hv⟩ := hΦ
  obtain ⟨rfl, hr⟩ := exec_getTable hexec
  cases ch with
  | ok order value =>
    cases hexec
    refine ⟨.ok ((v.state.db .channels).view t c), v.state, rfl, ⟨hw.same, hv.same⟩, ?_⟩
    show (w.state.db .channels).view t c = (v.state.db .channels).view t c
    rw [hw.view, hv.view, h.channels]
  | fail e =>
    cases hexec
    exact ⟨.error e, v.state, rfl, ⟨hw.same, hv.same⟩, rfl⟩
  | lost e =>
    cases hexec
    exact ⟨.error e, v.state, rfl, ⟨hw.same, hv.same⟩, rfl⟩

end Lockstep

/-- The keys in the order in which the admins are locked. -/
abbrev lockOrder (rows : List ((ChannelId × UserId) × ChannelMember)) :
    List (ChannelId × UserId) :=
  (rows.map Prod.fst).insertionSort fun j k => decide (j.2 ≤ k.2) = true

/-- What is read of the admins: their keys, in some order. -/
def ReadsAdmins (c : ChannelId) (s : State T) (rows : List ((ChannelId × UserId) × ChannelMember)) :
    Prop :=
  (rows.map Prod.fst).Nodup ∧ ∀ k, k ∈ rows.map Prod.fst ↔ AdminKey c s k

theorem OnlyLocked.readsAdmins (h : OnlyLocked t s w)
    {rows : List ((ChannelId × UserId) × ChannelMember)}
    (hrows : rows.Perm ((w.state.db .channelMembers).scan t (isAdminOf c))) :
    ReadsAdmins c s rows := by
  refine ⟨(hrows.map Prod.fst).nodup_iff.mpr (Table.nodup_scan _), fun k => ?_⟩
  have hmem : ∀ m, (k, m) ∈ rows ↔
      (s.db .channelMembers).committed k = some m ∧ isAdminOf c k m = true := by
    intro m
    rw [hrows.mem_iff, Table.mem_scan, h.view]
  simp only [isAdminOf, Bool.and_eq_true, decide_eq_true_eq] at hmem
  constructor
  · intro hk
    obtain ⟨⟨k', m⟩, hkm, rfl⟩ := List.mem_map.mp hk
    obtain ⟨hm, hc, hrole⟩ := (hmem m).mp hkm
    refine ⟨hc, m, ?_, hrole⟩
    rw [← hc]
    exact hm
  · rintro ⟨rfl, m, hm, hrole⟩
    exact List.mem_map.mpr ⟨(k, m), (hmem m).mpr ⟨hm, rfl, hrole⟩, rfl⟩

omit [DecidableEq T] in
/-- The order of the locks is decided by who the admins are. -/
theorem lockOrder_eq {rows rows' : List ((ChannelId × UserId) × ChannelMember)}
    (h : ReadsAdmins c s₁ rows) (h' : ReadsAdmins c s₂ rows')
    (hadmins : ∀ k, AdminKey c s₁ k ↔ AdminKey c s₂ k) : lockOrder rows = lockOrder rows' := by
  have hperm : (rows.map Prod.fst).Perm (rows'.map Prod.fst) := by
    rw [List.perm_ext_iff_of_nodup h.1 h'.1]
    intro k
    rw [h.2, h'.2, hadmins]
  have htotal : Std.Total fun j k : ChannelId × UserId => decide (j.2 ≤ k.2) = true :=
    ⟨fun j k => by simpa using Nat.le_total j.2 k.2⟩
  have htrans : IsTrans (ChannelId × UserId) fun j k => decide (j.2 ≤ k.2) = true :=
    ⟨fun i j k => by simpa using Nat.le_trans⟩
  have hsort := List.perm_insertionSort
    (fun j k : ChannelId × UserId => decide (j.2 ≤ k.2) = true) (rows.map Prod.fst)
  have hsort' := List.perm_insertionSort
    (fun j k : ChannelId × UserId => decide (j.2 ≤ k.2) = true) (rows'.map Prod.fst)
  refine List.Perm.eq_of_pairwise (fun j k hj hk hjk hkj => ?_)
    (List.pairwise_insertionSort _ _) (List.pairwise_insertionSort _ _)
    (hsort.trans (hperm.trans hsort'.symm))
  -- rows of one channel with the same user are the same
  have hj' := ((h.2 j).mp (hsort.mem_iff.mp hj)).1
  have hk' := ((h'.2 k).mp (hsort'.mem_iff.mp hk)).1
  exact Prod.ext (hj'.trans hk'.symm)
    (Nat.le_antisymm (of_decide_eq_true hjk) (of_decide_eq_true hkj))

/-- A row is locked and still an admin's. -/
def LocksAdmin (k : ChannelId × UserId) (b : Option ((ChannelId × UserId) × ChannelMember)) :
    Prop :=
  ∃ m, b = some (k, m)

/-- One lock of `_lock_channel_admin_ids`, when nobody else holds the row. -/
theorem OnlyLocked.exec_lock (hash : RawToken → TokenHash) (h : OnlyLocked t s w)
    {k : ChannelId × UserId} (hk : AdminKey c s k) (ch : Choice) :
    ∃ r s', (machine T hash).exec t (.sql (.lock .channelMembers k (isAdminOf c k))) ch w.state =
        some (r, s') ∧
      OnlyLocked t s (w.after t (.sql (.lock .channelMembers k (isAdminOf c k))) r s') ∧
      ((∃ m, r = .ok (some m) ∧ ∃ order value, ch = .ok order value) ∨
        ∃ e, r = .error e ∧ (ch = .fail e ∨ ch = .lost e)) := by
  obtain ⟨hc, m, hm, hrole⟩ := hk
  have hadmin : isAdminOf c k m = true := by simp [isAdminOf, hc, hrole]
  have hview : (w.state.db .channelMembers).view t k = some m := by
    rw [h.view, ← hm, ← hc]
  have hfree : (w.state.db .channelMembers).Free t k := h.free (τ := .channelMembers) k
  cases ch with
  | ok order value =>
    refine ⟨.ok (some m), w.state.set .channelMembers ((w.state.db .channelMembers).lock t k), ?_,
      h.lock, .inl ⟨m, rfl, order, value, rfl⟩⟩
    simp only [machine, Op.exec, Choice.sql, Store.exec, hfree, if_true, hview, hadmin,
      Option.map_some]
    rfl
  | fail e => exact ⟨.error e, w.state, rfl, h.same, .inr ⟨e, rfl, .inl rfl⟩⟩
  | lost e => exact ⟨.error e, w.state, rfl, h.same, .inr ⟨e, rfl, .inr rfl⟩⟩

/-! ### The locked admins -/

/-- Each row is locked as an admin's, whatever it holds. -/
theorem lockstep_lock (h : DifferInTarget c caller target s₁ s₂) {k : ChannelId × UserId}
    (hk : AdminKey c s₁ k) :
    (machine T hash).Lockstep t (BothLocked t s₁ s₂)
      (Py.sql (.lock .channelMembers k (isAdminOf c k)))
      (Py.sql (.lock .channelMembers k (isAdminOf c k)))
      fun a b => (∃ m, a = some m) ∧ ∃ m, b = some m := by
  apply Machine.Lockstep.perform
  intro w v ch r s hΦ hexec
  obtain ⟨hw, hv⟩ := hΦ
  obtain ⟨r₁, u₁, hexec₁, hlock₁, hr₁⟩ := hw.exec_lock hash hk ch
  obtain ⟨r₂, u₂, hexec₂, hlock₂, hr₂⟩ := hv.exec_lock hash (h.adminKey.mp hk) ch
  cases hexec.symm.trans hexec₁
  refine ⟨r₂, u₂, hexec₂, ⟨hlock₁, hlock₂⟩, ?_⟩
  rcases hr₁ with ⟨m₁, rfl, order, value, hch⟩ | ⟨e, rfl, hch⟩
  · rcases hr₂ with ⟨m₂, rfl, -⟩ | ⟨e, -, hch₂⟩
    · exact ⟨⟨m₁, rfl⟩, ⟨m₂, rfl⟩⟩
    · rcases hch₂ with hch₂ | hch₂ <;> cases hch.symm.trans hch₂
  · rcases hr₂ with ⟨m₂, -, order, value, hch₂⟩ | ⟨e₂, rfl, hch₂⟩
    · rcases hch with hch | hch <;> cases hch.symm.trans hch₂
    · show e = e₂
      rcases hch with hch | hch <;> rcases hch₂ with hch₂ | hch₂ <;>
        cases hch.symm.trans hch₂ <;> rfl

theorem lockstep_selectAdmins :
    (machine T hash).Lockstep t (BothLocked t s₁ s₂) (Py.select .channelMembers (isAdminOf c))
      (Py.select .channelMembers (isAdminOf c))
      fun rows rows' => ReadsAdmins c s₁ rows ∧ ReadsAdmins c s₂ rows' := by
  apply Machine.Lockstep.perform
  intro w v ch r s hΦ hexec
  obtain ⟨hw, hv⟩ := hΦ
  cases ch with
  | ok order value =>
    cases hexec
    exact ⟨_, v.state, rfl, ⟨hw.same, hv.same⟩, hw.readsAdmins (shuffle_perm ..),
      hv.readsAdmins (shuffle_perm ..)⟩
  | fail e =>
    cases hexec
    exact ⟨.error e, v.state, rfl, ⟨hw.same, hv.same⟩, rfl⟩
  | lost e =>
    cases hexec
    exact ⟨.error e, v.state, rfl, ⟨hw.same, hv.same⟩, rfl⟩

/-- The locked rows are those read. -/
theorem map_of_locked {keys : List (ChannelId × UserId)}
    {locked : List (Option ((ChannelId × UserId) × ChannelMember))}
    (h : List.Forall₂ LocksAdmin keys locked) :
    (locked.filterMap id).map (fun r => r.1.2) = keys.map Prod.snd := by
  induction h with
  | nil => rfl
  | @cons k b keys locked hk _ ih =>
    obtain ⟨m, rfl⟩ := hk
    exact congrArg (k.2 :: ·) ih

theorem mem_lockOrder {rows : List ((ChannelId × UserId) × ChannelMember)}
    {k : ChannelId × UserId} : k ∈ lockOrder rows ↔ k ∈ rows.map Prod.fst :=
  List.mem_insertionSort _

/-- The ids of the locked admins are the same, and they are admins. -/
theorem lockstep_lockChannelAdminIds (h : DifferInTarget c caller target s₁ s₂) :
    (machine T hash).Lockstep t (BothLocked t s₁ s₂) (lockChannelAdminIds c)
      (lockChannelAdminIds c) fun ids ids' => ids = ids' ∧ ∀ u ∈ ids, IsAdmin s₁ c u := by
  have hadmins : ∀ k, AdminKey c s₁ k ↔ AdminKey c s₂ k := fun k => h.adminKey
  refine Machine.Lockstep.bind (R := fun rows rows' =>
    rows.map (fun r => r.1.2) = rows'.map (fun r => r.1.2) ∧
      ∀ u ∈ rows.map (fun r => r.1.2), IsAdmin s₁ c u) ?_ fun rows rows' hrows => .ret hrows
  apply Machine.Lockstep.bind lockstep_selectAdmins
  intro rows rows' hrows
  have horder := lockOrder_eq hrows.1 hrows.2 hadmins
  have hlocks : (machine T hash).Lockstep t (BothLocked t s₁ s₂)
      (Prog.forEach (lockOrder rows) fun k =>
        (Py.sql (.lock .channelMembers k (isAdminOf c k))).bind fun x =>
          .ret (x.map fun v => (k, v)))
      (Prog.forEach (lockOrder rows) fun k =>
        (Py.sql (.lock .channelMembers k (isAdminOf c k))).bind fun x =>
          .ret (x.map fun v => (k, v)))
      fun as bs => List.Forall₂ LocksAdmin (lockOrder rows) as ∧
        List.Forall₂ LocksAdmin (lockOrder rows) bs := by
    apply Machine.Lockstep.forEach
    intro k hk
    have hkey : AdminKey c s₁ k := (hrows.1.2 k).mp (mem_lockOrder.mp hk)
    apply Machine.Lockstep.bind (lockstep_lock h hkey)
    rintro a b ⟨⟨m, rfl⟩, m', rfl⟩
    exact .ret ⟨⟨m, rfl⟩, m', rfl⟩
  show (machine T hash).Lockstep t (BothLocked t s₁ s₂)
    ((Prog.forEach (lockOrder rows) _).bind _) ((Prog.forEach (lockOrder rows') _).bind _) _
  rw [← horder]
  apply Machine.Lockstep.bind hlocks
  rintro as bs ⟨has, hbs⟩
  apply Machine.Lockstep.ret
  refine ⟨(map_of_locked has).trans (map_of_locked hbs).symm, fun u hu => ?_⟩
  rw [map_of_locked has] at hu
  obtain ⟨k, hk, rfl⟩ := List.mem_map.mp hu
  exact ((hrows.1.2 k).mp (mem_lockOrder.mp hk)).2

/-- **Authorization.** The caller is refused, for the same reason. -/
theorem lockstep_authorizeAdmin (h : DifferInTarget c caller target s₁ s₂) :
    (machine T hash).Lockstep t (BothLocked t s₁ s₂) (authorizeAdmin c caller)
      (authorizeAdmin c caller) fun a b => a = b ∧ ∃ refusal, a = .error refusal := by
  apply Machine.Lockstep.bind (lockstep_getChannel h)
  rintro channel _ rfl
  cases channel with
  | none => exact .ret ⟨rfl, _, rfl⟩
  | some channel =>
    apply Machine.Lockstep.bind (lockstep_lockChannelAdminIds h)
    rintro ids _ ⟨rfl, hids⟩
    by_cases hempty : ids = []
    · rw [if_pos hempty]
      exact .ret ⟨rfl, _, rfl⟩
    · have hcaller : caller ∉ ids := fun hmem => h.caller (hids caller hmem)
      rw [if_neg hempty, if_pos hcaller]
      exact .ret ⟨rfl, _, rfl⟩

/-! ### A run there is -/

theorem returns_getChannel :
    (machine T hash).Returns t (OnlyLocked t s) (Py.get .channels c) fun _ => True := by
  apply Machine.Returns.perform
  intro w hw
  exact ⟨.ok [] 0, _, w.state, rfl, hw.same, trivial⟩

theorem returns_lockChannelAdminIds :
    (machine T hash).Returns t (OnlyLocked t s) (lockChannelAdminIds c) fun _ => True := by
  refine Machine.Returns.bind (Q := fun _ => True) ?_ fun rows _ => .ret trivial
  refine Machine.Returns.bind (Q := ReadsAdmins c s) ?_ fun rows hrows => ?_
  · apply Machine.Returns.perform
    intro w hw
    exact ⟨.ok [] 0, _, w.state, rfl, hw.same, hw.readsAdmins (shuffle_perm ..)⟩
  · refine Machine.Returns.bind (Q := fun as => List.Forall₂ (fun _ _ => True) (lockOrder rows) as)
      (Machine.Returns.forEach fun k hk => ?_) fun _ _ => .ret trivial
    refine Machine.Returns.bind (Q := fun _ => True) ?_ fun _ _ => .ret trivial
    apply Machine.Returns.perform
    intro w hw
    obtain ⟨r, u, hexec, hlock, ⟨m, rfl, -⟩ | ⟨e, -, hch⟩⟩ :=
      hw.exec_lock hash ((hrows.2 k).mp (mem_lockOrder.mp hk)) (.ok [] 0)
    · exact ⟨.ok [] 0, some m, u, hexec, hlock, trivial⟩
    · rcases hch with hch | hch <;> cases hch

theorem returns_authorizeAdmin :
    (machine T hash).Returns t (OnlyLocked t s) (authorizeAdmin c caller) fun _ => True := by
  apply Machine.Returns.bind returns_getChannel
  intro channel _
  cases channel with
  | none => exact .ret trivial
  | some channel =>
    apply Machine.Returns.bind returns_lockChannelAdminIds
    intro ids _
    split
    · exact .ret trivial
    · split
      · exact .ret trivial
      · exact .ret trivial

/-! ### The operations -/

/-- Run from either database, an operation answers alike, with a refusal or with an exception of
the environment's, and changes no row. -/
structure RefusedAlike {α : Type} (hash : RawToken → TokenHash) (t : T) (s₁ s₂ : State T) (p : Py α)
    (refused : Refusal → α) : Prop where
  /-- The operation can run to its end. -/
  ends : ∃ cs refusal w v, (machine T hash).Ends t p ⟨s₁, []⟩ cs (.ok (refused refusal)) w ∧
    (machine T hash).Ends t p ⟨s₂, []⟩ cs (.ok (refused refusal)) v
  alike : ∀ cs x w, (machine T hash).Ends t p ⟨s₁, []⟩ cs x w →
    ((∃ refusal, x = .ok (refused refusal)) ∨ ∃ e, x = .error e) ∧
      ∃ v, (machine T hash).Ends t p ⟨s₂, []⟩ cs x v ∧ OnlyLocked t s₁ w ∧ OnlyLocked t s₂ v

/-- What is refused by the authorization is refused alike. -/
theorem refusedAlike_of_authorize {α : Type} (h : DifferInTarget c caller target s₁ s₂)
    {refused : Refusal → α} {f : Except Refusal Channel → Py α}
    (hf : ∀ refusal, f (.error refusal) = .ret (refused refusal)) :
    RefusedAlike hash t s₁ s₂ ((authorizeAdmin c caller).bind f) refused := by
  have hstart : BothLocked t s₁ s₂ ⟨s₁, []⟩ ⟨s₂, []⟩ :=
    ⟨onlyLocked_start h.rest₁, onlyLocked_start h.rest₂⟩
  have hlock : (machine T hash).Lockstep t (BothLocked t s₁ s₂) ((authorizeAdmin c caller).bind f)
      ((authorizeAdmin c caller).bind f) fun a b => a = b ∧ ∃ refusal, a = refused refusal := by
    apply Machine.Lockstep.bind (lockstep_authorizeAdmin h)
    rintro a _ ⟨rfl, refusal, rfl⟩
    rw [hf]
    exact .ret ⟨rfl, refusal, rfl⟩
  constructor
  · -- the authorization returns, so it refuses, and so does the operation
    have hreturns : (machine T hash).Returns t (OnlyLocked t s₁) (authorizeAdmin c caller)
        fun _ => True := returns_authorizeAdmin
    obtain ⟨cs, a, w₁, hrun, -, -⟩ := hreturns ⟨s₁, []⟩ hstart.1
    obtain ⟨y, v₁, hrun', -, hy⟩ := lockstep_authorizeAdmin h _ _ cs _ w₁ hstart hrun
    cases y with
    | error e => exact hy.elim
    | ok b =>
      obtain ⟨rfl, refusal, rfl⟩ := hy
      have hret : ∀ w : BackendWorld T,
          (machine T hash).Ends t (f (.error refusal)) w [] (.ok (refused refusal)) w := by
        intro w
        rw [hf]
        exact .ret _ w
      exact ⟨cs ++ [], refusal, w₁, v₁, hrun.bind (hret w₁), hrun'.bind (hret v₁)⟩
  · intro cs x w hrun
    obtain ⟨y, v, hrun', hlocked, hxy⟩ := hlock _ _ cs x w hstart hrun
    cases x with
    | error e =>
      cases y with
      | ok b => exact hxy.elim
      | error e' =>
        cases hxy
        exact ⟨.inr ⟨e, rfl⟩, v, hrun', hlocked⟩
    | ok a =>
      cases y with
      | error e' => exact hxy.elim
      | ok b =>
        obtain ⟨rfl, refusal, rfl⟩ := hxy
        exact ⟨.inl ⟨refusal, rfl⟩, v, hrun', hlocked⟩

/-- **Noninterference.** To a caller that is no admin of the channel, an operation on a target
answers the same whether the target exists, is a member, or neither, and leaves every row. -/
theorem nonadmin_noninterference (h : DifferInTarget c caller target s₁ s₂)
    (role : ChannelMemberRole) :
    RefusedAlike hash t s₁ s₂ (addChannelMember c caller target role) .refused ∧
    RefusedAlike hash t s₁ s₂ (changeMemberRole c caller target role) .refused ∧
    RefusedAlike hash t s₁ s₂ (removeChannelMember c caller target) .refused := by
  refine ⟨?_, ?_, ?_⟩
  · exact refusedAlike_of_authorize h fun refusal => rfl
  · exact refusedAlike_of_authorize h fun refusal => rfl
  · exact refusedAlike_of_authorize h fun refusal => rfl

/-- A channel with the admin 7 and the member 8; user 9, when there is one, is a member too. -/
def withTarget (present : Bool) : State ℕ :=
  State.ofRows fun
    | .users => [(7, ⟨[], [], [], [], [], true, false, false, 0⟩),
        (8, ⟨[], [], [], [], [], true, false, false, 0⟩)] ++
        if present then [(9, ⟨[], [], [], [], [], true, false, false, 0⟩)] else []
    | .channels => [(3, ⟨[], false, 7, 0⟩)]
    | .channelMembers => [((3, 7), ⟨.admin, 0⟩), ((3, 8), ⟨.member, 1⟩)] ++
        if present then [((3, 9), ⟨.member, 2⟩)] else []
    | _ => []

theorem differInTarget_withTarget : DifferInTarget 3 8 9 (withTarget true) (withTarget false) := by
  have hmembers : ∀ k, k ≠ ((3, 9) : ChannelId × UserId) →
      ((withTarget true).db .channelMembers).committed k =
        ((withTarget false).db .channelMembers).committed k := by
    intro k hk
    exact Table.committed_ofRows_concat hk
  constructor
  · exact fun _ _ => rfl
  · exact fun _ _ => rfl
  · rfl
  · exact hmembers
  · intro k hk
    exact Table.committed_ofRows_concat hk
  · intro u
    by_cases hu : u = 9
    · subst hu
      constructor
      · rintro ⟨m, hm, hrole⟩
        cases hm
        cases hrole
      · rintro ⟨m, hm, -⟩
        cases hm
    · have hne : ((3, u) : ChannelId × UserId) ≠ (3, 9) := fun he => hu (congrArg Prod.snd he)
      unfold IsAdmin
      rw [hmembers _ hne]
  · rintro ⟨m, hm, hrole⟩
    cases hm
    cases hrole

theorem nonadmin_noninterference_member :
    DifferInTarget 3 8 9 (withTarget true) (withTarget false) ∧
    RefusedAlike id 0 (withTarget true) (withTarget false) (addChannelMember 3 8 9 .admin)
      .refused ∧
    RefusedAlike id 0 (withTarget true) (withTarget false) (changeMemberRole 3 8 9 .admin)
      .refused ∧
    RefusedAlike id 0 (withTarget true) (withTarget false) (removeChannelMember 3 8 9) .refused :=
  ⟨differInTarget_withTarget, nonadmin_noninterference differInTarget_withTarget .admin⟩

end Chatspace.AdminAuthorization
