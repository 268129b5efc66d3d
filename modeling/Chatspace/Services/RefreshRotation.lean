import Chatspace.Services.Auth

/-!
# Refresh token rotation under interleaving

Any number of refreshes, each presenting a token of its own, step by step in any order.  A refresh
finds its session by the hash of its token and later updates it by id, so what the update replaces
is what the row holds then, not what was found.  New hashes are never old ones; hence a hash, once
replaced in the committed row, is spent for good.

* `tokenCurrent` — every update runs on a row that still holds the presented hash;
* `refresh_single_use` — **then one refresh of a token at most is committed**, and no refresh that
  starts after it returns;
* `refreshed_twice` — two refreshes that both find the row before either updates it both succeed.
-/

namespace Chatspace.RefreshRotation

open Interleave Store Sessions Auth

variable {T : Type} [DecidableEq T] {env : Primitives} {raw : T → RawToken} {raw₀ : RawToken}
  {t t' : T} {w w' : BackendWorld T} {id : SessionId} {h₀ : TokenHash} {P : Prop}

/-- The committed row of session `id` holds the hash `h₀`. -/
def Holder (h₀ : TokenHash) (id : SessionId) (w : BackendWorld T) : Prop :=
  ∃ s, row w id = some s ∧ s.refreshTokenHash = h₀

/-- No session holds the hash `h₀` any more. -/
def Spent (h₀ : TokenHash) (w : BackendWorld T) : Prop := ∀ id, ¬ Holder h₀ id w

/-- Refresh `t` has committed. -/
def Committed (t : T) (w : BackendWorld T) : Prop :=
  (⟨t, .sql .commit, .ok ()⟩ : Entry T Op Op.Res Exc) ∈ w.trace

/-- The hash of `raw₀` is known, no transaction writes it, one session holds it at most, and none
once a refresh that presented `raw₀` has committed. -/
structure Inv (env : Primitives) (raw : T → RawToken) (raw₀ : RawToken) (w : BackendWorld T) :
    Prop where
  known : env.hashRefreshToken raw₀ ∈ w.state.tokens
  pending : ∀ id t v, (w.state.db .sessions).hold id = some ⟨t, some v⟩ →
    ∃ s, v = some s ∧ s.refreshTokenHash ≠ env.hashRefreshToken raw₀
  unique : ∀ id id', Holder (env.hashRefreshToken raw₀) id w →
    Holder (env.hashRefreshToken raw₀) id' w → id = id'
  spent : ∀ t, raw t = raw₀ → Committed t w → Spent (env.hashRefreshToken raw₀) w
  once : ∀ t t', raw t = raw₀ → raw t' = raw₀ → Committed t w → Committed t' w → t = t'

/-- A session that holds the hash has held it before. -/
def Guar (h₀ : TokenHash) (w w' : BackendWorld T) : Prop := ∀ id, Holder h₀ id w' → Holder h₀ id w

/-- The refreshes that present `raw₀` update only a row that still holds its hash. -/
abbrev tokenCurrent (env : Primitives) (raw : T → RawToken) (raw₀ : RawToken) :
    Machine.Condition T Op Op.Res Exc Choice Tick (State T) where
  op t o _ w := raw t = raw₀ → ∀ id ∈ o.updated .sessions, ∀ s ∈ row w id,
    s.refreshTokenHash = env.hashRefreshToken raw₀
  event _ _ := True

def contract (env : Primitives) (raw : T → RawToken) (raw₀ : RawToken) :
    Contract (machine T env.hashRefreshToken) where
  inv := Inv env raw raw₀
  pre := tokenCurrent env raw raw₀
  guar _ _ _ := Guar (env.hashRefreshToken raw₀)

/-! ### What the steps keep -/

omit [DecidableEq T] in
theorem Guar.spent (h : Guar h₀ w w') (hs : Spent h₀ w) : Spent h₀ w' :=
  fun id hid => hs id (h id hid)

omit [DecidableEq T] in
theorem Guar.of_rows (h : ∀ id, row w' id = row w id) : Guar h₀ w w' := by
  rintro id ⟨s, hs, hh⟩
  exact ⟨s, (h id).symm.trans hs, hh⟩

omit [DecidableEq T] in
theorem committed_after {o : Op} {r : Except Exc o.Res} {s : State T}
    (ho : ∀ r', (⟨t, o, r⟩ : Entry T Op Op.Res Exc) ≠ ⟨t', .sql .commit, .ok r'⟩) :
    Committed t' (w.after t o r s) ↔ Committed t' w := by
  unfold Committed
  rw [World.after_trace, List.mem_cons]
  exact or_iff_right fun h => ho () h.symm

omit [DecidableEq T] in
/-- A step that commits nothing, and writes no version with the hash. -/
theorem inv_step {o : Op} {r : Except Exc o.Res} {s : State T} (hi : Inv env raw raw₀ w)
    (ho : ∀ t' r', (⟨t, o, r⟩ : Entry T Op Op.Res Exc) ≠ ⟨t', .sql .commit, .ok r'⟩)
    (htokens : w.state.tokens ⊆ s.tokens)
    (hrow : ∀ id, (s.db .sessions).committed id = row w id)
    (hpending : ∀ id t v, (s.db .sessions).hold id = some ⟨t, some v⟩ →
      ∃ s, v = some s ∧ s.refreshTokenHash ≠ env.hashRefreshToken raw₀) :
    Inv env raw raw₀ (w.after t o r s) ∧
      Guar (env.hashRefreshToken raw₀) w (w.after t o r s) := by
  have hg : Guar (env.hashRefreshToken raw₀) w (w.after t o r s) := .of_rows hrow
  refine ⟨⟨htokens hi.known, hpending, fun id id' h h' => ?_, fun t' ht hc => ?_,
    fun t₁ t₂ h₁ h₂ hc₁ hc₂ => ?_⟩, hg⟩
  · exact hi.unique id id' (hg id h) (hg id' h')
  · exact hg.spent (hi.spent t' ht ((committed_after (ho t')).mp hc))
  · exact hi.once t₁ t₂ h₁ h₂ ((committed_after (ho t₁)).mp hc₁) ((committed_after (ho t₂)).mp hc₂)

/-- The operations that leave the sessions alone. -/
def Harmless : Op → Prop
  | .sql (.get ..) | .sql (.select ..) | .sql .rollback | .utcNow | .tokenUrlsafe => True
  | _ => False

theorem harmless_step {o : Op} (ho : Harmless o) {r : Except Exc o.Res} {s : State T} {c : Choice}
    (hi : Inv env raw raw₀ w)
    (h : (machine T env.hashRefreshToken).exec t o c w.state = some (r, s)) :
    Inv env raw raw₀ (w.after t o r s) ∧
      Guar (env.hashRefreshToken raw₀) w (w.after t o r s) := by
  unfold Harmless at ho
  split at ho
  · obtain ⟨d, hd, rfl⟩ := exec_sql h
    obtain ⟨rfl, -⟩ := exec_get hd
    exact inv_step hi nofun (List.Subset.refl _) (fun _ => rfl) hi.pending
  · obtain ⟨d, hd, rfl⟩ := exec_sql h
    obtain ⟨rfl, -⟩ := exec_select hd
    exact inv_step hi nofun (List.Subset.refl _) (fun _ => rfl) hi.pending
  · obtain ⟨d, hd, rfl⟩ := exec_sql h
    obtain ⟨rfl, -⟩ | ⟨rfl, -⟩ := exec_rollback hd
    · exact inv_step hi nofun (List.Subset.refl _) (fun _ => rfl) hi.pending
    · exact inv_step hi nofun (List.Subset.refl _) (fun _ => rfl)
        fun id t' v hv => hi.pending id t' v (Table.release_eq_some hv).1
  · obtain ⟨-, rfl⟩ := exec_utcNow h
    exact inv_step hi nofun (List.Subset.refl _) (fun _ => rfl) hi.pending
  · obtain ⟨n, -, -, rfl⟩ := exec_tokenUrlsafe h
    exact inv_step hi nofun (List.subset_cons_self ..) (fun _ => rfl) hi.pending
  · exact ho.elim

/-- Refresh `t` has written over the hash, and nobody else can any more. -/
def Rotated (h₀ : TokenHash) (t : T) (w : BackendWorld T) : Prop :=
  ∃ id v, (w.state.db .sessions).hold id = some ⟨t, some v⟩ ∧ Holder h₀ id w

/-- No row of `sessions` is held by `t`. -/
def Idle (t : T) (w : BackendWorld T) : Prop := ∀ id, ¬ (w.state.db .sessions).Holds t id

theorem rotate_step {p : Session → Bool} {n ttl : ℕ} {now : Time} {r : Except Exc Bool}
    {s : State T} {c : Choice} (hi : Inv env raw raw₀ w) (hidle : Idle t w)
    (hn : n ≠ env.hashRefreshToken raw₀)
    (hpre : (tokenCurrent env raw raw₀).op t (.sql (.update .sessions id p (rotate n ttl now))) c w)
    (h : (machine T env.hashRefreshToken).exec t
      (.sql (.update .sessions id p (rotate n ttl now))) c w.state = some (r, s)) :
    Inv env raw raw₀ (w.after t (.sql (.update .sessions id p (rotate n ttl now))) r s) ∧
      Guar (env.hashRefreshToken raw₀) w
        (w.after t (.sql (.update .sessions id p (rotate n ttl now))) r s) ∧
      (r = .ok true → raw t = raw₀ → Rotated (env.hashRefreshToken raw₀) t
        (w.after t (.sql (.update .sessions id p (rotate n ttl now))) r s)) := by
  obtain ⟨d, hd, rfl⟩ := exec_sql h
  obtain ⟨rfl, hr⟩ | ⟨x, -, hx, -, hset, rfl⟩ := exec_update hd
  · obtain ⟨hi', hg⟩ := inv_step (t := t) (r := r)
      (o := .sql (.update .sessions id p (rotate n ttl now))) hi nofun (List.Subset.refl _)
      (fun _ => rfl) hi.pending
    exact ⟨hi', hg, fun h => absurd h hr⟩
  have hwrite : d .sessions = (w.state.db .sessions).write t id (some (rotate n ttl now x)) := by
    rw [hset]
    exact Db.set_self ..
  have hrow : ∀ j, (d .sessions).committed j = row w j := fun j => by rw [hwrite]; rfl
  rw [Table.view_of_not_holds (hidle id)] at hx
  have hpending : ∀ j t' v, (d .sessions).hold j = some ⟨t', some v⟩ →
      ∃ s, v = some s ∧ s.refreshTokenHash ≠ env.hashRefreshToken raw₀ := by
    intro j t' v hv
    rw [hwrite] at hv
    by_cases hj : j = id
    · subst hj
      rw [Table.hold_write_self] at hv
      cases hv
      exact ⟨_, rfl, hn⟩
    · rw [Table.hold_write_of_ne hj] at hv
      exact hi.pending j t' v hv
  obtain ⟨hi', hg⟩ := inv_step (t := t) (r := .ok true) (s := { w.state with db := d })
    (o := .sql (.update .sessions id p (rotate n ttl now))) hi nofun (List.Subset.refl _) hrow
    hpending
  refine ⟨hi', hg, fun _ ht => ⟨id, some (rotate n ttl now x), ?_, x, (hrow id).trans hx, ?_⟩⟩
  · show (d .sessions).hold id = _
    rw [hwrite]
    exact Table.hold_write_self
  · exact hpre ht id rfl x hx

/-- What a transaction sees of the hash is committed. -/
theorem Inv.holder_of_view (hi : Inv env raw raw₀ w) {x : Session}
    (h : (w.state.db .sessions).view t id = some x)
    (hx : x.refreshTokenHash = env.hashRefreshToken raw₀) :
    Holder (env.hashRefreshToken raw₀) id w := by
  obtain hv | ⟨v, hhold, hv⟩ := (w.state.db .sessions).view_cases t id
  · exact ⟨x, hv.symm.trans h, hx⟩
  · obtain ⟨s, rfl, hs⟩ := hi.pending id t v hhold
    have hxs : x = s := Option.some.inj (h.symm.trans hv)
    exact absurd (hxs ▸ hx) hs

/-- The commit of a refresh that has rotated its session, or presented another token. -/
theorem commit_step {r : Except Exc Unit} {s : State T} {c : Choice} (hi : Inv env raw raw₀ w)
    (hw : raw t = raw₀ → Rotated (env.hashRefreshToken raw₀) t w)
    (h : (machine T env.hashRefreshToken).exec t (.sql .commit) c w.state = some (r, s)) :
    Inv env raw raw₀ (w.after t (.sql .commit) r s) ∧
      Guar (env.hashRefreshToken raw₀) w (w.after t (.sql .commit) r s) := by
  obtain ⟨d, hd, rfl⟩ := exec_sql h
  obtain ⟨rfl, hr⟩ | ⟨rfl, rfl⟩ := exec_commit hd
  · refine inv_step hi (fun t' r' he => ?_) (List.Subset.refl _) (fun _ => rfl) hi.pending
    cases he
    exact hr rfl
  have hg : Guar (env.hashRefreshToken raw₀) w
      (w.after t (.sql .commit) (.ok ()) { w.state with db := w.state.db.commit t }) := by
    rintro id ⟨x, hx, hh⟩
    exact hi.holder_of_view hx hh
  have hold : ∀ t', Committed t' (w.after t (.sql .commit) (.ok ())
      { w.state with db := w.state.db.commit t }) → t' = t ∨ Committed t' w := by
    intro t' hc
    obtain he | hc := List.mem_cons.mp hc
    · cases he
      exact .inl rfl
    · exact .inr hc
  -- the row that `t` has rotated is the one that held the hash
  have hspent : raw t = raw₀ → ¬ Spent (env.hashRefreshToken raw₀) w ∧
      Spent (env.hashRefreshToken raw₀)
        (w.after t (.sql .commit) (.ok ()) { w.state with db := w.state.db.commit t }) := by
    intro ht
    obtain ⟨id, v, hv, hid⟩ := hw ht
    refine ⟨fun h => h id hid, fun j hj => ?_⟩
    obtain rfl := hi.unique j id (hg j hj) hid
    obtain ⟨x, hx, hh⟩ := hj
    obtain ⟨x', rfl, hne⟩ := hi.pending j t v hv
    have hxx : some x = some x' := hx.symm.trans (Table.view_of_hold hv)
    cases hxx
    exact hne hh
  refine ⟨⟨hi.known, fun id t' v hv => ?_, fun id id' h h' => ?_, fun t' ht hc => ?_,
    fun t₁ t₂ h₁ h₂ hc₁ hc₂ => ?_⟩, hg⟩
  · exact hi.pending id t' v (Table.release_eq_some hv).1
  · exact hi.unique id id' (hg id h) (hg id' h')
  · obtain rfl | hc := hold t' hc
    · exact (hspent ht).2
    · exact hg.spent (hi.spent t' ht hc)
  · obtain e₁ | o₁ := hold t₁ hc₁ <;> obtain e₂ | o₂ := hold t₂ hc₂
    · rw [e₁, e₂]
    · exact absurd (hi.spent t₂ h₂ o₂) (hspent (e₁ ▸ h₁)).1
    · exact absurd (hi.spent t₁ h₁ o₁) (hspent (e₂ ▸ h₂)).1
    · exact hi.once t₁ t₂ h₁ h₂ o₁ o₂

/-! ### Stable knowledge -/

theorem guar_other (h : (contract env raw raw₀).Other t w w') :
    Guar (env.hashRefreshToken raw₀) w w' := by
  cases h with
  | proc hne hpre hexec hguar => exact hguar
  | event hpre hexec =>
    cases hexec
    exact .of_rows fun _ => rfl

theorem stable_spent : (contract env raw raw₀).Stable t (Spent (env.hashRefreshToken raw₀)) :=
  fun _ _ _ _ ho h => (guar_other ho).spent h

theorem stable_committed : (contract env raw raw₀).Stable t (Committed t) := by
  intro w w' _ _ ho h
  cases ho with
  | proc hne hpre hexec hguar => exact List.mem_cons_of_mem _ h
  | event hpre hexec => exact h

theorem stable_idle : (contract env raw raw₀).Stable t (Idle t) :=
  fun _ _ _ _ ho h id hid => h id ((other_keeps ho .sessions).holds.mpr hid)

theorem stable_rotated :
    (contract env raw raw₀).Stable t (Rotated (env.hashRefreshToken raw₀) t) := by
  rintro w w' - - ho ⟨id, v, hv, x, hx, hh⟩
  have hkeeps := other_keeps ho .sessions
  exact ⟨id, v, (hkeeps.hold id _).mp hv, x, (hkeeps.committed id ⟨_, hv⟩).trans hx, hh⟩

/-! ### A refresh -/

/-- What a refresh knows before it writes: it holds nothing, or, if `P`, its token is spent. -/
def Late (raw : T → RawToken) (raw₀ : RawToken) (h₀ : TokenHash) (P : Prop) (t : T)
    (w : BackendWorld T) : Prop :=
  (¬ P → Idle t w) ∧ (P → raw t = raw₀ ∧ Spent h₀ w)

theorem stable_late : (contract env raw raw₀).Stable t
    (Late raw raw₀ (env.hashRefreshToken raw₀) P t) :=
  (Contract.Stable.imp fun _ => stable_idle).and
    (.imp fun _ => (Contract.Stable.const _).and stable_spent)

/-- The operations of a refresh before it writes. -/
def Reads : Op → Prop
  | .sql (.get ..) | .sql (.select ..) | .utcNow | .tokenUrlsafe => True
  | _ => False

theorem reads_step {o : Op} (ho : Reads o) {B : o.Res → Prop}
    (hB : ∀ w c s a, Inv env raw raw₀ w → Late raw raw₀ (env.hashRefreshToken raw₀) P t w →
      (machine T env.hashRefreshToken).exec t o c w.state = some (.ok a, s) → B a) :
    (contract env raw raw₀).StepOk t (Late raw raw₀ (env.hashRefreshToken raw₀) P t) o
      (Contract.Outcome (fun a w => Late raw raw₀ (env.hashRefreshToken raw₀) P t w ∧ B a)
        fun _ _ => True) := by
  intro w c r s hi hw _ h
  have hharmless : Harmless o ∧ s.db = w.state.db := by
    unfold Reads at ho
    split at ho
    · obtain ⟨d, hd, rfl⟩ := exec_sql h
      exact ⟨trivial, (exec_get hd).1⟩
    · obtain ⟨d, hd, rfl⟩ := exec_sql h
      exact ⟨trivial, (exec_select hd).1⟩
    · obtain ⟨-, rfl⟩ := exec_utcNow h
      exact ⟨trivial, rfl⟩
    · obtain ⟨n, -, -, rfl⟩ := exec_tokenUrlsafe h
      exact ⟨trivial, rfl⟩
    · exact ho.elim
  obtain ⟨hi', hg⟩ := harmless_step hharmless.1 hi h
  refine ⟨hi', hg, ?_⟩
  have hlate : Late raw raw₀ (env.hashRefreshToken raw₀) P t (w.after t o r s) := by
    refine ⟨fun hP id hid => hw.1 hP id ?_, fun hP => ⟨(hw.2 hP).1, hg.spent (hw.2 hP).2⟩⟩
    change (s.db .sessions).Holds t id at hid
    rwa [hharmless.2] at hid
  cases r with
  | ok a => exact ⟨hlate, hB w c s a hi hw h⟩
  | error e => trivial

theorem safe_reads {o : Op} (ho : Reads o) {B : o.Res → Prop}
    (hB : ∀ w c s a, Inv env raw raw₀ w → Late raw raw₀ (env.hashRefreshToken raw₀) P t w →
      (machine T env.hashRefreshToken).exec t o c w.state = some (.ok a, s) → B a) :
    (contract env raw raw₀).Safe t (Prog.perform o)
      (Late raw raw₀ (env.hashRefreshToken raw₀) P t)
      (fun a w => Late raw raw₀ (env.hashRefreshToken raw₀) P t w ∧ B a) fun _ _ => True :=
  Contract.Safe.perform (fun _ => stable_late.and (.const _)) (fun _ => .const True)
    (reads_step ho hB)

/-- A spent token is not found. -/
theorem safe_findSessionByToken :
    (contract env raw raw₀).Safe t (findSessionByToken env (raw t))
      (Late raw raw₀ (env.hashRefreshToken raw₀) P t)
      (fun found w => Late raw raw₀ (env.hashRefreshToken raw₀) P t w ∧ (P → found = none))
      fun _ _ => True := by
  refine Contract.Safe.bind (safe_reads (B := fun rows => P → rows = []) (by trivial)
    fun w c s rows hi hw h hP => ?_) fun rows w _ hw => ⟨hw.1, fun hP => ?_⟩
  · obtain ⟨ht, hspent⟩ := hw.2 hP
    obtain ⟨d, hd, rfl⟩ := exec_sql h
    have hperm := (exec_select hd).2 rows rfl
    refine List.eq_nil_iff_forall_not_mem.mpr fun r hr => ?_
    obtain ⟨hview, hhash⟩ := Table.mem_scan.mp (hperm.mem_iff.mp hr)
    rw [ht] at hhash
    exact hspent r.1 (hi.holder_of_view hview (of_decide_eq_true hhash))
  · rw [hw.2 hP]
    rfl

theorem safe_rotateSession {ttl : ℕ} {now : Time} {u : UserId} :
    (contract env raw raw₀).Safe t (rotateSession env id u ttl now) (Idle t)
      (fun _ w => raw t = raw₀ → Rotated (env.hashRefreshToken raw₀) t w) fun _ _ => True := by
  refine Contract.Safe.bind (Q := fun n w => Idle t w ∧
    env.hashRefreshToken n ≠ env.hashRefreshToken raw₀) ?_ fun n => ?_
  · refine (safe_reads (P := False) (by trivial) fun w c s n hi hw h => ?_).mono
      (fun _ _ hw => ⟨fun _ => hw, nofun⟩) (fun _ _ _ hw => ⟨hw.1.1 nofun, hw.2⟩)
      fun _ _ _ _ => trivial
    obtain ⟨n', hn', hr, -⟩ := exec_tokenUrlsafe h
    cases hr
    exact fun he => hn' (he ▸ hi.known)
  refine Contract.Safe.const fun hn => ?_
  refine Contract.Safe.bind (Q := fun _ w => raw t = raw₀ → Rotated (env.hashRefreshToken raw₀) t w)
    ?_ fun _ w _ hw => hw
  refine Contract.Safe.await
    (fun matched w => matched = true → raw t = raw₀ → Rotated (env.hashRefreshToken raw₀) t w)
    (fun _ => .imp fun _ => .imp fun _ => stable_rotated) (fun _ => .const True) ?_ fun matched => ?_
  · intro w c r s hi hw hp h
    obtain ⟨hi', hg, hrot⟩ := rotate_step hi hw hn hp h
    refine ⟨hi', hg, ?_⟩
    cases r with
    | ok matched => exact fun hm => hrot (by rw [hm])
    | error e => trivial
  · cases matched with
    | true => exact fun w _ hw => hw rfl
    | false => exact fun _ _ _ => trivial

/-- A refresh that gets through its body has rotated its session, and its token was not spent. -/
theorem safe_refreshSession (ttl : ℕ) :
    (contract env raw raw₀).Safe t (refreshSession env (raw t) ttl)
      (Late raw raw₀ (env.hashRefreshToken raw₀) P t)
      (fun _ w => (raw t = raw₀ → Rotated (env.hashRefreshToken raw₀) t w) ∧ ¬ P)
      fun _ _ => True := by
  refine Contract.Safe.bind safe_findSessionByToken fun found => ?_
  refine Contract.Safe.const fun hfound => ?_
  refine Contract.Safe.bind (safe_reads (B := fun _ => True) (by trivial)
    fun _ _ _ _ _ _ _ => trivial) fun now => ?_
  match found with
  | none => exact fun _ _ _ => trivial
  | some (sessionId, session) =>
    have hP : ¬ P := fun hP => nomatch hfound hP
    refine Contract.Safe.weaken (A := Late raw raw₀ (env.hashRefreshToken raw₀) P t) ?_
      fun _ _ hw => hw.1
    show (contract env raw raw₀).Safe t (if _ then _ else _) _ _ _
    split
    · exact fun _ _ _ => trivial
    refine Contract.Safe.bind (safe_reads (B := fun _ => True) (by trivial)
      fun _ _ _ _ _ _ _ => trivial) fun user => ?_
    match user with
    | none => exact fun _ _ _ => trivial
    | some user =>
      show (contract env raw raw₀).Safe t (if _ then _ else _) _ _ _
      split
      · exact fun _ _ _ => trivial
      · exact safe_rotateSession.mono (fun _ _ hw => hw.1.1 hP) (fun _ _ _ hw => ⟨hw, hP⟩)
          fun _ _ _ _ => trivial

theorem safe_rollback {A : BackendWorld T → Prop} (hA : (contract env raw raw₀).Stable t A)
    (hkeep : ∀ w r s, A w → A (w.after t (.sql .rollback) r s)) :
    (contract env raw raw₀).Safe t Py.rollback A (fun _ => A) fun _ _ => True := by
  refine Contract.Safe.perform (fun _ => hA) (fun _ => .const True) fun w c r s hi hw _ h => ?_
  obtain ⟨hi', hg⟩ := harmless_step (by trivial) hi h
  refine ⟨hi', hg, ?_⟩
  cases r with
  | ok a => exact hkeep _ _ _ hw
  | error e => trivial

/-- A refresh that returns has committed, and its token was not spent before it started. -/
theorem safe_refresh (ttl : ℕ) :
    (contract env raw raw₀).Safe t (refresh env (raw t) ttl)
      (Late raw raw₀ (env.hashRefreshToken raw₀) P t)
      (fun _ w => (raw t = raw₀ → Committed t w) ∧ ¬ P) fun _ _ => True := by
  have hrollback : (contract env raw raw₀).Safe t Py.rollback (fun _ => True) (fun _ _ => True)
      fun _ _ => True := safe_rollback (.const True) fun _ _ _ _ => trivial
  refine Py.safe_getDbSession (A := Late raw raw₀ (env.hashRefreshToken raw₀) P t)
    (Contract.Safe.handle (safe_refreshSession ttl) fun _ _ _ _ => trivial) (fun a => ?_)
    fun e => Py.safe_closeSession_error hrollback
  refine (Contract.Safe.const (A := fun w => raw t = raw₀ →
    Rotated (env.hashRefreshToken raw₀) t w) (P := ¬ P) fun hP => ?_)
  refine Py.safe_closeSession_ok (B := fun w => (raw t = raw₀ → Committed t w) ∧ ¬ P) ?_ ?_ hrollback
  · refine Contract.Safe.perform
      (fun _ => (Contract.Stable.imp fun _ => stable_committed).and (.const _))
      (fun _ => .const True) ?_
    intro w c r s hi hw _ h
    obtain ⟨hi', hg⟩ := commit_step hi hw h
    refine ⟨hi', hg, ?_⟩
    cases r with
    | ok a => exact ⟨fun _ => List.mem_cons_self, hP⟩
    | error e => trivial
  · exact safe_rollback ((Contract.Stable.imp fun _ => stable_committed).and (.const _))
      fun w r s hw => ⟨fun ht => List.mem_cons_of_mem _ (hw.1 ht), hw.2⟩

/-! ### The result -/

abbrev RefreshPool (T : Type) : Type := Pool T Op Op.Res Exc RefreshResult (State T)

/-- Before the first refresh: no transaction on the sessions, and the hash of the token, which is
known to the source of tokens, in one session at most. -/
structure Start (env : Primitives) (raw : T → RawToken) (raw₀ : RawToken) (ttl : ℕ)
    (p : RefreshPool T) : Prop where
  prog : ∀ t, p.prog t = refresh env (raw t) ttl
  trace : p.world.trace = []
  hold : ∀ id, (p.world.state.db .sessions).hold id = none
  known : env.hashRefreshToken raw₀ ∈ p.world.state.tokens
  unique : ∀ id id', Holder (env.hashRefreshToken raw₀) id p.world →
    Holder (env.hashRefreshToken raw₀) id' p.world → id = id'

theorem Start.sound {ttl : ℕ} {p : RefreshPool T} (h : Start env raw raw₀ ttl p) :
    (contract env raw raw₀).Sound (fun t _ w => raw t = raw₀ → Committed t w)
      (fun _ _ _ => True) p where
  inv := by
    have hnone : ∀ t, ¬ Committed t p.world := by
      intro t hc
      unfold Committed at hc
      rw [h.trace] at hc
      cases hc
    refine ⟨h.known, fun id t v hv => ?_, h.unique, fun t _ hc => absurd hc (hnone t),
      fun t _ _ _ hc _ => absurd hc (hnone t)⟩
    rw [h.hold] at hv
    cases hv
  safe t := by
    refine ⟨Late raw raw₀ _ False t, stable_late, ⟨fun _ id => ?_, nofun⟩, ?_⟩
    · rintro ⟨v, hv⟩
      rw [h.hold] at hv
      cases hv
    · rw [h.prog]
      exact (safe_refresh ttl).mono (fun _ _ hw => hw) (fun _ _ _ hw => hw.1) fun _ _ _ _ => trivial

theorem eventsOk : (contract env raw raw₀).EventsOk := by
  rintro ⟨n⟩ w s hi - he
  cases he
  exact ⟨hi.known, hi.pending, hi.unique, hi.spent, hi.once⟩

/-- **A refresh token is used once.** In every interleaving of refreshes in which those that
present `raw₀` update only a row that still holds its hash, one of them at most commits, only that
one returns, and none returns that starts after the commit. -/
theorem refresh_single_use {ttl : ℕ} {p₀ q p : RefreshPool T} {ls ls' : List (Label T Choice Tick)}
    (h₀ : Start env raw raw₀ ttl p₀)
    (hC : (machine T env.hashRefreshToken).Meets (tokenCurrent env raw raw₀) p₀ (ls ++ ls'))
    (hq : (machine T env.hashRefreshToken).run p₀ ls = some q)
    (hp : (machine T env.hashRefreshToken).run q ls' = some p) :
    (∀ t t', raw t = raw₀ → raw t' = raw₀ → Committed t p.world → Committed t' p.world → t = t') ∧
    (∀ t r, raw t = raw₀ → p.prog t = .ret r → Committed t p.world) ∧
    ∀ t t' r, raw t = raw₀ → raw t' = raw₀ → Committed t q.world →
      q.prog t' = refresh env raw₀ ttl → p.prog t' ≠ .ret r := by
  obtain ⟨hC₁, hC₂⟩ := Machine.meets_append hC
  have hmid := h₀.sound.run eventsOk hC₁ hq
  have hend := hmid.run eventsOk (hC₂ q hq) hp
  refine ⟨hend.inv.once, fun t r ht hr => hend.ret hr ht, fun t t' r ht ht' hc hprog hr => ?_⟩
  have hlate : Late raw raw₀ (env.hashRefreshToken raw₀) True t' q.world :=
    ⟨fun h => absurd trivial h, fun _ => ⟨ht', hmid.inv.spent t ht hc⟩⟩
  have hsafe : (contract env raw raw₀).Safe t' (refresh env (raw t') ttl)
      (Late raw raw₀ (env.hashRefreshToken raw₀) True t')
      (fun _ w => (raw t' = raw₀ → Committed t' w) ∧ ¬ True) fun _ _ => True := safe_refresh ttl
  rw [ht', ← hprog] at hsafe
  have hfocus := (hmid.focus stable_late hlate hsafe).run eventsOk (hC₂ q hq) hp
  have hfalse := hfocus.ret hr
  rw [Function.update_self] at hfalse
  exact hfalse.2 trivial

/-! ### Two refreshes -/

/-- Two refreshes of token 7, which session 1 of user 10 holds. -/
def twoRefreshes : RefreshPool Bool where
  world := ⟨{ State.ofRows (fun
    | .sessions => [(1, ⟨10, 7, 0, none, days 30, none⟩)]
    | .users => [(10, ⟨['u'], ['a'], ['p'], ['f'], ['l'], true, false, false, 0⟩)]
    | _ => []) with tokens := [7] }, []⟩
  prog _ := refresh plainEnv 7 30

theorem twoRefreshes_start : Start plainEnv (fun _ => 7) 7 30 twoRefreshes where
  prog _ := rfl
  trace := rfl
  hold _ := rfl
  known := List.mem_cons_self
  unique := by
    have hone : ∀ id, Holder 7 id twoRefreshes.world → id = 1 := by
      rintro id ⟨s, hs, -⟩
      by_contra hid
      have hnone : row twoRefreshes.world id = none := by
        show Option.map Prod.snd (List.find? _ _) = none
        rw [List.find?_eq_none.mpr, Option.map_none]
        intro r hr
        rw [List.mem_singleton.mp hr]
        simpa using fun h => hid h.symm
      rw [hnone] at hs
      cases hs
    intro id id' h h'
    rw [hone id h, hone id' h']

/-- `k` awaits of refresh `t`, whose new token is `n`. -/
def awaits (t : Bool) (k n : ℕ) : List (Label Bool Choice Tick) :=
  List.replicate k (.proc t (.ok [] n))

/-- **A token used twice.** Both refreshes find the session before either updates it, and both
return a new token. -/
theorem refreshed_twice :
    Start plainEnv (fun _ => 7) 7 30 twoRefreshes ∧
      ∃ p r r', (machine Bool plainEnv.hashRefreshToken).run twoRefreshes
          (awaits false 4 8 ++ awaits true 4 9 ++ awaits false 3 0 ++ awaits true 3 0) = some p ∧
        p.prog false = .ret r ∧ p.prog true = .ret r' := by
  exact ⟨twoRefreshes_start, _, _, _, rfl, rfl, rfl⟩

/-- The second one comes after the first one and fails. -/
theorem refreshed_once :
    ∃ q p, (machine Bool plainEnv.hashRefreshToken).run twoRefreshes (awaits false 7 8) = some q ∧
      (machine Bool plainEnv.hashRefreshToken).run q (awaits true 4 9) = some p ∧
      ∀ r, p.prog true ≠ .ret r := by
  obtain ⟨q, hq⟩ := Option.isSome_iff_exists.mp
    (show ((machine Bool plainEnv.hashRefreshToken).run twoRefreshes (awaits false 7 8)).isSome = true
      by decide)
  have hmid : Committed false q.world ∧ q.prog true = refresh plainEnv 7 30 ∧
      ∃ p, (machine Bool plainEnv.hashRefreshToken).run q (awaits true 4 9) = some p := by
    cases hq
    exact ⟨List.mem_of_getElem? (i := 1) rfl, rfl, _, rfl⟩
  obtain ⟨hc, hprog, p, hp⟩ := hmid
  exact ⟨q, p, hq, hp, fun r =>
    (refresh_single_use twoRefreshes_start (by decide) hq hp).2.2 false true r rfl rfl hc hprog⟩

end Chatspace.RefreshRotation
