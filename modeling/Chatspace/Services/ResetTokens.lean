import Chatspace.Backend.Tables
import Chatspace.Services.Password

/-!
# Reset tokens

Requests for a token and confirmations, step by step in any order.

* `noStaleRead` — when a request commits a token, it has seen every token of the user that is valid
  then, and a confirmation uses up a token that is unused then;
* `one_valid_token` — **then a user has at most one valid token, and a token is confirmed at most
  once**;
* `two_valid_tokens` — two requests that have both seen no token, and two confirmations that have
  both found the token unused.
-/

namespace Chatspace.ResetTokens

open Interleave Store Auth Password Sessions

inductive Task where
  | request (email : Text)
  | confirm (resetToken : RawToken) (newPassword : Text)

def Task.program (env : Primitives) : Task → Py Unit
  | .request email => processPasswordResetRequest env email
  | .confirm resetToken newPassword => confirmPasswordReset env resetToken newPassword

def Task.confirms : Task → Bool
  | .request _ => false
  | .confirm .. => true

variable {T : Type} [DecidableEq T] {hash : RawToken → TokenHash} {env : Primitives}
  {task : T → Task} {t t' : T} {u : UserId} {i : ℕ} {w w' : BackendWorld T} {s : State T} {o : Op}
  {r : Except Exc o.Res} {c : Choice}

/-- The committed token. -/
def token (w : BackendWorld T) (id : ℕ) : Option PasswordResetToken :=
  (w.state.db .passwordResetTokens).committed id

/-- An unused token of the user that has not expired. -/
def valid (u : UserId) (w : BackendWorld T) (id : ℕ) : Bool :=
  (token w id).any fun x => x.userId = u && x.usedAt.isNone && w.state.clock < x.expiresAt

/-- Call `t` found the token. -/
def selects (t : T) (id : ℕ) : Entry T Op Op.Res Exc → Bool
  | ⟨p, .sql (.select .passwordResetTokens _), .ok rows⟩ => p = t && rows.any fun x => x.1 = id
  | _ => false

/-- Call `t` inserted a token of the user. -/
def issues (t : T) (u : UserId) : Entry T Op Op.Res Exc → Bool
  | ⟨p, .sql (.insert .passwordResetTokens _ _), .ok (some x)⟩ => p = t && x.userId = u
  | _ => false

/-- Call `t` updated the token. -/
def Marks (t : T) (id : ℕ) : Entry T Op Op.Res Exc → Prop
  | ⟨p, .sql (.update .passwordResetTokens k _ _), .ok true⟩ => p = t ∧ k = id
  | _ => False

theorem proc_of_selects {e : Entry T Op Op.Res Exc} (h : selects t i e = true) : e.proc = t := by
  unfold selects at h
  split at h
  · simpa using (Bool.and_eq_true_iff.mp h).1
  · cases h

omit [DecidableEq T] in
theorem Marks.proc {e : Entry T Op Op.Res Exc} (h : Marks t i e) : e.proc = t := by
  unfold Marks at h
  split at h
  · exact h.1
  · exact h.elim

/-- Confirmation `t` used the token up, and committed after that. -/
def Confirmed (task : T → Task) (id : ℕ) (t : T) (w : BackendWorld T) : Prop :=
  (task t).confirms = true ∧ CommittedWhen t (fun older => ∃ e ∈ older, Marks t id e) w

/-- Call `t` found every token of the user that is valid now. -/
def FoundValid (t : T) (u : UserId) (w : BackendWorld T) : Prop :=
  ∀ id ∈ (w.state.db .passwordResetTokens).keys, valid u w id = true →
    ∃ e ∈ w.trace, selects t id e = true

instance : Decidable (FoundValid t u w) := by
  unfold FoundValid
  infer_instance

/-- A request that commits a token of the user found every token of the user that is valid now, and
the token a confirmation uses up is unused now. -/
abbrev noStaleRead (task : T → Task) (u : UserId) :
    Machine.Condition T Op Op.Res Exc Choice Tick (State T) where
  op t o _ w :=
    (o.isCommit = true → (task t).confirms = false → (∃ e ∈ w.trace, issues t u e = true) →
      FoundValid t u w) ∧
    ∀ k ∈ o.updated .passwordResetTokens, (task t).confirms = true →
      (token w k).all fun x => x.usedAt.isNone
  event _ _ := True

/-! ### What a call has written -/

def watched : List Tbl := [.passwordResetTokens]

theorem tokens_mem : Tbl.passwordResetTokens ∈ watched := by simp [watched]

/-- The look-up of tokens. -/
def Noted : Op → Prop
  | .sql (.select .passwordResetTokens _) => True
  | _ => False

/-- What transaction `t` knows of the tokens it holds. -/
def mine (t : T) (w : BackendWorld T) :
    ℕ → Option (Option (Option PasswordResetToken) × Option PasswordResetToken) :=
  (w.state.db .passwordResetTokens).mine t

/-- The version is a token that is used. -/
def Used (v : Option PasswordResetToken) : Prop := ∃ x, v = some x ∧ x.usedAt.isSome = true

/-- The request has found these tokens and no others. -/
def SelectsOnly (ids : List ℕ) (t : T) (w : BackendWorld T) : Prop :=
  ∀ e ∈ w.trace, e.proc = t → ∀ id, selects t id e = true → id ∈ ids

/-- Before the request looks for tokens. -/
def Idle (t : T) (w : BackendWorld T) : Prop :=
  Unwritten .passwordResetTokens t w ∧ SelectsOnly [] t w

/-- The tokens found, of which these are marked so far. -/
def Marking (ids done : List ℕ) (t : T) (w : BackendWorld T) : Prop :=
  (∀ id ∈ done, ∃ v x, mine t w id = some (some v, x) ∧ Used v) ∧
    (∀ id v x, mine t w id = some (some v, x) → Used v) ∧ SelectsOnly ids t w

/-- All tokens found are marked, and a new one is inserted. -/
def Issuing (t : T) (w : BackendWorld T) : Prop :=
  ∃ ids n x, mine t w n = some (some (some x), none) ∧
    (∀ id v y, mine t w id = some (some v, y) → id = n ∨ Used v) ∧
    (∀ id ∈ ids, ∃ v y, mine t w id = some (some v, y) ∧ Used v) ∧ SelectsOnly ids t w ∧
    ∃ e ∈ w.trace, issues t x.userId e = true

/-- The confirmation has used up no token but these. -/
def MarksOnly (P : ℕ → Prop) (t : T) (w : BackendWorld T) : Prop :=
  ∀ e ∈ w.trace, e.proc = t → ∀ id, Marks t id e → P id

/-- Before the confirmation uses the token up. -/
def Looking (t : T) (w : BackendWorld T) : Prop :=
  Unwritten .passwordResetTokens t w ∧ MarksOnly (fun _ => False) t w

/-- After that: the committed token is unused. -/
def Burning (t : T) (w : BackendWorld T) : Prop :=
  ∃ id x x', mine t w id = some (some (some x'), some x) ∧ x.usedAt = none ∧
    x'.usedAt.isSome = true ∧ (∀ k v y, mine t w k = some (some v, y) → k = id) ∧
    MarksOnly (· = id) t w ∧ ∃ e ∈ w.trace, Marks t id e

/-- The confirmation has changed no token, or has committed the change. -/
def Settled (task : T → Task) (t : T) (w : BackendWorld T) : Prop :=
  Unwritten .passwordResetTokens t w ∧
    (MarksOnly (fun _ => False) t w ∨ ∃ id, Confirmed task id t w ∧ MarksOnly (· = id) t w)

/-- What a call may commit. -/
def Fit (task : T → Task) (t : T) (w : BackendWorld T) : Prop :=
  match task t with
  | .request _ => Issuing t w
  | .confirm .. => Settled task t w ∨ Burning t w

/-- What is known of a call that performs the operation. -/
def Disciplined (task : T → Task) (t : T) :
    (o : Op) → Except Exc o.Res → BackendWorld T → Prop
  | .sql .commit, .ok _, w => Fit task t w
  | _, _, _ => True

/-- Every step is disciplined. -/
def discipline (hash : RawToken → TokenHash) (task : T → Task) (u : UserId) :
    Contract (machine T hash) where
  inv _ := True
  pre := noStaleRead task u
  guar t o r w _ := Disciplined task t o r w

theorem aboutCommitted : AboutCommitted (discipline hash task u) watched fun _ => False := by
  intro t o r w s _ _ hne _ _
  refine ⟨trivial, ?_⟩
  show Disciplined task t o r w
  unfold Disciplined
  split
  · exact absurd rfl (hne t)
  · trivial

theorem allows : Allows (discipline hash task u) watched Noted :=
  aboutCommitted.allows tokens_mem fun _ => False.elim

variable {K : Contract (machine T hash)} {ids done : List ℕ}

theorem kept_selectsOnly : Kept K watched Noted t (SelectsOnly ids t) := by
  refine Kept.own fun e he id h => ?_
  unfold selects at h
  split at h
  · exact absurd trivial he.unnoted
  · cases h

theorem kept_marksOnly {P : ℕ → Prop} : Kept K watched Noted t (MarksOnly P t) := by
  refine Kept.own fun e he id h => ?_
  unfold Marks at h
  split at h
  · exact absurd rfl (he.spares .passwordResetTokens tokens_mem)
  · exact h.elim

theorem kept_mine {P : (ℕ → Option (Option (Option PasswordResetToken) × Option PasswordResetToken)) →
    Prop} : Kept K watched Noted t fun w => P (mine t w) :=
  Kept.mine (τ := .passwordResetTokens) tokens_mem (P := P)

theorem kept_idle : Kept K watched Noted t (Idle t) :=
  (kept_unwritten tokens_mem).and kept_selectsOnly

theorem kept_marking : Kept K watched Noted t (Marking ids done t) :=
  (kept_mine (P := fun n => ∀ id ∈ done, ∃ v x, n id = some (some v, x) ∧ Used v)).and
    ((kept_mine (P := fun n => ∀ id v x, n id = some (some v, x) → Used v)).and kept_selectsOnly)

theorem kept_issuing : Kept K watched Noted t (Issuing t) :=
  .exists fun ids => .exists fun n => .exists fun x =>
    (kept_mine (P := fun m => m n = some (some (some x), none))).and
      ((kept_mine (P := fun m => ∀ id v y, m id = some (some v, y) → id = n ∨ Used v)).and
        ((kept_mine (P := fun m => ∀ id ∈ ids, ∃ v y, m id = some (some v, y) ∧ Used v)).and
          (kept_selectsOnly.and .seen)))

theorem kept_looking : Kept K watched Noted t (Looking t) :=
  (kept_unwritten tokens_mem).and kept_marksOnly

theorem kept_burning : Kept K watched Noted t (Burning t) :=
  .exists fun id => .exists fun x => .exists fun x' =>
    (kept_mine (P := fun m => m id = some (some (some x'), some x))).and
      ((Kept.const _).and ((Kept.const _).and
        ((kept_mine (P := fun m => ∀ k v y, m k = some (some v, y) → k = id)).and
          (kept_marksOnly.and .seen))))

theorem kept_settled : Kept K watched Noted t (Settled task t) :=
  (kept_unwritten tokens_mem).and (kept_marksOnly.or (.exists fun _ =>
    ((Kept.const _).and Kept.committedWhen).and kept_marksOnly))

theorem SelectsOnly.after (h : SelectsOnly ids t w)
    (ho : ∀ id, selects t id (⟨t, o, r⟩ : Entry T Op Op.Res Exc) = true → id ∈ ids) :
    SelectsOnly ids t (w.after t o r s) := own_after h ho

omit [DecidableEq T] in
theorem MarksOnly.after {P : ℕ → Prop} (h : MarksOnly P t w)
    (ho : ∀ id, Marks t id (⟨t, o, r⟩ : Entry T Op Op.Res Exc) → P id) :
    MarksOnly P t (w.after t o r s) := own_after h ho

/-! ### A request -/

/-- The look-up of the unused tokens. -/
theorem safe_selectOutstanding {p : ℕ → PasswordResetToken → Bool} :
    (discipline hash task u).Safe t (Py.select .passwordResetTokens p) (Idle t)
      (fun rows => Marking (rows.map Prod.fst) [] t) fun _ _ => True := by
  refine Contract.Safe.perform (fun _ => kept_marking.stable) (fun _ => .const True)
    fun w ch r s hi hw _ h => ?_
  rcases aboutCommitted.uncommitted (q := .select ..) nofun id h hi with ⟨hi', hg⟩
  rcases exec_selectTable h with ⟨rfl, -⟩
  refine ⟨hi', hg, ?_⟩
  cases r with
  | error e => trivial
  | ok rows =>
    refine ⟨by simp, fun id v x hv => absurd hv (hw.1 id v x), fun e he hproc id hid => ?_⟩
    rcases List.mem_cons.mp he with rfl | he
    · simp only [selects, decide_true, Bool.true_and, List.any_eq_true, decide_eq_true_eq] at hid
      rcases hid with ⟨x, hx, rfl⟩
      exact List.mem_map_of_mem hx
    · exact absurd (hw.2 e he hproc id hid) List.not_mem_nil

/-- One token found is marked. -/
theorem safe_markOutstanding {ts : Time} :
    (discipline hash task u).Safe t
      (Py.flushUpdate .passwordResetTokens i (markResetTokenUsed ts)) (Marking ids done t)
      (fun _ => Marking ids (i :: done) t) fun _ _ => True := by
  refine Contract.Safe.await (fun matched w => matched = true → Marking ids (i :: done) t w)
    (fun _ => .imp fun _ => kept_marking.stable) (fun _ => .const True)
    (fun w ch r s hi hw _ h => ?_) fun matched => ?_
  · rcases aboutCommitted.uncommitted (q := .update ..) nofun id h hi with ⟨hi', hg⟩
    refine ⟨hi', hg, ?_⟩
    rcases hw with ⟨hdone, hused, hselects⟩
    rcases exec_updateTable h with ⟨rfl, hr⟩ | ⟨x, -, -, -, rfl, rfl⟩
    · cases r with
      | error e => trivial
      | ok matched =>
        rintro rfl
        exact absurd rfl hr
    intro _
    have hself : Used (some (markResetTokenUsed ts x)) := ⟨_, rfl, rfl⟩
    refine ⟨fun k hk => ?_, fun k v y hv => ?_, hselects.after nofun⟩
    · unfold mine
      rw [World.after_state, State.set_db]
      by_cases hki : k = i
      · rw [hki, Table.mine_write_self]
        exact ⟨_, _, rfl, hself⟩
      · rw [Table.mine_write_of_ne hki]
        exact hdone k ((List.mem_cons.mp hk).resolve_left hki)
    · unfold mine at hv
      rw [World.after_state, State.set_db] at hv
      by_cases hki : k = i
      · rw [hki, Table.mine_write_self] at hv
        cases hv
        exact hself
      · rw [Table.mine_write_of_ne hki] at hv
        exact hused k v y hv
  · cases matched with
    | true => exact fun _ _ hw => hw rfl
    | false => exact fun _ _ _ => trivial

theorem safe_invalidateOutstanding {userId : UserId} {ts : Time} :
    (discipline hash task u).Safe t (invalidateOutstandingResetTokens userId ts) (Idle t)
      (fun _ w => ∃ ids, Marking ids ids t w) fun _ _ => True := by
  refine Contract.Safe.bind safe_selectOutstanding fun rows => ?_
  refine Contract.Safe.bind (Contract.Safe.weaken (Contract.Safe.forEach
    (I := fun rest (_ : List Unit) w => ∃ done, Marking (rows.map Prod.fst) done t w ∧
      ∀ id ∈ rows.map Prod.fst, id ∈ done ∨ id ∈ rest) (fun j rest _ => ?_) _ [])
    fun w _ hw => ⟨[], hw, fun id hid => .inr ?_⟩) fun _ w _ hw => ?_
  · refine Contract.Safe.exists fun done => Contract.Safe.const fun hids => ?_
    refine safe_markOutstanding.mono (fun _ _ hw => hw) (fun _ w _ hw => ⟨j :: done, hw, ?_⟩)
      fun _ _ _ hw => hw
    intro k hk
    rcases hids k hk with hk | hk
    · exact .inl (List.mem_cons_of_mem _ hk)
    · exact (List.mem_cons.mp hk).imp (fun he => by rw [he]; exact List.mem_cons_self) id
  · exact (List.mem_insertionSort _).mpr hid
  · rcases hw with ⟨done, ⟨hdone, hrest⟩, hids⟩
    refine ⟨rows.map Prod.fst, fun id hid => hdone id ?_, hrest⟩
    exact (hids id hid).resolve_right List.not_mem_nil

/-- The insertion of the new token. -/
theorem safe_insertToken {build : Time → PasswordResetToken} :
    (discipline hash task u).Safe t (Py.flushInsert .passwordResetTokens i build)
      (fun w => ∃ ids, Marking ids ids t w) (fun _ => Issuing t) fun _ _ => True := by
  refine Contract.Safe.await (fun row w => row.isSome → Issuing t w)
    (fun _ => .imp fun _ => kept_issuing.stable) (fun _ => .const True)
    (fun w ch r s hi hw _ h => ?_) fun row => ?_
  · rcases aboutCommitted.uncommitted (q := .insert ..) nofun id h hi with ⟨hi', hg⟩
    refine ⟨hi', hg, ?_⟩
    rcases hw with ⟨ids, hids, hused, hselects⟩
    rcases exec_insertTable h with ⟨rfl, hr⟩ | ⟨now, -, hnone, rfl, rfl⟩
    · cases r with
      | error e => trivial
      | ok row =>
        cases row with
        | none => exact nofun
        | some x => exact absurd rfl (hr x)
    intro _
    -- a token that is marked is seen, so the new one is none of them
    have hno : ∀ v y, mine t w i ≠ some (some v, y) := by
      intro v y hv
      rcases hused i v y hv with ⟨x, rfl, -⟩
      exact nomatch hnone.symm.trans (Table.view_of_mine hv)
    have hcommitted : (w.state.db .passwordResetTokens).committed i = none := by
      rw [← Table.view_of_unwritten hno]
      exact hnone
    have hne : ∀ k, k ≠ i → mine t (w.after t (.sql (.insert .passwordResetTokens i build))
        (.ok (some (build now))) (w.state.set .passwordResetTokens
          ((w.state.db .passwordResetTokens).write t i (some (build now))))) k = mine t w k := by
      intro k hk
      unfold mine
      rw [World.after_state, State.set_db, Table.mine_write_of_ne hk]
    refine ⟨ids, i, build now, ?_, fun k v y hv => ?_, fun k hk => ?_, hselects.after nofun,
      _, List.mem_cons_self, ?_⟩
    · unfold mine
      rw [World.after_state, State.set_db, Table.mine_write_self, hcommitted]
    · by_cases hk : k = i
      · exact .inl hk
      · rw [hne k hk] at hv
        exact .inr (hused k v y hv)
    · rcases hids k hk with ⟨v, y, hv, hu⟩
      have hki : k ≠ i := by
        rintro rfl
        exact hno v y hv
      exact ⟨v, y, (hne k hki).trans hv, hu⟩
    · simp [issues]
  · cases row with
    | none => exact fun _ _ _ => trivial
    | some x => exact fun _ _ hw => hw rfl

/-- What can be said at any time. -/
theorem safe_any {α : Type} {p : Py α} (hp : p.Only (Quiet watched Noted)) :
    (discipline hash task u).Safe t p (fun _ => True) (fun _ _ => True) fun _ _ => True :=
  (Kept.const True).only allows hp

theorem safe_commitFit {A B : BackendWorld T → Prop} (hA : ∀ w, A w → Fit task t w)
    (hB : (discipline hash task u).Stable t B)
    (h : ∀ w s, A w → (∀ k, (s.db .passwordResetTokens).mine t k = none) →
      B (w.after t (.sql .commit) (.ok ()) s)) :
    (discipline hash task u).Safe t Py.commit A (fun _ => B) fun _ _ => True := by
  refine Contract.Safe.perform (fun _ => hB) (fun _ => .const True) fun w ch r s hi hw _ hx => ?_
  rcases exec_commitAll hx with ⟨rfl, e, rfl⟩ | ⟨rfl, rfl⟩
  · rcases aboutCommitted.failed id hi with ⟨hi', hg⟩
    exact ⟨hi', hg, trivial⟩
  · exact ⟨trivial, hA w hw, h w _ hw fun _ => Table.mine_commit⟩

theorem safe_request {email : Text} (ht : task t = .request email) :
    (discipline hash task u).Safe t (processPasswordResetRequest env email) (Idle t)
      (fun _ _ => True) fun _ _ => True := by
  have habort : (discipline hash task u).Safe t Py.rollback (fun _ => True) (fun _ _ => True)
      fun _ _ => True := safe_abort aboutCommitted id
  have hissue : (discipline hash task u).Safe t (issueResetToken env email) (Idle t)
      (fun _ _ => True) fun _ _ => True := by
    refine Contract.Safe.bind (Q := fun _ => Idle t) (kept_idle.only allows
      ((Prog.only_perform (quiet_select id)).bind fun _ => trivial)) fun found => ?_
    match found with
    | none => exact fun _ _ _ => trivial
    | some (userId, user) =>
      refine Contract.Safe.bind (Q := fun _ => Issuing t) ?_ fun _ => ?_
      · refine Contract.Safe.bind (kept_idle.perform allows (quiet_other nofun nofun id)) fun ts => ?_
        refine Contract.Safe.bind safe_invalidateOutstanding fun _ => ?_
        have hkept : Kept (discipline hash task u) watched Noted t
            fun w => ∃ ids, Marking ids ids t w := .exists fun _ => kept_marking
        refine Contract.Safe.bind (hkept.perform allows (quiet_other nofun nofun id)) fun rawToken => ?_
        refine Contract.Safe.bind (hkept.perform allows (quiet_other nofun nofun id)) fun id => ?_
        exact Contract.Safe.bind safe_insertToken fun _ _ _ hw => hw
      · refine Contract.Safe.bind (safe_commitFit (fun w hw => ?_) (.const True)
          fun _ _ _ _ => trivial) fun _ => fun _ _ _ => trivial
        unfold Fit
        rw [ht]
        exact hw
  refine Contract.Safe.bind (Q := fun _ _ => True) ?_ fun issued => ?_
  · refine Contract.Safe.bind (Q := fun _ _ => True) (Contract.Safe.handle (R := fun _ _ => True)
      (Py.safe_exceptException hissue (fun e _ => Contract.Safe.bind habort fun _ => fun _ _ _ =>
        trivial) fun _ _ _ _ _ => trivial) fun e => Contract.Safe.bind habort fun _ => fun _ _ _ =>
        trivial) fun a => Contract.Safe.bind habort fun _ => fun _ _ _ => trivial
  · show Contract.Safe _ _ (if _ then _ else _) _ _ _
    split
    · refine safe_any (Prog.Only.handle (Prog.only_perform (quiet_other nofun nofun id)) fun e => ?_)
      split <;> trivial
    · exact fun _ _ _ => trivial

/-! ### A confirmation -/

/-- The look-up of the token. -/
theorem safe_findValid {resetToken : RawToken} :
    (discipline hash task u).Safe t (findValidResetToken env resetToken) (Looking t)
      (fun _ => Looking t) fun _ _ => True := by
  refine Contract.Safe.bind (kept_looking.perform allows (quiet_other nofun nofun id)) fun ts => ?_
  refine Contract.Safe.await (fun _ => Looking t) (fun _ => kept_looking.stable)
    (fun _ => .const True) (fun w ch r s hi hw _ h => ?_) fun rows _ _ hw => hw
  rcases aboutCommitted.uncommitted (q := .select ..) nofun id h hi with ⟨hi', hg⟩
  rcases exec_selectTable h with ⟨rfl, -⟩
  refine ⟨hi', hg, ?_⟩
  cases r with
  | error e => trivial
  | ok rows => exact ⟨hw.1, hw.2.after fun _ => False.elim⟩

/-- The token is used up: it was unused. -/
theorem safe_burn {now : Time} (ht : (task t).confirms = true) :
    (discipline hash task u).Safe t
      (Py.flushUpdate .passwordResetTokens i (markResetTokenUsed now)) (Looking t)
      (fun _ => Burning t) fun _ _ => True := by
  refine Contract.Safe.await (fun matched w => matched = true → Burning t w)
    (fun _ => .imp fun _ => kept_burning.stable) (fun _ => .const True)
    (fun w ch r s hi hw hp h => ?_) fun matched => ?_
  · rcases aboutCommitted.uncommitted (q := .update ..) nofun id h hi with ⟨hi', hg⟩
    refine ⟨hi', hg, ?_⟩
    rcases hw with ⟨hunwritten, hmarks⟩
    rcases exec_updateTable h with ⟨rfl, hr⟩ | ⟨x, -, hx, -, rfl, rfl⟩
    · cases r with
      | error e => trivial
      | ok matched =>
        rintro rfl
        exact absurd rfl hr
    intro _
    rw [view_of_unwritten hunwritten] at hx
    have hunused : x.usedAt = none := by
      have hall := hp.2 i rfl ht
      unfold token at hall
      rw [hx] at hall
      simpa using hall
    refine ⟨i, x, markResetTokenUsed now x, ?_, hunused, rfl, fun k v y hv => ?_, ?_,
      _, List.mem_cons_self, rfl, rfl⟩
    · unfold mine
      rw [World.after_state, State.set_db, Table.mine_write_self, hx]
    · unfold mine at hv
      rw [World.after_state, State.set_db] at hv
      exact (hunwritten.mine_write hv).1
    · intro e he hproc k hk
      rcases List.mem_cons.mp he with rfl | he
      · exact hk.2.symm
      · exact (hmarks e he hproc k hk).elim
  · cases matched with
    | true => exact fun _ _ hw => hw rfl
    | false => exact fun _ _ _ => trivial

theorem only_flushUpdate {τ : Tbl} {k : τ.Key} {f : τ.Row → τ.Row} (hτ : τ ∉ watched) :
    (Py.flushUpdate τ k f).Only (Quiet watched Noted) :=
  Py.only_flushUpdate (quiet_update hτ id)

/-- The revocation of the user's sessions, with the flush of the token before it. -/
theorem safe_revokeSessions {before after : Py Unit} {userId : UserId}
    (hbefore : (discipline hash task u).Safe t before (Looking t) (fun _ => Burning t)
      fun _ _ => True) (hafter : after.Only (Quiet watched Noted)) :
    (discipline hash task u).Safe t (revokeSessionsForUser userId none before after) (Looking t)
      (fun _ => Burning t) fun _ _ => True := by
  refine Contract.Safe.bind (kept_looking.perform allows (quiet_other nofun nofun id)) fun ts => ?_
  refine Contract.Safe.bind (kept_looking.only allows
    ((Prog.only_perform (quiet_select id)).bind fun _ => trivial)) fun sessions => ?_
  refine Contract.Safe.bind hbefore fun _ => ?_
  refine Contract.Safe.bind (kept_burning.only allows (Prog.only_forEach _ fun id =>
    only_flushUpdate (by simp [watched]))) fun _ => ?_
  exact Contract.Safe.bind (kept_burning.only allows hafter) fun _ _ _ hw => hw

theorem safe_commitConfirm (ht : (task t).confirms = true) :
    (discipline hash task u).Safe t Py.commit (fun w => Settled task t w ∨ Burning t w)
      (fun _ => Settled task t) fun _ _ => True := by
  refine safe_commitFit (fun w hw => ?_) kept_settled.stable fun w s hw hmine =>
    ⟨unwritten_of_released hmine, ?_⟩
  · unfold Fit
    cases hc : task t with
    | request email =>
      rw [hc] at ht
      cases ht
    | confirm resetToken newPassword => exact hw
  rcases hw with ⟨-, hmarks | ⟨i, ⟨hc, hconfirmed⟩, hmarks⟩⟩ | ⟨i, -, -, -, -, -, -, hmarks, hmarked⟩
  · exact .inl (hmarks.after fun _ => False.elim)
  · exact .inr ⟨i, ⟨hc, hconfirmed.after⟩, hmarks.after fun _ => False.elim⟩
  · exact .inr ⟨i, ⟨ht, [], w.trace, rfl, hmarked⟩, hmarks.after fun _ => False.elim⟩

theorem safe_keep : (discipline hash task u).Safe t Py.rollback (Settled task t)
    (fun _ => Settled task t) fun _ _ => True := by
  refine safe_rollback aboutCommitted id kept_settled.stable fun w s hw _ hmine =>
    ⟨unwritten_of_released (hmine .passwordResetTokens), ?_⟩
  exact hw.2.imp (fun h => h.after fun _ => False.elim)
    fun ⟨i, ⟨hc, hconfirmed⟩, h⟩ => ⟨i, ⟨hc, hconfirmed.after⟩, h.after fun _ => False.elim⟩

theorem safe_confirm {resetToken : RawToken} {newPassword : Text}
    (ht : (task t).confirms = true) :
    (discipline hash task u).Safe t (confirmPasswordReset env resetToken newPassword) (Looking t)
      (fun _ _ => True) fun _ _ => True := by
  refine Chatspace.safe_request (B := Settled task t) (C := Settled task t)
    ((safe_commitConfirm ht).weaken fun _ _ hw => .inl hw) safe_keep (safe_abort aboutCommitted id)
    (Contract.Safe.bind safe_findValid fun found => ?_)
  match found with
  | none => exact fun _ _ _ => trivial
  | some (tokenId, x) =>
    refine Contract.Safe.bind (Q := fun _ => Looking t) ?_ fun _ => ?_
    · show Contract.Safe _ _ (if _ then _ else _) _ _ _
      split
      · exact fun _ _ hw => hw
      · exact fun _ _ _ => trivial
    refine Contract.Safe.bind (kept_looking.perform allows (quiet_get id)) fun user => ?_
    match user with
    | none => exact fun _ _ _ => trivial
    | some user =>
      refine Contract.Safe.bind (kept_looking.perform allows (quiet_other nofun nofun id))
        fun now => ?_
      refine Contract.Safe.bind (safe_revokeSessions (safe_burn ht)
        (only_flushUpdate (by simp [watched]))) fun ids => ?_
      refine Contract.Safe.bind ((safe_commitConfirm ht).weaken fun _ _ hw => .inr hw) fun _ => ?_
      refine Contract.Safe.bind (kept_settled.only allows (Prog.only_forEach _ fun sid => ?_))
        fun _ _ _ hw => hw
      refine Prog.Only.handle (Prog.only_perform (quiet_other nofun nofun id)) fun e => ?_
      split <;> trivial

/-- Every call keeps to the discipline. -/
theorem safe_task :
    (discipline hash task u).Safe t ((task t).program env) (fun w => Idle t w ∧ Looking t w)
      (fun _ _ => True) fun _ _ => True := by
  cases ht : task t with
  | request email => exact (safe_request ht).weaken fun _ _ hw => hw.1
  | confirm resetToken newPassword =>
    exact (safe_confirm (by rw [ht]; rfl)).weaken fun _ _ hw => hw.2

/-! ### The invariant -/

/-- One valid token at most; a confirmed token is there, used, and confirmed by one confirmation. -/
structure Inv (task : T → Task) (u : UserId) (w : BackendWorld T) : Prop where
  one : ∀ i j, valid u w i = true → valid u w j = true → i = j
  used : ∀ t i, Confirmed task i t w → Used (token w i)
  once : ∀ t t' i, Confirmed task i t w → Confirmed task i t' w → t = t'

omit [DecidableEq T] in
theorem valid_iff : valid u w i = true ↔ ∃ x, token w i = some x ∧ x.userId = u ∧
    x.usedAt = none ∧ w.state.clock < x.expiresAt := by
  simp [valid, Option.any_eq_true, and_assoc]

omit [DecidableEq T] in
/-- A step that leaves the committed tokens alone, and commits no confirmation. -/
theorem inv_same (hi : Inv task u w) (hc : ∀ i, token w' i = token w i)
    (hclock : w.state.clock ≤ w'.state.clock)
    (hconfirmed : ∀ t i, Confirmed task i t w' → Confirmed task i t w) : Inv task u w' := by
  have hvalid : ∀ i, valid u w' i = true → valid u w i = true := by
    intro i h
    rw [valid_iff] at h ⊢
    rcases h with ⟨x, hx, hu, hunused, hlt⟩
    exact ⟨x, by rw [← hc]; exact hx, hu, hunused, Nat.lt_of_le_of_lt hclock hlt⟩
  refine ⟨fun i j h h' => hi.one i j (hvalid i h) (hvalid j h'), fun t i h => ?_,
    fun t t' i h h' => hi.once t t' i (hconfirmed t i h) (hconfirmed t' i h')⟩
  rw [hc]
  exact hi.used t i (hconfirmed t i h)

theorem token_afterCommit : token (afterCommit t w) i = token w i ∨
    ∃ v, mine t w i = some (some v, token w i) ∧ token (afterCommit t w) i = v :=
  committed_afterCommit .passwordResetTokens i

/-- The commit of a request: the other valid tokens have been marked. -/
theorem inv_commitRequest (hi : Inv task u w) (h : Issuing t w) (ht : (task t).confirms = false)
    (hp : (noStaleRead task u).op t (.sql .commit) c w) : Inv task u (afterCommit t w) := by
  rcases h with ⟨ids, n, x, hnew, hothers, hids, hselects, hissued⟩
  have hconfirmed : ∀ t' i, Confirmed task i t' (afterCommit t w) → Confirmed task i t' w := by
    rintro t' i ⟨hc, h⟩
    refine ⟨hc, ?_⟩
    rcases committedWhen_after h with h | ⟨he, -⟩
    · exact h
    · cases he
      exact nomatch ht.symm.trans hc
  have hnone : token w n = none := (Table.mine_eq_some.mp hnew).2
  -- a token valid after the commit is the new one, or it was valid before and not found
  have hvalid : ∀ i, valid u (afterCommit t w) i = true →
      (i = n ∧ x.userId = u) ∨ (valid u w i = true ∧ i ∉ ids) := by
    intro i h
    rcases valid_iff.mp h with ⟨y, hy, hu, hunused, hlt⟩
    by_cases hin : i = n
    · subst hin
      have hview : token (afterCommit t w) i = some x := Table.view_of_mine hnew
      cases hview.symm.trans hy
      exact .inl ⟨rfl, hu⟩
    have hunmarked : ∀ v z, mine t w i = some (some v, z) → ¬ Used v := by
      rintro v z hmine ⟨y', rfl, hused⟩
      have hview : token (afterCommit t w) i = some y' := Table.view_of_mine hmine
      cases hview.symm.trans hy
      rw [hunused] at hused
      cases hused
    refine .inr ⟨?_, fun hmem => ?_⟩
    · rcases token_afterCommit (t := t) (w := w) (i := i) with hc | ⟨v, hmine, -⟩
      · exact valid_iff.mpr ⟨y, by rw [← hc]; exact hy, hu, hunused, hlt⟩
      · exact absurd ((hothers i v _ hmine).resolve_left hin) (hunmarked v _ hmine)
    · rcases hids i hmem with ⟨v, z, hmine, hused⟩
      exact hunmarked v z hmine hused
  refine ⟨fun i j hvi hvj => ?_, fun t' i h => ?_, fun t₁ t₂ i h h' =>
    hi.once t₁ t₂ i (hconfirmed t₁ i h) (hconfirmed t₂ i h')⟩
  · -- had the request issued a token of the user, it would have found the valid ones
    have hfound : x.userId = u → ∀ k, valid u w k = true → k ∈ ids := by
      intro hu k hk
      rw [hu] at hissued
      have hmem : k ∈ (w.state.db .passwordResetTokens).keys := by
        rcases valid_iff.mp hk with ⟨y, hy, -⟩
        exact Table.mem_keys_of_committed hy
      rcases hp.1 rfl ht hissued k hmem hk with ⟨e, he, hsel⟩
      exact hselects e he (proc_of_selects hsel) k hsel
    rcases hvalid i hvi with ⟨rfl, hu⟩ | ⟨hi', hni⟩
    · rcases hvalid j hvj with ⟨rfl, -⟩ | ⟨hj', hnj⟩
      · rfl
      · exact absurd (hfound hu j hj') hnj
    · rcases hvalid j hvj with ⟨rfl, hu⟩ | ⟨hj', -⟩
      · exact absurd (hfound hu i hi') hni
      · exact hi.one i j hi' hj'
  · have hused := hi.used t' i (hconfirmed t' i h)
    rcases token_afterCommit (t := t) (w := w) (i := i) with hc | ⟨v, hmine, hc⟩
    · rw [hc]
      exact hused
    · rcases hothers i v _ hmine with rfl | hv
      · rcases hused with ⟨y, hy, -⟩
        exact nomatch hnone.symm.trans hy
      · rw [hc]
        exact hv

/-- The commit of a confirmation: the token was unused, so nobody has confirmed it. -/
theorem inv_commitConfirm (hi : Inv task u w) (h : Burning t w) (ht : (task t).confirms = true) :
    Inv task u (afterCommit t w) := by
  rcases h with ⟨i₀, x, x', hmine, hunused, hused, honly, hmarks, hmarked⟩
  have hrow : token w i₀ = some x := (Table.mine_eq_some.mp hmine).2
  have hrow' : token (afterCommit t w) i₀ = some x' := Table.view_of_mine hmine
  have hother : ∀ i, i ≠ i₀ → token (afterCommit t w) i = token w i := by
    intro i hne
    rcases token_afterCommit (t := t) (w := w) (i := i) with hc | ⟨v, hv, -⟩
    · exact hc
    · exact absurd (honly i v _ hv) hne
  have hfresh : ∀ t', ¬ Confirmed task i₀ t' w := by
    intro t' h
    rcases hi.used t' i₀ h with ⟨y, hy, hyu⟩
    cases hrow.symm.trans hy
    rw [hunused] at hyu
    cases hyu
  have hconfirmed : ∀ t' i, Confirmed task i t' (afterCommit t w) →
      Confirmed task i t' w ∨ (t' = t ∧ i = i₀) := by
    rintro t' i ⟨hc, h⟩
    rcases committedWhen_after h with h | ⟨he, e, he', hmark⟩
    · exact .inl ⟨hc, h⟩
    · cases he
      exact .inr ⟨rfl, hmarks e he' hmark.proc i hmark⟩
  have hvalid : ∀ i, valid u (afterCommit t w) i = true → valid u w i = true := by
    intro i h
    rcases valid_iff.mp h with ⟨y, hy, hu, hyunused, hlt⟩
    by_cases hne : i = i₀
    · subst hne
      cases hrow'.symm.trans hy
      rw [hyunused] at hused
      cases hused
    · exact valid_iff.mpr ⟨y, by rw [← hother i hne]; exact hy, hu, hyunused, hlt⟩
  refine ⟨fun i j h h' => hi.one i j (hvalid i h) (hvalid j h'), fun t' i h => ?_,
    fun t₁ t₂ i h h' => ?_⟩
  · by_cases hne : i = i₀
    · subst hne
      exact ⟨x', hrow', hused⟩
    · rw [hother i hne]
      refine hi.used t' i ((hconfirmed t' i h).resolve_right fun h => hne h.2)
  · rcases hconfirmed t₁ i h with h₁ | ⟨rfl, rfl⟩
    · rcases hconfirmed t₂ i h' with h₂ | ⟨rfl, rfl⟩
      · exact hi.once t₁ t₂ i h₁ h₂
      · exact absurd h₁ (hfresh t₁)
    · rcases hconfirmed t₂ i h' with h₂ | ⟨rfl, -⟩
      · exact absurd h₂ (hfresh t₂)
      · rfl

/-- Every disciplined step keeps the invariant. -/
theorem inv_step (hi : Inv task u w) (hp : (noStaleRead task u).op t o c w)
    (hx : (machine T hash).exec t o c w.state = some (r, s)) (hd : Disciplined task t o r w) :
    Inv task u (w.after t o r s) := by
  by_cases hcommit : o = .sql .commit
  · subst hcommit
    rcases exec_commitAll hx with ⟨rfl, e, rfl⟩ | ⟨rfl, rfl⟩
    · refine inv_same hi (fun _ => rfl) le_rfl fun t' i ⟨hc, h⟩ => ⟨hc, ?_⟩
      rcases committedWhen_after h with h | ⟨he, -⟩
      · exact h
      · cases he
    have hfit : Fit task t w := hd
    unfold Fit at hfit
    cases ht : task t with
    | request email =>
      rw [ht] at hfit
      exact inv_commitRequest hi hfit (by rw [ht]; rfl) hp
    | confirm resetToken newPassword =>
      rw [ht] at hfit
      rcases hfit with ⟨hunwritten, hmarks⟩ | hburning
      · refine inv_same hi (view_of_unwritten hunwritten) le_rfl fun t' i ⟨hc, h⟩ => ?_
        rcases committedWhen_after h with h | ⟨he, e, he', hmark⟩
        · exact ⟨hc, h⟩
        · cases he
          rcases hmarks with hno | ⟨j, hconfirmed, hno⟩
          · exact (hno e he' hmark.proc i hmark).elim
          · rw [hno e he' hmark.proc i hmark]
            exact hconfirmed
      · exact inv_commitConfirm hi hburning (by rw [ht]; rfl)
  · refine inv_same hi (fun i => congrFun (exec_committed_db hcommit hx .passwordResetTokens) i)
      (exec_clock hx).ge fun t' i ⟨hc, h⟩ => ⟨hc, ?_⟩
    rcases committedWhen_after h with h | ⟨he, -⟩
    · exact h
    · cases he
      exact absurd rfl hcommit

/-! ### The result -/

abbrev ResetPool (T : Type) : Type := Pool T Op Op.Res Exc Unit (State T)

/-- Before the first call: the user has one valid token at most, and no transaction is open. -/
structure Start (env : Primitives) (task : T → Task) (u : UserId) (p : ResetPool T) : Prop where
  prog : ∀ t, p.prog t = (task t).program env
  trace : p.world.trace = []
  hold : ∀ k, (p.world.state.db .passwordResetTokens).hold k = none
  one : ∀ i j, valid u p.world i = true → valid u p.world j = true → i = j

variable {p q : ResetPool T} {ls : List (Label T Choice Tick)}

theorem eventsOk : (discipline hash task u).EventsOk := fun _ _ _ _ _ _ => trivial

theorem Start.sound (h : Start env task u p) (hash : RawToken → TokenHash) :
    (discipline hash task u).Sound (fun _ _ _ => True) (fun _ _ _ => True) p where
  inv := trivial
  safe t := by
    have hunwritten : Unwritten .passwordResetTokens t p.world := by
      intro k v x hv
      have hhold := (Table.mine_eq_some.mp hv).1
      rw [h.hold] at hhold
      cases hhold
    refine ⟨_, (kept_idle.and kept_looking).stable, ⟨⟨hunwritten, fun e he => ?_⟩, hunwritten,
      fun e he => ?_⟩, ?_⟩
    · rw [h.trace] at he
      cases he
    · rw [h.trace] at he
      cases he
    · rw [h.prog]
      exact safe_task

omit [DecidableEq T] in
theorem Start.inv (h : Start env task u p) : Inv task u p.world := by
  have hno : ∀ t i, ¬ Confirmed task i t p.world := by
    rintro t i ⟨-, newer, older, htrace, -⟩
    rw [h.trace] at htrace
    simp at htrace
  exact ⟨h.one, fun t i hc => absurd hc (hno t i), fun t _ i hc => absurd hc (hno t i)⟩

/-- **One valid token, confirmed once.** In every interleaving of reset requests and confirmations,
with any failures, in which a request that commits a token of the user has found every token of the
user that is valid by then, and every confirmation uses up a token that is unused at that moment:
the user has at most one unused, unexpired token, and no token is confirmed twice. -/
theorem one_valid_token (h₀ : Start env task u p)
    (hC : (machine T hash).Meets (noStaleRead task u) p ls)
    (hq : (machine T hash).run p ls = some q) :
    (∀ i j, valid u q.world i = true → valid u q.world j = true → i = j) ∧
      ∀ t t' i, Confirmed task i t q.world → Confirmed task i t' q.world → t = t' := by
  have hinv : Inv task u q.world := by
    refine ((h₀.sound hash).invariant (C := noStaleRead task u) (fun _ _ _ _ h => h)
      (fun _ _ h => h) (P := Inv task u) (fun t o c r w s hi hp hx hd => inv_step hi hp hx hd)
      (fun e w s hi hx => ?_) eventsOk h₀.inv hC hq).2
    cases hx
    exact inv_same hi (fun _ => rfl) (Nat.le_add_right _ _) fun _ _ => id
  exact ⟨hinv.one, hinv.once⟩

/-! ### Two requests and two confirmations -/

/-- User 10 asks for a token twice, and confirms the token 3 twice. -/
def twoOfEach : Fin 4 → Task
  | 0 => .request ['e']
  | 1 => .request ['e']
  | 2 => .confirm 3 ['s', 'e', 'c', 'r', 't', '1']
  | 3 => .confirm 3 ['s', 'e', 'c', 'r', 't', '2']

def userWithToken : ResetPool (Fin 4) where
  world := ⟨State.ofRows fun
    | .users => [(10, ⟨['u'], ['e'], ['p'], ['f'], ['l'], true, false, false, 0⟩)]
    | .passwordResetTokens => [(1, ⟨10, 3, 100, none⟩)]
    | _ => [], []⟩
  prog t := (twoOfEach t).program plainEnv

theorem userWithToken_start : Start plainEnv twoOfEach 10 userWithToken where
  prog _ := rfl
  trace := rfl
  hold _ := rfl
  one i j hi hj := by
    rcases valid_iff.mp hi with ⟨x, hx, -⟩
    rcases valid_iff.mp hj with ⟨y, hy, -⟩
    have hi' := Table.mem_of_ofRows hx
    have hj' := Table.mem_of_ofRows hy
    simp only [List.mem_cons, Prod.mk.injEq, List.not_mem_nil, or_false] at hi' hj'
    rw [hi'.1, hj'.1]

/-- `k` awaits of call `t`; `n` is the token and its id where they are made. -/
def awaits (t : Fin 4) (n k : ℕ) : List (Label (Fin 4) Choice Tick) :=
  List.replicate k (.proc t (.ok [] n))

/-- **Two valid tokens, and a token confirmed twice.** Both requests have looked for tokens when the
first one commits; both confirmations have read the token when the first one commits. -/
theorem two_valid_tokens :
    Start plainEnv twoOfEach 10 userWithToken ∧
      (∃ q, (machine (Fin 4) id).run userWithToken
          (awaits 0 0 3 ++ awaits 1 0 3 ++ awaits 0 5 7 ++ awaits 1 6 7) = some q ∧
        valid 10 q.world 5 = true ∧ valid 10 q.world 6 = true) ∧
      ∃ q, (machine (Fin 4) id).run userWithToken
          (awaits 2 0 3 ++ awaits 3 0 3 ++ awaits 2 0 8 ++ awaits 3 0 8) = some q ∧
        Confirmed twoOfEach 1 2 q.world ∧ Confirmed twoOfEach 1 3 q.world := by
  refine ⟨userWithToken_start, ⟨_, rfl, by decide +kernel, by decide +kernel⟩, _, rfl, ?_, ?_⟩
  · refine ⟨rfl, [_, _, _, _, _, _, _, _, _], _, rfl, ?_⟩
    exact ⟨_, List.mem_of_getElem? (i := 2) rfl, rfl, rfl⟩
  · refine ⟨rfl, [_], _, rfl, ?_⟩
    exact ⟨_, List.mem_of_getElem? (i := 2) rfl, rfl, rfl⟩

/-- One after the other, the second confirmation is refused, and the second request supersedes the
token of the first. -/
theorem one_valid_token_superseded :
    ∃ q, (machine (Fin 4) id).run userWithToken
        (awaits 2 0 11 ++ awaits 3 0 4 ++ awaits 0 5 9 ++ awaits 1 6 10) = some q ∧
      valid 10 q.world 6 = true ∧ valid 10 q.world 5 = false ∧ ∀ t i, Confirmed twoOfEach i t q.world →
        ∀ t', Confirmed twoOfEach i t' q.world → t = t' := by
  rcases Option.isSome_iff_exists.mp (show ((machine (Fin 4) id).run userWithToken
    (awaits 2 0 11 ++ awaits 3 0 4 ++ awaits 0 5 9 ++ awaits 1 6 10)).isSome = true by decide)
    with ⟨q, hq⟩
  rcases one_valid_token userWithToken_start (by decide) hq with ⟨hone, honce⟩
  have hnew : valid 10 q.world 6 = true := by
    cases hq
    decide +kernel
  refine ⟨q, hq, hnew, ?_, fun t i h t' h' => honce t t' i h h'⟩
  cases hold : valid 10 q.world 5 with
  | false => rfl
  | true => exact absurd (hone 5 6 hold hnew) (by decide)

end Chatspace.ResetTokens
