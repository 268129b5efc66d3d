import Chatspace.Services.Messages

/-!
# Idempotent sends

Any number of sends, interleaved at every await and failing at any of them.  The claim in Redis
carries the id the winner generated; a row with that id exists only while the claim does, and the
claim is deleted only by a winner whose row was not committed.  Both are invariants of the whole
pool, so two committed rows under one `(sender, idempotency key)` would be under one claim.

* `Inv` — the invariant: ids are generated once, rows are inserted by the send that generated
  their id, and **a committed row's claim stands**;
* `Guar` — a send removes only a claim that carries its own id, and publishes only its own
  committed message;
* `send_once` — **the result**: for a run in which no claim expires, one `(sender, key)` has at most
  one row, one creator and one `message.created`, and every send that returns returns that row;
* `send_twice_after_expiry` — with the claim gone after its TTL, a second send commits a second row.
-/

namespace Chatspace.IdempotentSend

open Interleave Store Messages

/-- A call of `send_channel_message` or `send_dm_message`. -/
structure SendCall where
  senderId : UserId
  idempotencyKey : Text
  target : MessageTarget
  content : Text
  mediaIds : List AttachmentId

def SendCall.send (call : SendCall) : Py SendMessageResult :=
  match call.target with
  | .channel c =>
    sendChannelMessage c call.senderId call.content call.mediaIds call.idempotencyKey
  | .dm r => sendDmMessage r call.senderId call.content call.mediaIds call.idempotencyKey

/-- The Redis key of the call's claim. -/
def SendCall.claimKey (call : SendCall) : RedisKey :=
  idempotencyRedisKey call.senderId call.idempotencyKey

/-- The message a `message.created` event announces. -/
def createdId : Event → Option MessageId
  | .messageCreated _ id _ _ => some id
  | _ => none

variable {T : Type} [DecidableEq T] {hash : RawToken → TokenHash} {call : T → SendCall}
  {k₀ : RedisKey}

/-- The committed row of message `id`. -/
def row (w : BackendWorld T) (id : MessageId) : Option Message := (w.state.db .messages).committed id

/-- Send `t` generated `id`. -/
def Generated (w : BackendWorld T) (t : T) (id : MessageId) : Prop :=
  (⟨t, .generateId, .ok id⟩ : Entry T Op Op.Res Exc) ∈ w.trace

/-- Nothing announces message `id`. -/
def Unpublished (w : BackendWorld T) (id : MessageId) : Prop :=
  ∀ e ∈ w.state.published, createdId e.2 ≠ some id

/-- The invariant of a pool of sends, as far as the claim key `k₀` is concerned. -/
structure Inv (call : T → SendCall) (k₀ : RedisKey) (w : BackendWorld T) : Prop where
  fresh : ∀ t id, Generated w t id → id ∈ w.state.ids
  unique : ∀ t t' id, Generated w t id → Generated w t' id → t = t'
  known : ∀ id, row w id ≠ none → id ∈ w.state.ids
  inserts : ∀ id h, (w.state.db .messages).hold id = some h →
    Generated w h.owner id ∧ ∃ m, h.pending = some (some m)
  claims : ∀ s k e, w.state.redis (.idempotency s k) = some e →
    ∃ t id, e.1 = .uuid id ∧ Generated w t id ∧ (call t).claimKey = .idempotency s k
  claimed : ∀ t id, (call t).claimKey = k₀ → Generated w t id → row w id ≠ none →
    (w.state.redis k₀).map Prod.fst = some (.uuid id)
  announced : ∀ e ∈ w.state.published, ∀ id, createdId e.2 = some id → row w id ≠ none
  once : ∀ (i j : ℕ) e e' id, w.state.published[i]? = some e → w.state.published[j]? = some e' →
    createdId e.2 = some id → createdId e'.2 = some id → i = j

/-- What a step of send `t` may do to the claim and to the published events. -/
structure Guar (k₀ : RedisKey) (t : T) (w w' : BackendWorld T) : Prop where
  claim : ∀ e, w.state.redis k₀ = some e →
    w'.state.redis k₀ = some e ∨ ∃ id, e.1 = .uuid id ∧ Generated w t id
  published : w'.state.published = w.state.published ∨
    ∃ topic event, w'.state.published = w.state.published ++ [(topic, event)] ∧
      ∀ id, createdId event = some id → Generated w t id ∧ row w id ≠ none

/-- No send claims `k₀` after an earlier claim of it has expired. -/
abbrev claimStands (k₀ : RedisKey) : Machine.Condition T Op Op.Res Exc Choice Tick (State T) where
  op _ o _ w := ∀ k ∈ o.redisSetsNx, k = k₀ → ∀ e ∈ w.state.redis k₀, w.state.clock < e.2
  event _ _ := True

/-- The contract of a pool of sends. -/
def contract (hash : RawToken → TokenHash) (call : T → SendCall) (k₀ : RedisKey) :
    Contract (machine T hash) where
  inv := Inv call k₀
  pre := claimStands k₀
  guar t _ _ w w' := Guar k₀ t w w'

variable {t t' : T} {w w' : BackendWorld T} {id m : MessageId}

omit [DecidableEq T] in
theorem Generated.after (h : Generated w t id) (t' : T) (o : Op) (r : Except Exc o.Res)
    (s : State T) : Generated (w.after t' o r s) t id :=
  List.mem_cons_of_mem _ h

omit [DecidableEq T] in
/-- A step that is not a `generate_id` leaves the generated ids as they were. -/
theorem generated_after {o : Op} {r : Except Exc o.Res} {s : State T} (ho : o ≠ .generateId) :
    Generated (w.after t' o r s) t id ↔ Generated w t id := by
  unfold Generated
  rw [World.after_trace, List.mem_cons]
  refine or_iff_right ?_
  intro he
  cases he
  exact ho rfl

/-! ### Steps that do not concern the claim -/

/-- Rows, ids and events are as they were. -/
structure LikeDb (w w' : BackendWorld T) : Prop where
  rows : ∀ id, row w' id = row w id
  ids : w'.state.ids = w.state.ids
  published : w'.state.published = w.state.published
  generated : ∀ t id, Generated w' t id ↔ Generated w t id

/-- And so are the claims. -/
structure Like (w w' : BackendWorld T) : Prop extends LikeDb w w' where
  redis : w'.state.redis = w.state.redis

/-- And so are the holds on message rows. -/
structure Same (w w' : BackendWorld T) : Prop extends Like w w' where
  hold : (w'.state.db .messages).hold = (w.state.db .messages).hold

omit [DecidableEq T] in
/-- What remains to be shown of a step that changes only holds and claims. -/
theorem LikeDb.inv (h : LikeDb w w') (hi : Inv call k₀ w)
    (inserts : ∀ id x, (w'.state.db .messages).hold id = some x →
      Generated w x.owner id ∧ ∃ m, x.pending = some (some m))
    (claims : ∀ s k e, w'.state.redis (.idempotency s k) = some e →
      ∃ t id, e.1 = .uuid id ∧ Generated w t id ∧ (call t).claimKey = .idempotency s k)
    (claimed : ∀ t id, (call t).claimKey = k₀ → Generated w t id → row w id ≠ none →
      (w'.state.redis k₀).map Prod.fst = some (.uuid id)) : Inv call k₀ w' where
  fresh t id hg := by
    rw [h.ids]
    exact hi.fresh t id ((h.generated t id).mp hg)
  unique t t' id hg hg' := hi.unique t t' id ((h.generated t id).mp hg) ((h.generated t' id).mp hg')
  known id hr := by
    rw [h.ids]
    rw [h.rows] at hr
    exact hi.known id hr
  inserts id x hx := by
    obtain ⟨hg, hm⟩ := inserts id x hx
    exact ⟨(h.generated _ id).mpr hg, hm⟩
  claims s k e he := by
    obtain ⟨t, id, hv, hg, hk⟩ := claims s k e he
    exact ⟨t, id, hv, (h.generated t id).mpr hg, hk⟩
  claimed t id hk hg hr := by
    rw [h.rows] at hr
    exact claimed t id hk ((h.generated t id).mp hg) hr
  announced e he id hid := by
    rw [h.published] at he
    rw [h.rows]
    exact hi.announced e he id hid
  once i j e e' id := by
    rw [h.published]
    exact hi.once i j e e' id

omit [DecidableEq T] in
theorem Like.inv (h : Like w w') (hi : Inv call k₀ w)
    (inserts : ∀ id x, (w'.state.db .messages).hold id = some x →
      Generated w x.owner id ∧ ∃ m, x.pending = some (some m)) : Inv call k₀ w' := by
  refine h.toLikeDb.inv hi inserts ?_ ?_
  · rw [h.redis]
    exact hi.claims
  · rw [h.redis]
    exact hi.claimed

omit [DecidableEq T] in
theorem Like.guar (h : Like w w') (t : T) : Guar k₀ t w w' where
  claim e he := .inl (by rw [h.redis]; exact he)
  published := .inl h.published

omit [DecidableEq T] in
theorem Same.inv (h : Same w w') (hi : Inv call k₀ w) : Inv call k₀ w' :=
  h.toLike.inv hi fun id x hx => hi.inserts id x (by rw [← h.hold]; exact hx)

omit [DecidableEq T] in
/-- A step that leaves the message table, claims, ids and events alone. -/
theorem same_after {o : Op} {r : Except Exc o.Res} {s : State T} (ho : o ≠ .generateId)
    (hm : s.db .messages = w.state.db .messages) (hr : s.redis = w.state.redis)
    (hi : s.ids = w.state.ids) (hp : s.published = w.state.published) :
    Same w (w.after t o r s) where
  rows id := by rw [row, World.after_state, hm]; rfl
  redis := hr
  ids := hi
  published := hp
  generated _ _ := generated_after ho
  hold := by rw [World.after_state, hm]

/-- Send `t` holds no message row. -/
def Idle (t : T) (w : BackendWorld T) : Prop := ∀ id, ¬ (w.state.db .messages).Holds t id

/-- The operations that leave the message table, claims, ids and events alone. -/
def Quiet : Op → Prop
  | .sql (.select ..) => True
  | .sql (.get ..) => True
  | .sql (.update .attachments ..) => True
  | .redisGet _ => True
  | .sleep => True
  | _ => False

/-- Those that do so when the send is idle. -/
def QuietIdle (o : Op) : Prop := Quiet o ∨ o = .sql .commit ∨ o = .sql .rollback

theorem quiet_same {o : Op} (ho : Quiet o) {c : Choice} {r : Except Exc o.Res} {s : State T}
    (h : (machine T hash).exec t o c w.state = some (r, s)) : Same w (w.after t o r s) := by
  have hne : o ≠ .generateId := by
    rintro rfl
    exact ho
  match o, ho with
  | .sql (.select τ p), _ =>
    obtain ⟨d, hd, rfl⟩ := exec_sql h
    exact same_after hne (by rw [(exec_select hd).1]) rfl rfl rfl
  | .sql (.get τ k), _ =>
    obtain ⟨d, hd, rfl⟩ := exec_sql h
    exact same_after hne (by rw [(exec_get hd).1]) rfl rfl rfl
  | .sql (.update .attachments k p f), _ =>
    obtain ⟨d, hd, rfl⟩ := exec_sql h
    refine same_after hne ?_ rfl rfl rfl
    obtain ⟨rfl, -⟩ | ⟨x, -, -, -, rfl, -⟩ := exec_update hd <;> rfl
  | .redisGet k, _ =>
    rw [(exec_redisGet h).1]
    exact same_after hne rfl rfl rfl rfl
  | .sleep, _ =>
    rw [exec_sleep h]
    exact same_after hne rfl rfl rfl rfl

theorem quietIdle_same {o : Op} (ho : QuietIdle o) (hidle : Idle t w) {c : Choice}
    {r : Except Exc o.Res} {s : State T}
    (h : (machine T hash).exec t o c w.state = some (r, s)) : Same w (w.after t o r s) := by
  obtain ho | rfl | rfl := ho
  · exact quiet_same ho h
  · obtain ⟨d, hd, rfl⟩ := exec_sql h
    refine same_after nofun ?_ rfl rfl rfl
    obtain ⟨rfl, -⟩ | ⟨rfl, -⟩ := exec_commit hd
    · rfl
    · exact Table.commit_of_not_holds hidle
  · obtain ⟨d, hd, rfl⟩ := exec_sql h
    refine same_after nofun ?_ rfl rfl rfl
    obtain ⟨rfl, -⟩ | ⟨rfl, -⟩ := exec_rollback hd
    · rfl
    · exact Table.rollback_of_not_holds hidle

/-! ### What a send knows -/

/-- The id is new to the database and to the subscribers. -/
structure Own (t : T) (id : MessageId) (w : BackendWorld T) : Prop where
  generated : Generated w t id
  row : row w id = none
  unpublished : Unpublished w id

/-- If `k₀` is the claim key of `t`, the claim carries `id`. -/
def Claim (call : T → SendCall) (k₀ : RedisKey) (t : T) (id : MessageId) (w : BackendWorld T) : Prop :=
  (call t).claimKey = k₀ → (w.state.redis k₀).map Prod.fst = some (.uuid id)

/-- `t` holds no message row but that of `id`. -/
def Alone (t : T) (id : MessageId) (w : BackendWorld T) : Prop :=
  ∀ j, (w.state.db .messages).Holds t j → j = id

/-- `t` has inserted the row of `id` and not yet committed it. -/
def Inserted (t : T) (id : MessageId) (w : BackendWorld T) : Prop :=
  ∃ m, (w.state.db .messages).hold id = some ⟨t, some (some m)⟩

/-- The row of `id`, sent by `t`, is committed and not yet announced. -/
structure Persisted (t : T) (id : MessageId) (w : BackendWorld T) : Prop where
  generated : Generated w t id
  row : row w id ≠ none
  unpublished : Unpublished w id

/-- Some send under the claim key `k` generated `id`. -/
def Known (call : T → SendCall) (k : RedisKey) (id : MessageId) (w : BackendWorld T) : Prop :=
  ∃ t, (call t).claimKey = k ∧ Generated w t id

/-- A committed row sent under the claim key `k`. -/
def RowFor (call : T → SendCall) (k : RedisKey) (id : MessageId) (w : BackendWorld T) : Prop :=
  Known call k id w ∧ row w id ≠ none

omit [DecidableEq T] in
theorem LikeDb.unpublished (h : LikeDb w w') (hu : Unpublished w id) : Unpublished w' id := by
  unfold Unpublished
  rw [h.published]
  exact hu

omit [DecidableEq T] in
theorem LikeDb.own (h : LikeDb w w') (ho : Own t id w) : Own t id w' :=
  ⟨(h.generated t id).mpr ho.generated, (h.rows id).trans ho.row, h.unpublished ho.unpublished⟩

omit [DecidableEq T] in
theorem Like.claim (h : Like w w') (hc : Claim call k₀ t id w) : Claim call k₀ t id w' := by
  unfold Claim
  rw [h.redis]
  exact hc

omit [DecidableEq T] in
theorem Same.idle (h : Same w w') (hw : Idle t w) : Idle t w' := by
  unfold Idle Table.Holds
  rw [h.hold]
  exact hw

omit [DecidableEq T] in
theorem Same.alone (h : Same w w') (hw : Alone t id w) : Alone t id w' := by
  unfold Alone Table.Holds
  rw [h.hold]
  exact hw

omit [DecidableEq T] in
theorem Same.inserted (h : Same w w') (hw : Inserted t id w) : Inserted t id w' := by
  unfold Inserted
  rw [h.hold]
  exact hw

omit [DecidableEq T] in
theorem LikeDb.rowFor {k : RedisKey} (h : LikeDb w w') (hw : RowFor call k id w) :
    RowFor call k id w' := by
  obtain ⟨⟨t, hk, hg⟩, hr⟩ := hw
  exact ⟨⟨t, hk, (h.generated t id).mpr hg⟩, by rw [h.rows]; exact hr⟩

/-! ### What the other sends leave alone -/

theorem generated_other (ho : (contract hash call k₀).Other t w w') (hg : Generated w t' id) :
    Generated w' t' id := by
  cases ho with
  | proc hne hpre hexec hguar => exact hg.after ..
  | event hpre hexec => exact hg

/-- Another process commits no row that it has not generated. -/
theorem row_none_other (hi : Inv call k₀ w) (ho : (contract hash call k₀).Other t w w')
    (hg : Generated w t id) (hr : row w id = none) : row w' id = none := by
  cases ho with
  | event hpre hexec =>
    cases hexec
    exact hr
  | @proc t' o c r s hne hpre hexec hguar =>
    have hnot : ¬ (w.state.db .messages).Holds t' id := by
      rintro ⟨p, hp⟩
      exact hne (hi.unique t' t id (hi.inserts id _ hp).1 hg)
    exact (exec_committed_of_not_holds hexec hnot).trans hr

/-- No statement takes a committed message away. -/
theorem row_persists (hi : Inv call k₀ w) {o : Op} {c : Choice} {r : Except Exc o.Res} {s : State T}
    (h : (machine T hash).exec t o c w.state = some (r, s)) (hr : row w id ≠ none) :
    row (w.after t o r s) id ≠ none := by
  by_cases hk : (w.state.db .messages).Holds t id
  · obtain ⟨p, hp⟩ := hk
    obtain ⟨-, m, rfl⟩ := hi.inserts id _ hp
    obtain hd | ⟨q, r', rfl, hd⟩ := exec_db h
    · show (s.db .messages).committed id ≠ none
      rw [hd]
      exact hr
    · by_cases hq : q = .commit
      · subst hq
        obtain ⟨hd, -⟩ | ⟨hd, -⟩ := exec_commit hd
        · show (s.db .messages).committed id ≠ none
          rw [hd]
          exact hr
        · show (s.db .messages).committed id ≠ none
          rw [hd, Db.commit_apply, Table.committed_commit, Table.view_of_hold hp]
          exact Option.some_ne_none m
      · show (s.db .messages).committed id ≠ none
        rw [exec_committed hq hd]
        exact hr
  · have := exec_committed_of_not_holds h hk
    show (s.db .messages).committed id ≠ none
    rw [this]
    exact hr

theorem row_some_other (hi : Inv call k₀ w) (ho : (contract hash call k₀).Other t w w')
    (hr : row w id ≠ none) : row w' id ≠ none := by
  cases ho with
  | proc hne hpre hexec hguar => exact row_persists hi hexec hr
  | event hpre hexec =>
    cases hexec
    exact hr

theorem unpublished_other (hi : Inv call k₀ w) (ho : (contract hash call k₀).Other t w w')
    (hg : Generated w t id) (hu : Unpublished w id) : Unpublished w' id := by
  cases ho with
  | event hpre hexec =>
    cases hexec
    exact hu
  | @proc t' o c r s hne hpre hexec hguar =>
    obtain hp | ⟨topic, event, hp, hev⟩ := hguar.published
    · unfold Unpublished
      rw [hp]
      exact hu
    · intro e he hid
      rw [hp, List.mem_append, List.mem_singleton] at he
      obtain he | rfl := he
      · exact hu e he hid
      · exact hne (hi.unique t' t id (hev id hid).1 hg)

theorem stable_idle : (contract hash call k₀).Stable t (Idle t) := by
  intro w w' _ _ ho hA id hid
  cases ho with
  | proc hne hpre hexec hguar => exact hA id ((exec_keeps hne hexec .messages).holds.mpr hid)
  | event hpre hexec =>
    cases hexec
    exact hA id hid

theorem stable_alone : (contract hash call k₀).Stable t (Alone t id) := by
  intro w w' _ _ ho hA j hj
  cases ho with
  | proc hne hpre hexec hguar => exact hA j ((exec_keeps hne hexec .messages).holds.mpr hj)
  | event hpre hexec =>
    cases hexec
    exact hA j hj

theorem stable_inserted : (contract hash call k₀).Stable t (Inserted t id) := by
  rintro w w' _ _ ho ⟨m, hm⟩
  cases ho with
  | proc hne hpre hexec hguar =>
    exact ⟨m, ((exec_keeps hne hexec .messages).hold id _).mp hm⟩
  | event hpre hexec =>
    cases hexec
    exact ⟨m, hm⟩

theorem stable_own : (contract hash call k₀).Stable t (Own t id) :=
  fun _ _ hi _ ho hA => ⟨generated_other ho hA.generated, row_none_other hi ho hA.generated hA.row,
    unpublished_other hi ho hA.generated hA.unpublished⟩

theorem stable_persisted : (contract hash call k₀).Stable t (Persisted t id) :=
  fun _ _ hi _ ho hA => ⟨generated_other ho hA.generated, row_some_other hi ho hA.row,
    unpublished_other hi ho hA.generated hA.unpublished⟩

theorem stable_known {k : RedisKey} : (contract hash call k₀).Stable t (Known call k id) := by
  rintro w w' _ _ ho ⟨t', hk, hg⟩
  exact ⟨t', hk, generated_other ho hg⟩

theorem stable_rowFor {k : RedisKey} : (contract hash call k₀).Stable t (RowFor call k id) :=
  stable_known.and fun _ _ hi _ ho hr => row_some_other hi ho hr

/-- The claim of a send stands while its id is its own. -/
theorem stable_claim :
    (contract hash call k₀).Stable t fun w => Own t id w ∧ Claim call k₀ t id w := by
  rintro w w' hi hi' ho ⟨hown, hc⟩
  refine ⟨stable_own w w' hi hi' ho hown, ?_⟩
  cases ho with
  | event hpre hexec =>
    cases hexec
    exact hc
  | @proc t' o c r s hne hpre hexec hguar =>
    intro hk
    obtain ⟨e, he, hv⟩ := Option.map_eq_some_iff.mp (hc hk)
    obtain hkeep | ⟨id', hid', hg'⟩ := hguar.claim e he
    · exact Option.map_eq_some_iff.mpr ⟨e, hkeep, hv⟩
    · rw [hv] at hid'
      cases hid'
      exact absurd (hi.unique t' t id hg' hown.generated) hne

/-! ### The quiet functions -/

/-- An assertion that the quiet operations keep. -/
structure Frame (hash : RawToken → TokenHash) (call : T → SendCall) (k₀ : RedisKey) (t : T)
    (A : BackendWorld T → Prop) : Prop where
  stable : (contract hash call k₀).Stable t A
  same : ∀ w w', Same w w' → A w → A w'

variable {A A' : BackendWorld T → Prop}

theorem Frame.and (hA : Frame hash call k₀ t A) (hA' : Frame hash call k₀ t A') :
    Frame hash call k₀ t fun w => A w ∧ A' w :=
  ⟨hA.stable.and hA'.stable, fun w w' h hw => ⟨hA.same w w' h hw.1, hA'.same w w' h hw.2⟩⟩

theorem frame_idle : Frame hash call k₀ t (Idle t) := ⟨stable_idle, fun _ _ h hw => h.idle hw⟩

theorem frame_own : Frame hash call k₀ t (Own t id) := ⟨stable_own, fun _ _ h hw => h.own hw⟩

theorem frame_inserted : Frame hash call k₀ t (Inserted t id) :=
  ⟨stable_inserted, fun _ _ h hw => h.inserted hw⟩

theorem frame_rowFor {k : RedisKey} : Frame hash call k₀ t (RowFor call k id) :=
  ⟨stable_rowFor, fun _ _ h hw => h.rowFor hw⟩

theorem frame_row : Frame hash call k₀ t fun w => row w id ≠ none :=
  ⟨fun _ _ hi _ ho hr => row_some_other hi ho hr, fun _ _ h hw => by rw [h.rows]; exact hw⟩

/-- The claim is won and the row not committed. -/
def Won (call : T → SendCall) (k₀ : RedisKey) (t : T) (id : MessageId) (w : BackendWorld T) : Prop :=
  (Own t id w ∧ Claim call k₀ t id w) ∧ Alone t id w

omit [DecidableEq T] in
theorem Same.won (h : Same w w') (hw : Won call k₀ t id w) : Won call k₀ t id w' :=
  ⟨⟨h.own hw.1.1, h.claim hw.1.2⟩, h.alone hw.2⟩

theorem frame_won : Frame hash call k₀ t (Won call k₀ t id) :=
  ⟨stable_claim.and stable_alone, fun _ _ h hw => h.won hw⟩

theorem Frame.step (hA : Frame hash call k₀ t A) {o : Op} (ho : Quiet o) :
    (contract hash call k₀).StepOk t A o fun _ => A := by
  intro w c r s hi hw _ h
  have hs := quiet_same ho h
  exact ⟨hs.inv hi, hs.guar t, hA.same w _ hs hw⟩

theorem Frame.stepIdle (hA : Frame hash call k₀ t A) (hidle : ∀ w, A w → Idle t w) {o : Op}
    (ho : QuietIdle o) : (contract hash call k₀).StepOk t A o fun _ => A := by
  intro w c r s hi hw _ h
  have hs := quietIdle_same ho (hidle w hw) h
  exact ⟨hs.inv hi, hs.guar t, hA.same w _ hs hw⟩

/-- A quiet function keeps every such assertion. -/
theorem Frame.only {α : Type} {p : Py α} (hA : Frame hash call k₀ t A) (hp : p.Only Quiet) :
    (contract hash call k₀).Safe t p A (fun _ => A) fun _ => A :=
  Contract.Safe.only hp hA.stable fun _ ho => hA.step ho

/-! ### Resolving a claim -/

theorem safe_loadClaimedMessageId (hA : Frame hash call k₀ t A) :
    (contract hash call k₀).Safe t
      (loadClaimedMessageId (call t).senderId (call t).idempotencyKey) A
      (fun r w => A w ∧ ∀ id, r = some id → Known call (call t).claimKey id w) fun _ => A := by
  refine Contract.Safe.await
    (fun v w => A w ∧ ∀ id, v = some (.uuid id) → Known call (call t).claimKey id w)
    (fun v => hA.stable.and (.forall fun id => .imp fun _ => stable_known))
    (fun _ => hA.stable) ?_ fun v => ?_
  · intro w c r s hi hw _ h
    have hs := quiet_same (by trivial) h
    refine ⟨hs.inv hi, hs.guar t, ?_⟩
    cases r with
    | error e => exact hA.same w _ hs hw
    | ok v =>
      refine ⟨hA.same w _ hs hw, fun id hv => ?_⟩
      have hget := (exec_redisGet h).2 v rfl
      rw [hv] at hget
      -- whatever Redis answers is the id of an entry, and entries carry generated ids
      obtain ⟨e, he, hif⟩ := Option.bind_eq_some_iff.mp hget.symm
      split at hif
      · obtain ⟨t', id', hid, hg, hk⟩ := hi.claims _ _ e he
        have hev : e.1 = .uuid id := Option.some.inj hif
        rw [hev] at hid
        cases hid
        exact ⟨t', hk, hg.after ..⟩
      · cases hif
  · match v with
    | none => exact fun w _ hw => ⟨hw.1, nofun⟩
    | some (.uuid id) =>
      refine fun w _ hw => ⟨hw.1, fun id' h => ?_⟩
      cases h
      exact hw.2 id rfl
    | some (.text _) => exact fun w _ hw => hw.1

/-- What an idle send loads is a committed row. -/
theorem safe_loadMessageWithMedia (hA : Frame hash call k₀ t A) (hidle : ∀ w, A w → Idle t w)
    (id : MessageId) :
    (contract hash call k₀).Safe t (loadMessageWithMedia id) A
      (fun r w => A w ∧ ∀ m, r = some m → m.id = id ∧ row w id ≠ none) fun _ => A := by
  refine Contract.Safe.await (fun x w => A w ∧ (x ≠ none → row w id ≠ none))
    (fun x => hA.stable.and (.imp fun _ => frame_row.stable)) (fun _ => hA.stable) ?_ fun x => ?_
  · intro w c r s hi hw _ h
    have hs := quiet_same (by trivial) h
    refine ⟨hs.inv hi, hs.guar t, ?_⟩
    cases r with
    | error e => exact hA.same w _ hs hw
    | ok x =>
      refine ⟨hA.same w _ hs hw, fun hx => ?_⟩
      obtain ⟨d, hd, rfl⟩ := exec_sql h
      have hview := (exec_get hd).2 x rfl
      rw [Table.view_of_not_holds (hidle w hw id)] at hview
      rw [hs.rows]
      exact fun hn => hx (hview.trans hn)
  · match x with
    | none => exact fun w _ hw => ⟨hw.1, nofun⟩
    | some message =>
      refine Contract.Safe.bind (Q := fun _ w => A w ∧ row w id ≠ none) ?_ fun media => ?_
      · exact ((hA.and frame_row).only (only_getMessageMedia (fun _ _ => trivial) id)).mono
          (fun w _ hw => ⟨hw.1, hw.2 (Option.some_ne_none message)⟩) (fun _ _ _ hw => hw)
          fun _ _ _ hw => hw.1
      · rintro w _ ⟨hw, hr⟩
        refine ⟨hw, fun m hm => ?_⟩
        cases hm
        exact ⟨rfl, hr⟩

/-- What resolving a claim finds. -/
def Resolved (call : T → SendCall) (t : T) (r : Option MessageWithMedia) (w : BackendWorld T) :
    Prop :=
  ∀ m, r = some m → RowFor call (call t).claimKey m.id w

theorem safe_loadKnown (hA : Frame hash call k₀ t A) (hidle : ∀ w, A w → Idle t w) (id : MessageId) :
    (contract hash call k₀).Safe t (loadMessageWithMedia id)
      (fun w => A w ∧ Known call (call t).claimKey id w)
      (fun r w => (A w ∧ Known call (call t).claimKey id w) ∧ Resolved call t r w) fun _ => A := by
  have hK : Frame hash call k₀ t fun w => A w ∧ Known call (call t).claimKey id w := by
    refine hA.and ⟨stable_known, fun w w' h hw => ?_⟩
    obtain ⟨t', hk, hg⟩ := hw
    exact ⟨t', hk, (h.generated t' id).mpr hg⟩
  refine (safe_loadMessageWithMedia hK (fun w hw => hidle w hw.1) id).mono (fun _ _ hw => hw)
    (fun r w _ hw => ⟨hw.1, fun m hm => ?_⟩) fun _ _ _ hw => hw.1
  obtain ⟨rfl, hr⟩ := hw.2 m hm
  exact ⟨hw.1.2, hr⟩

theorem safe_resolveLoop (hA : Frame hash call k₀ t A) (hidle : ∀ w, A w → Idle t w) (n : ℕ) :
    (contract hash call k₀).Safe t (resolveLoop (call t).senderId (call t).idempotencyKey n) A
      (fun r w => A w ∧ Resolved call t r w) fun _ => A := by
  induction n with
  | zero => exact fun w _ hw => hw
  | succ n ih =>
    refine Contract.Safe.await (fun _ => A) (fun _ => hA.stable) (fun _ => hA.stable)
      (fun w c r s hi hw hp h => ?_) fun _ => ?_
    · have := hA.step (o := .sleep) trivial w c r s hi hw hp h
      cases r <;> exact this
    refine Contract.Safe.bind (safe_loadClaimedMessageId hA) fun claimed => ?_
    match claimed with
    | none => exact fun w _ hw => ⟨hw.1, nofun⟩
    | some id =>
      show (contract hash call k₀).Safe t (if 0 < n then _ else _) _ _ _
      split
      · exact ih.weaken fun w _ hw => hw.1
      · refine Contract.Safe.bind ((safe_loadKnown hA hidle id).weaken fun w _ hw =>
          ⟨hw.1, hw.2 id rfl⟩) fun loaded => ?_
        match loaded with
        | none => exact ih.weaken fun w _ hw => hw.1.1
        | some m => exact fun w _ hw => ⟨hw.1.1, hw.2⟩

theorem safe_resolveExistingClaim (hA : Frame hash call k₀ t A) (hidle : ∀ w, A w → Idle t w) :
    (contract hash call k₀).Safe t
      (resolveExistingClaim (call t).senderId (call t).idempotencyKey) A
      (fun r w => A w ∧ Resolved call t r w) fun _ => A := by
  refine Contract.Safe.bind (safe_loadClaimedMessageId hA) fun claimed => ?_
  match claimed with
  | none => exact fun w _ hw => ⟨hw.1, nofun⟩
  | some id =>
    refine Contract.Safe.bind ((safe_loadKnown hA hidle id).weaken fun w _ hw =>
      ⟨hw.1, hw.2 id rfl⟩) fun loaded => ?_
    match loaded with
    | some m => exact fun w _ hw => ⟨hw.1.1, hw.2⟩
    | none =>
      refine Contract.Safe.await (fun _ => A) (fun _ => hA.stable) (fun _ => hA.stable)
        (fun w c r s hi hw hp h => ?_) fun _ => safe_resolveLoop hA hidle _
      have := hA.stepIdle hidle (o := .sql .rollback) (.inr (.inr rfl)) w c r s hi hw.1.1 hp h
      cases r <;> exact this

/-! ### The steps that concern the claim -/

omit [DecidableEq T] in
/-- A statement that leaves committed messages alone. -/
theorem like_sql {o : Stmt schema} {r : Except Exc o.Res} {d : Db T schema}
    (hm : (d .messages).committed = (w.state.db .messages).committed) :
    Like w (w.after t (.sql o) r { w.state with db := d }) where
  rows id := by
    show (d .messages).committed id = _
    rw [hm]
    rfl
  ids := rfl
  published := rfl
  generated _ _ := generated_after nofun
  redis := rfl

theorem insert_step (f : Time → Message) :
    (contract hash call k₀).StepOk t (Won call k₀ t m) (.sql (.insert .messages m f))
      (Contract.Outcome (fun r w => Won call k₀ t m w ∧ (r ≠ none → Inserted t m w))
        fun _ => Won call k₀ t m) := by
  intro w c r s hi hw _ h
  obtain ⟨d, hd, rfl⟩ := exec_sql h
  obtain ⟨rfl, hr⟩ | ⟨now, hf, -, rfl, rfl⟩ := exec_insert hd
  · have hs : Same w (w.after t (.sql (.insert .messages m f)) r w.state) :=
      same_after nofun rfl rfl rfl rfl
    refine ⟨hs.inv hi, hs.guar t, ?_⟩
    have hw' := hs.won hw
    match r with
    | .error e => exact hw'
    | .ok none => exact ⟨hw', fun h => absurd rfl h⟩
    | .ok (some x) => exact absurd rfl (hr x)
  · have hl := like_sql (w := w) (t := t) (o := .insert .messages m f) (r := .ok (some (f now)))
      (d := w.state.db.set .messages ((w.state.db .messages).write t m (some (f now)))) rfl
    have hself : ((w.state.db .messages).write t m (some (f now))).hold m =
        some ⟨t, some (some (f now))⟩ := Table.hold_write_self
    refine ⟨hl.inv hi fun id x hx => ?_, hl.guar t, ⟨⟨hl.own hw.1.1, hl.claim hw.1.2⟩, ?_⟩,
      fun _ => ⟨f now, hself⟩⟩
    · by_cases hid : id = m
      · subst hid
        obtain rfl : x = ⟨t, some (some (f now))⟩ := Option.some.inj (hx.symm.trans hself)
        exact ⟨hw.1.1.generated, f now, rfl⟩
      · exact hi.inserts id x ((Table.hold_write_of_ne hid).symm.trans hx)
    · rintro j ⟨p, hp⟩
      by_contra hj
      exact hj (hw.2 j ⟨p, (Table.hold_write_of_ne hj).symm.trans hp⟩)

/-- The commit of the winner: its row appears, under its claim. -/
theorem commit_step :
    (contract hash call k₀).StepOk t (fun w => Won call k₀ t m w ∧ Inserted t m w) (.sql .commit)
      (Contract.Outcome (fun _ w => Idle t w ∧ Persisted t m w) fun _ => Won call k₀ t m) := by
  rintro w c r s hi ⟨hw, hins⟩ _ h
  obtain ⟨d, hd, rfl⟩ := exec_sql h
  obtain ⟨rfl, hr⟩ | ⟨rfl, rfl⟩ := exec_commit hd
  · have hs : Same w (w.after t (.sql .commit) r w.state) := same_after nofun rfl rfl rfl rfl
    refine ⟨hs.inv hi, hs.guar t, ?_⟩
    match r with
    | .error e => exact hs.won hw
    | .ok () => exact absurd rfl hr
  obtain ⟨msg, hmsg⟩ := hins
  have hgen : ∀ t' id, Generated (w.after t (.sql .commit) (.ok ())
      { w.state with db := w.state.db.commit t }) t' id ↔ Generated w t' id :=
    fun _ _ => generated_after nofun
  -- the send holds its own row only, so no other row changes
  have hrow : ∀ id, id ≠ m → row (w.after t (.sql .commit) (.ok ())
      { w.state with db := w.state.db.commit t }) id = row w id :=
    fun id hid => Table.view_of_not_holds fun hh => hid (hw.2 id hh)
  have hrowm : row (w.after t (.sql .commit) (.ok ())
      { w.state with db := w.state.db.commit t }) m = some msg := Table.view_of_hold hmsg
  have hown := hw.1.1
  refine ⟨?_, ⟨?_, .inl rfl⟩, ?_, ?_⟩
  · exact {
      fresh := fun t' id hg => hi.fresh t' id ((hgen t' id).mp hg)
      unique := fun t₁ t₂ id h₁ h₂ => hi.unique t₁ t₂ id ((hgen t₁ id).mp h₁) ((hgen t₂ id).mp h₂)
      known := fun id hr => by
        by_cases hid : id = m
        · rw [hid]
          exact hi.fresh t m hown.generated
        · rw [hrow id hid] at hr
          exact hi.known id hr
      inserts := fun id x hx => by
        obtain ⟨hg, hm⟩ := hi.inserts id x (Table.release_eq_some hx).1
        exact ⟨(hgen _ id).mpr hg, hm⟩
      claims := fun s k e he => by
        obtain ⟨t', id, hv, hg, hk⟩ := hi.claims s k e he
        exact ⟨t', id, hv, (hgen t' id).mpr hg, hk⟩
      claimed := fun t' id hk hg hr => by
        by_cases hid : id = m
        · subst hid
          obtain rfl := hi.unique t' t id ((hgen t' id).mp hg) hown.generated
          exact hw.1.2 hk
        · rw [hrow id hid] at hr
          exact hi.claimed t' id hk ((hgen t' id).mp hg) hr
      announced := fun e he id hid => by
        by_cases h : id = m
        · exact absurd (h ▸ hid) (hown.unpublished e he)
        · rw [hrow id h]
          exact hi.announced e he id hid
      once := hi.once }
  · exact fun e he => .inl he
  · exact fun id => Table.not_holds_release rfl
  · exact ⟨(hgen t m).mpr hown.generated, by rw [hrowm]; exact Option.some_ne_none msg,
      hown.unpublished⟩

/-- A rollback drops what the send holds and nothing else. -/
theorem rollback_step (A : BackendWorld T → Prop) (hA : ∀ w w', Like w w' → A w → A w') :
    (contract hash call k₀).StepOk t A (.sql .rollback)
      (Contract.Outcome (fun _ w => Idle t w ∧ A w) fun _ => A) := by
  intro w c r s hi hw _ h
  obtain ⟨d, hd, rfl⟩ := exec_sql h
  obtain ⟨rfl, hr⟩ | ⟨rfl, rfl⟩ := exec_rollback hd
  · have hs : Same w (w.after t (.sql .rollback) r w.state) := same_after nofun rfl rfl rfl rfl
    refine ⟨hs.inv hi, hs.guar t, ?_⟩
    match r with
    | .error e => exact hA w _ hs.toLike hw
    | .ok () => exact absurd rfl hr
  · have hl := like_sql (w := w) (t := t) (o := .rollback) (r := .ok ())
      (d := w.state.db.rollback t) rfl
    refine ⟨hl.inv hi fun id x hx => hi.inserts id x (Table.release_eq_some hx).1, hl.guar t,
      fun id => Table.not_holds_release rfl, hA w _ hl hw⟩

/-- The release: only the claim of this send goes, and no committed row is under it. -/
theorem release_step :
    (contract hash call k₀).StepOk t (fun w => Own t m w ∧ Claim call k₀ t m w)
      (.redisDelete (call t).claimKey) fun _ _ => True := by
  rintro w c r s hi ⟨hown, hclaim⟩ _ h
  obtain ⟨rfl, -⟩ | rfl := exec_redisDelete h
  · have hs : Same w (w.after t (.redisDelete (call t).claimKey) r w.state) :=
      same_after nofun rfl rfl rfl rfl
    exact ⟨hs.inv hi, hs.guar t, trivial⟩
  have hl : LikeDb w (w.after t (.redisDelete (call t).claimKey) r
      { w.state with redis := w.state.redis.delete (call t).claimKey }) :=
    ⟨fun _ => rfl, rfl, rfl, fun _ _ => generated_after nofun⟩
  refine ⟨hl.inv hi hi.inserts ?_ ?_, ⟨?_, .inl rfl⟩, trivial⟩
  · intro s k e he
    by_cases hk : RedisKey.idempotency s k = (call t).claimKey
    · rw [hk] at he
      cases Expiring.delete_self.symm.trans he
    · exact hi.claims s k e ((Expiring.delete_of_ne hk).symm.trans he)
  · intro t' id hk' hg hr
    have hid := hi.claimed t' id hk' hg hr
    by_cases hk : k₀ = (call t).claimKey
    · rw [hclaim hk.symm] at hid
      cases hid
      exact absurd hown.row hr
    · exact (congrArg _ (Expiring.delete_of_ne hk)).trans hid
  · intro e he
    by_cases hk : k₀ = (call t).claimKey
    · have hv : e.1 = .uuid m := by
        have hid := hclaim hk.symm
        rw [he] at hid
        exact Option.some.inj hid
      exact .inr ⟨m, hv, hown.generated⟩
    · exact .inl ((Expiring.delete_of_ne hk).trans he)

/-- Claiming: while the claims stand, only a key nobody has claimed is claimed. -/
theorem claim_step (ttl : ℕ) :
    (contract hash call k₀).StepOk t (fun w => Idle t w ∧ Own t m w)
      (.redisSetNx (call t).claimKey (.uuid m) ttl)
      (Contract.Outcome (fun won w => (Idle t w ∧ Own t m w) ∧ (won = true → Claim call k₀ t m w))
        fun _ _ => True) := by
  rintro w c r s hi ⟨hidle, hown⟩ hpre h
  obtain ⟨rfl, hr⟩ | ⟨hget, hr, rfl⟩ := exec_redisSetNx h
  · have hs : Same w (w.after t (.redisSetNx (call t).claimKey (.uuid m) ttl) r w.state) :=
      same_after nofun rfl rfl rfl rfl
    refine ⟨hs.inv hi, hs.guar t, ?_⟩
    match r with
    | .error e => trivial
    | .ok false => exact ⟨⟨hs.idle hidle, hs.own hown⟩, nofun⟩
    | .ok true => exact absurd rfl hr
  have hnone : (call t).claimKey = k₀ → w.state.redis k₀ = none := by
    intro hk
    refine Expiring.eq_none_of_get (hpre _ rfl hk) ?_
    rw [← hk]
    exact hget
  have hl : LikeDb w (w.after t (.redisSetNx (call t).claimKey (.uuid m) ttl) r
      { w.state with redis := w.state.redis.set w.state.clock (call t).claimKey (.uuid m) ttl }) :=
    ⟨fun _ => rfl, rfl, rfl, fun _ _ => generated_after nofun⟩
  refine ⟨hl.inv hi hi.inserts ?_ ?_, ⟨?_, .inl rfl⟩, ?_⟩
  · intro s k e he
    by_cases hk : RedisKey.idempotency s k = (call t).claimKey
    · rw [hk] at he
      cases Expiring.set_self.symm.trans he
      exact ⟨t, m, rfl, hown.generated, hk.symm⟩
    · exact hi.claims s k e ((Expiring.set_of_ne hk).symm.trans he)
  · intro t' id hk' hg hr
    have hid := hi.claimed t' id hk' hg hr
    by_cases hk : k₀ = (call t).claimKey
    · rw [hnone hk.symm] at hid
      cases hid
    · exact (congrArg _ (Expiring.set_of_ne hk)).trans hid
  · intro e he
    by_cases hk : k₀ = (call t).claimKey
    · rw [hnone hk.symm] at he
      cases he
    · exact .inl ((Expiring.set_of_ne hk).trans he)
  · match r with
    | .error e => trivial
    | .ok won =>
      refine ⟨⟨hidle, hl.own hown⟩, fun _ hk => ?_⟩
      subst hk
      exact congrArg _ (Expiring.set_self ..)

/-- A new id is nobody's, in no row and in no event. -/
theorem generate_step :
    (contract hash call k₀).StepOk t (Idle t) .generateId
      (Contract.Outcome (fun m w => Idle t w ∧ Own t m w) fun _ _ => True) := by
  intro w c r s hi hidle _ h
  obtain ⟨n, hn, rfl, rfl⟩ := exec_generateId h
  have hgen : ∀ t' id, Generated (w.after t .generateId (.ok n)
      { w.state with ids := n :: w.state.ids }) t' id → Generated w t' id ∨ t' = t ∧ id = n := by
    intro t' id hg
    obtain he | he := List.mem_cons.mp hg
    · cases he
      exact .inr ⟨rfl, rfl⟩
    · exact .inl he
  have hrow : row w n = none := by
    by_contra hr
    exact hn (hi.known n hr)
  refine ⟨?_, ⟨fun e he => .inl he, .inl rfl⟩, hidle, List.mem_cons_self, hrow, ?_⟩
  · exact {
      fresh := fun t' id hg => by
        obtain hg | ⟨-, rfl⟩ := hgen t' id hg
        · exact List.mem_cons_of_mem n (hi.fresh t' id hg)
        · exact List.mem_cons_self
      unique := fun t₁ t₂ id h₁ h₂ => by
        obtain g₁ | ⟨rfl, rfl⟩ := hgen t₁ id h₁
        · obtain g₂ | ⟨rfl, rfl⟩ := hgen t₂ id h₂
          · exact hi.unique t₁ t₂ id g₁ g₂
          · exact absurd (hi.fresh t₁ id g₁) hn
        · obtain g₂ | ⟨rfl, -⟩ := hgen t₂ id h₂
          · exact absurd (hi.fresh t₂ id g₂) hn
          · rfl
      known := fun id hr => List.mem_cons_of_mem n (hi.known id hr)
      inserts := fun id x hx => by
        obtain ⟨hg, hm⟩ := hi.inserts id x hx
        exact ⟨hg.after .., hm⟩
      claims := fun s k e he => by
        obtain ⟨t', id, hv, hg, hk⟩ := hi.claims s k e he
        exact ⟨t', id, hv, hg.after .., hk⟩
      claimed := fun t' id hk hg hr => by
        obtain hg | ⟨-, rfl⟩ := hgen t' id hg
        · exact hi.claimed t' id hk hg hr
        · exact absurd hrow hr
      announced := hi.announced
      once := hi.once }
  · intro e he hid
    exact hi.announced e he n hid hrow

/-- The event of a committed row, announced for the first time. -/
theorem publish_step {topic : Topic} {event : Event} (hev : createdId event = some m) :
    (contract hash call k₀).StepOk t (fun w => Idle t w ∧ Persisted t m w)
      (.redisPublish topic event) fun _ w => Idle t w ∧ Generated w t m ∧ row w m ≠ none := by
  rintro w c r s hi ⟨hidle, hper⟩ _ h
  obtain ⟨rfl, -⟩ | rfl := exec_redisPublish h
  · have hs : Same w (w.after t (.redisPublish topic event) r w.state) :=
      same_after nofun rfl rfl rfl rfl
    exact ⟨hs.inv hi, hs.guar t, hs.idle hidle, hper.generated.after .., hper.row⟩
  refine ⟨?_, ⟨fun e he => .inl he, .inr ⟨topic, event, rfl, fun id hid => ?_⟩⟩, hidle,
    hper.generated.after .., hper.row⟩
  · have hgen : ∀ t' id, Generated (w.after t (.redisPublish topic event) r
        { w.state with published := w.state.published ++ [(topic, event)] }) t' id ↔
        Generated w t' id := fun _ _ => generated_after nofun
    exact {
      fresh := fun t' id hg => hi.fresh t' id ((hgen t' id).mp hg)
      unique := fun t₁ t₂ id h₁ h₂ => hi.unique t₁ t₂ id ((hgen t₁ id).mp h₁) ((hgen t₂ id).mp h₂)
      known := hi.known
      inserts := fun id x hx => by
        obtain ⟨hg, hm⟩ := hi.inserts id x hx
        exact ⟨(hgen _ id).mpr hg, hm⟩
      claims := fun s k e he => by
        obtain ⟨t', id, hv, hg, hk⟩ := hi.claims s k e he
        exact ⟨t', id, hv, (hgen t' id).mpr hg, hk⟩
      claimed := fun t' id hk hg hr => hi.claimed t' id hk ((hgen t' id).mp hg) hr
      announced := fun e he id hid => by
        obtain he | he := List.mem_append.mp he
        · exact hi.announced e he id hid
        · obtain rfl := List.mem_singleton.mp he
          obtain rfl := Option.some.inj (hev.symm.trans hid)
          exact hper.row
      once := fun i j e e' id hi' hj' he he' => by
        -- an event at an old position is an old event, and no old event announces `m`
        have hold : ∀ (i : ℕ) e, (w.state.published ++ [(topic, event)])[i]? = some e →
            w.state.published[i]? = some e ∨ i = w.state.published.length ∧ e = (topic, event) := by
          intro i e hie
          rw [List.getElem?_append] at hie
          split at hie
          · exact .inl hie
          · obtain ⟨hlt, rfl⟩ := List.getElem?_eq_some_iff.mp hie
            simp only [List.length_singleton] at hlt
            exact .inr ⟨by omega, by simp⟩
        obtain h₁ | ⟨rfl, rfl⟩ := hold i e hi'
        · obtain h₂ | ⟨rfl, rfl⟩ := hold j e' hj'
          · exact hi.once i j e e' id h₁ h₂ he he'
          · obtain rfl := Option.some.inj (hev.symm.trans he')
            exact absurd he (hper.unpublished e (List.mem_of_getElem? h₁))
        · obtain h₂ | ⟨rfl, -⟩ := hold j e' hj'
          · obtain rfl := Option.some.inj (hev.symm.trans he)
            exact absurd he' (hper.unpublished e' (List.mem_of_getElem? h₂))
          · rfl }
  · obtain rfl := Option.some.inj (hev.symm.trans hid)
    exact ⟨hper.generated, hper.row⟩

/-! ### The send path -/

/-- What the winner knows when its `try` block has ended. -/
def PersistedAs (t : T) (m : MessageId) (r : MessageWithMedia) (w : BackendWorld T) : Prop :=
  r.id = m ∧ Idle t w ∧ Persisted t m w

theorem safe_persistMessage (mediaIds : List AttachmentId) (buildMessage : Time → Message) :
    (contract hash call k₀).Safe t
      (Py.exceptException (insertBindCommit (call t).senderId mediaIds buildMessage m)
        (rollbackAndRelease (call t).senderId (call t).idempotencyKey))
      (Won call k₀ t m) (PersistedAs t m) fun _ _ => True := by
  have hins : Frame hash call k₀ t fun w => Won call k₀ t m w ∧ Inserted t m w :=
    frame_won.and frame_inserted
  refine Py.safe_exceptException (R := fun _ => Won call k₀ t m) ?_ (fun e _ => ?_)
    fun _ _ _ _ _ => trivial
  · -- insert, bind, commit
    refine Contract.Safe.bind (Q := fun _ w => Won call k₀ t m w ∧ Inserted t m w) ?_ fun message => ?_
    · refine Contract.Safe.await (fun r w => Won call k₀ t m w ∧ (r ≠ none → Inserted t m w))
        (fun r => frame_won.stable.and (.imp fun _ => stable_inserted)) (fun _ => frame_won.stable)
        (insert_step buildMessage) fun r => ?_
      match r with
      | some row => exact fun w _ hw => ⟨hw.1, hw.2 (Option.some_ne_none row)⟩
      | none => exact fun w _ hw => hw.1
    · refine Contract.Safe.bind ((hins.only (only_bindMediaAtomically (fun _ _ => trivial)
        (fun _ _ _ => trivial) ..)).mono
        (fun _ _ hw => hw) (fun _ _ _ hw => hw) fun _ _ _ hw => hw.1) fun boundMedia => ?_
      refine Contract.Safe.await (fun _ w => Idle t w ∧ Persisted t m w)
        (fun _ => stable_idle.and stable_persisted) (fun _ => frame_won.stable) commit_step
        fun _ w _ hw => ⟨rfl, hw⟩
  · -- roll back, release
    refine Contract.Safe.await (R := fun _ _ => True)
      (fun _ w => Idle t w ∧ Own t m w ∧ Claim call k₀ t m w)
      (fun _ => stable_idle.and stable_claim) (fun _ => .const True) (fun w c r s hi hw hp h => ?_)
      fun _ => ?_
    · obtain ⟨hi', hg, ho⟩ := rollback_step
        (fun w => Own t m w ∧ Claim call k₀ t m w) (fun _ _ h hw => ⟨h.own hw.1, h.claim hw.2⟩)
        w c r s hi hw.1 hp h
      refine ⟨hi', hg, ?_⟩
      cases r with
      | ok a => exact ho
      | error e => trivial
    · refine Contract.Safe.await (R := fun _ _ => True) (fun _ _ => True) (fun _ => .const True)
        (fun _ => .const True) (fun w c r s hi hw hp h => ?_) fun _ _ _ _ => trivial
      obtain ⟨hi', hg, -⟩ := release_step w c r s hi hw.2 hp h
      refine ⟨hi', hg, ?_⟩
      cases r <;> trivial

/-- The row is committed and was sent by `t`. -/
def Announced (t : T) (m : MessageId) (w : BackendWorld T) : Prop :=
  Idle t w ∧ Generated w t m ∧ row w m ≠ none

theorem stable_announced : (contract hash call k₀).Stable t (Announced t m) :=
  stable_idle.and (.and (fun _ _ _ _ ho hg => generated_other ho hg) frame_row.stable)

theorem safe_publishMessageCreated {r : MessageWithMedia} (hr : r.id = m) :
    (contract hash call k₀).Safe t (publishMessageCreated r)
      (fun w => Idle t w ∧ Persisted t m w) (fun _ => Announced t m) fun _ => Announced t m := by
  refine Contract.Safe.handle (R := fun _ => Announced t m) ?_ fun e => ?_
  · refine Contract.Safe.perform (fun _ => stable_announced) (fun _ => stable_announced)
      fun w c r s hi hw hp h => ?_
    have hev : createdId (buildCreatedEvent _) = some m := congrArg some hr
    have := publish_step hev w c r s hi hw hp h
    cases r <;> exact this
  · split <;> exact fun w _ hw => hw

/-- What a send that returned `r` knows. -/
def Sent (call : T → SendCall) (t : T) (r : SendMessageResult) (w : BackendWorld T) : Prop :=
  RowFor call (call t).claimKey r.id w ∧ (r.created = true → Generated w t r.id)

theorem frame_sent {r : SendMessageResult} : Frame hash call k₀ t (Sent call t r) :=
  frame_rowFor.and ⟨.imp fun _ _ _ _ _ ho hg => generated_other ho hg,
    fun _ _ h hw hc => (h.generated t r.id).mpr (hw hc)⟩

theorem safe_claimRounds (mediaIds : List AttachmentId) (buildMessage : Time → Message) (n : ℕ) :
    (contract hash call k₀).Safe t
      (claimRounds (call t).senderId (call t).idempotencyKey mediaIds buildMessage m n)
      (fun w => Idle t w ∧ Own t m w) (fun r w => Idle t w ∧ Sent call t r w) fun _ _ => True := by
  induction n with
  | zero => exact fun _ _ _ => trivial
  | succ n ih =>
    refine Contract.Safe.await
      (fun won w => (Idle t w ∧ Own t m w) ∧ (won = true → Claim call k₀ t m w)) (fun won => ?_)
      (fun _ => .const True) (claim_step idempotencyTtlSeconds) fun won => ?_
    · -- the claim is stable together with the ownership of the id
      rintro w w' hi hi' ho ⟨⟨hidle, hown⟩, hc⟩
      refine ⟨⟨stable_idle w w' hi hi' ho hidle, stable_own w w' hi hi' ho hown⟩, fun h => ?_⟩
      exact (stable_claim w w' hi hi' ho ⟨hown, hc h⟩).2
    · cases won with
      | true =>
        refine Contract.Safe.bind ((safe_persistMessage mediaIds buildMessage).weaken
          fun w _ hw => ⟨⟨hw.1.2, hw.2 rfl⟩, fun j hj => absurd hj (hw.1.1 j)⟩) fun r => ?_
        by_cases hr : r.id = m
        · refine Contract.Safe.bind (Q := fun _ => Announced t m)
            ((safe_publishMessageCreated hr).mono (fun w _ hw => hw.2) (fun _ _ _ hw => hw)
              fun _ _ _ _ => trivial) fun _ w _ hw => ?_
          subst hr
          exact ⟨hw.1, ⟨⟨t, rfl, hw.2.1⟩, hw.2.2⟩, fun _ => hw.2.1⟩
        · -- the row persisted is the one whose id was claimed
          refine Contract.Safe.weaken (A := fun _ => False) ?_ fun w _ hw => hr hw.1
          exact Contract.safe_false _
      | false =>
        have hA : Frame hash call k₀ t fun w => Idle t w ∧ Own t m w := frame_idle.and frame_own
        refine Contract.Safe.bind (((safe_resolveExistingClaim hA fun _ hw => hw.1).mono
          (fun w _ hw => hw.1) (fun _ _ _ hw => hw) fun _ _ _ _ => trivial)) fun resolved => ?_
        match resolved with
        | some r => exact fun w _ hw => ⟨hw.1.1, hw.2 r rfl, nofun⟩
        | none => exact ih.weaken fun w _ hw => hw.1

theorem safe_claimAndPersistMessage (mediaIds : List AttachmentId)
    (buildMessage : Time → Message) :
    (contract hash call k₀).Safe t
      (claimAndPersistMessage (call t).senderId (call t).idempotencyKey mediaIds buildMessage)
      (Idle t) (fun r w => Idle t w ∧ Sent call t r w) fun _ _ => True :=
  Contract.Safe.await (fun m w => Idle t w ∧ Own t m w) (fun _ => stable_idle.and stable_own)
    (fun _ => .const True) generate_step fun _ => safe_claimRounds mediaIds buildMessage _

/-- The common shape of both sends: resolve, check, claim. -/
theorem safe_resolveThen {p : Py SendMessageResult}
    (hp : (contract hash call k₀).Safe t p (Idle t) (fun r w => Idle t w ∧ Sent call t r w)
      fun _ _ => True) :
    (contract hash call k₀).Safe t
      ((resolveExistingClaim (call t).senderId (call t).idempotencyKey).bind fun
        | some m => .ret ⟨m, false⟩
        | none => p)
      (Idle t) (fun r w => Idle t w ∧ Sent call t r w) fun _ _ => True := by
  refine Contract.Safe.bind ((safe_resolveExistingClaim frame_idle fun _ hw => hw).mono
    (fun _ _ hw => hw) (fun _ _ _ hw => hw) fun _ _ _ _ => trivial) fun resolved => ?_
  match resolved with
  | some r => exact fun w _ hw => ⟨hw.1, hw.2 r rfl, nofun⟩
  | none => exact hp.weaken fun w _ hw => hw.1

theorem safe_quietThen {α β : Type} {p : Py α} {f : α → Py β} {Q : β → BackendWorld T → Prop}
    (hp : p.Only Quiet)
    (hf : ∀ a, (contract hash call k₀).Safe t (f a) (Idle t) Q fun _ _ => True) :
    (contract hash call k₀).Safe t (p.bind f) (Idle t) Q fun _ _ => True :=
  Contract.Safe.bind ((frame_idle.only hp).mono (fun _ _ hw => hw) (fun _ _ _ hw => hw)
    fun _ _ _ _ => trivial) hf

theorem safe_send :
    (contract hash call k₀).Safe t (call t).send (Idle t) (fun r w => Idle t w ∧ Sent call t r w)
      fun _ _ => True := by
  unfold SendCall.send
  split
  · refine safe_resolveThen ?_
    refine safe_quietThen (only_ensureChannelAndMembership (fun _ _ => trivial) ..) fun _ => ?_
    show (contract hash call k₀).Safe t (if _ then _ else _) _ _ _
    split
    · exact fun _ _ _ => trivial
    · exact safe_quietThen (only_validateAndLoadMedia (fun _ _ => trivial) ..) fun _ => safe_claimAndPersistMessage ..
  · refine safe_resolveThen ?_
    refine safe_quietThen (only_rejectSelfDm ..) fun _ => ?_
    refine safe_quietThen (only_ensureActiveRecipientExists (fun _ _ => trivial) ..) fun _ => ?_
    show (contract hash call k₀).Safe t (if _ then _ else _) _ _ _
    split
    · exact fun _ _ _ => trivial
    · exact safe_quietThen (only_validateAndLoadMedia (fun _ _ => trivial) ..) fun _ => safe_claimAndPersistMessage ..

/-- A send as a request makes it, its session closed afterwards. -/
def SendCall.request (call : SendCall) : Py (Except Exc SendMessageResult) := Py.outcome call.send

theorem safe_request :
    (contract hash call k₀).Safe t (call t).request (Idle t)
      (fun r w => ∀ m, r = .ok m → Sent call t m w) fun _ _ => True := by
  refine Py.safe_outcome safe_send fun r => ?_
  cases r with
  | ok m =>
    have hA : Frame hash call k₀ t fun w => Idle t w ∧ Sent call t m w := frame_idle.and frame_sent
    have hclose : (Py.closeSession (.ok m)).Only QuietIdle :=
      Py.only_closeSession (fun _ _ => .inr (.inl rfl)) (.inr (.inr rfl))
    refine (Contract.Safe.only hclose hA.stable fun o ho =>
      hA.stepIdle (fun _ hw => hw.1) ho).mono (fun _ _ hw => hw) ?_ ?_
    all_goals
      rintro _ w _ hw m' hm'
      cases hm'
      exact hw.2
  | error e =>
    have hclose : (Py.closeSession (.error e : Except Exc SendMessageResult)).Only
        (· = .sql .rollback) := Py.only_closeSession nofun rfl
    refine (Contract.Safe.only (A := fun _ => True) hclose (.const True) ?_).mono
      (fun _ _ _ => trivial) (fun _ _ _ _ _ h => nomatch h) fun _ _ _ _ _ h => nomatch h
    rintro _ rfl w c r s hi hw hp h
    obtain ⟨hi', hg, -⟩ := rollback_step (fun _ => True) (fun _ _ _ _ => trivial)
      w c r s hi hw hp h
    exact ⟨hi', hg, trivial⟩

/-! ### The result -/

abbrev SendPool (T : Type) : Type :=
  Pool T Op Op.Res Exc (Except Exc SendMessageResult) (State T)

/-- Before the first send: no claim, no transaction, nothing published, and every row's id known
to the source of ids. -/
structure Start (call : T → SendCall) (p : SendPool T) : Prop where
  prog : ∀ t, p.prog t = (call t).request
  trace : p.world.trace = []
  hold : ∀ id, (p.world.state.db .messages).hold id = none
  known : ∀ id, row p.world id ≠ none → id ∈ p.world.state.ids
  claims : ∀ s k, p.world.state.redis (.idempotency s k) = none
  published : p.world.state.published = []

theorem Start.sound {p : SendPool T} (h : Start call p) :
    (contract hash call k₀).Sound
      (fun t r w => ∀ m, r = .ok m → Sent call t m w) (fun _ _ _ => True) p where
  inv := by
    have hnone : ∀ t id, ¬ Generated p.world t id := by
      intro t id hg
      unfold Generated at hg
      rw [h.trace] at hg
      cases hg
    exact {
      fresh := fun t id hg => absurd hg (hnone t id)
      unique := fun t _ id hg _ => absurd hg (hnone t id)
      known := h.known
      inserts := fun id x hx => by
        rw [h.hold] at hx
        cases hx
      claims := fun s k e he => by
        rw [h.claims] at he
        cases he
      claimed := fun t id _ hg _ => absurd hg (hnone t id)
      announced := fun e he => by
        rw [h.published] at he
        cases he
      once := fun i j e e' id hi _ _ _ => by
        rw [h.published] at hi
        cases hi }
  safe t := by
    refine ⟨Idle t, stable_idle, fun id => ?_, ?_⟩
    · rintro ⟨p', hp'⟩
      rw [h.hold] at hp'
      cases hp'
    · rw [h.prog]
      exact safe_request

theorem eventsOk : (contract hash call k₀).EventsOk := by
  rintro ⟨n⟩ w s hi - he
  cases he
  exact ⟨hi.fresh, hi.unique, hi.known, hi.inserts, hi.claims, hi.claimed, hi.announced, hi.once⟩

/-- What idempotency of the sends under the claim key `k₀` asks of a pool. -/
structure Idempotent (call : T → SendCall) (k₀ : RedisKey) (p : SendPool T) : Prop where
  /-- At most one row is committed. -/
  row : ∀ id id', RowFor call k₀ id p.world → RowFor call k₀ id' p.world → id = id'
  /-- Every send that returned has returned that row. -/
  returned : ∀ t r, (call t).claimKey = k₀ → p.prog t = .ret (.ok r) →
    RowFor call k₀ r.id p.world
  /-- At most one of them reports that it created it. -/
  created : ∀ t t' r r', (call t).claimKey = k₀ → (call t').claimKey = k₀ →
    p.prog t = .ret (.ok r) → p.prog t' = .ret (.ok r') → r.created = true → r'.created = true →
    t = t'
  /-- It is announced at most once. -/
  published : ∀ (i j : ℕ) e e' id id', p.world.state.published[i]? = some e →
    p.world.state.published[j]? = some e' → createdId e.2 = some id → createdId e'.2 = some id' →
    Known call k₀ id p.world → Known call k₀ id' p.world → i = j
  /-- What is announced is committed already: publishing changes no row. -/
  announced : ∀ e ∈ p.world.state.published, ∀ id, createdId e.2 = some id →
    IdempotentSend.row p.world id ≠ none

omit [DecidableEq T] in
theorem Inv.row_unique {w : BackendWorld T} (h : Inv call k₀ w) {id id' : MessageId}
    (hr : RowFor call k₀ id w) (hr' : RowFor call k₀ id' w) : id = id' := by
  obtain ⟨⟨t, hk, hg⟩, hr⟩ := hr
  obtain ⟨⟨t', hk', hg'⟩, hr'⟩ := hr'
  have h₁ := h.claimed t id hk hg hr
  rw [h.claimed t' id' hk' hg' hr'] at h₁
  cases h₁
  rfl

/-- **Idempotent sends.** For any number of sends, in any interleaving and with any failures, the
sends of one `(sender, key)` commit at most one row, all return it, one of them at most as its
creator, and announce it at most once and only after its commit — as long as none of them claims
the key after an earlier claim of it has outlived its TTL. -/
theorem send_once {p₀ p : SendPool T} {ls : List (Label T Choice Tick)} (h₀ : Start call p₀)
    (hstand : (machine T hash).Meets (claimStands k₀) p₀ ls)
    (hrun : (machine T hash).run p₀ ls = some p) : Idempotent call k₀ p := by
  have hs : (contract hash call k₀).Sound (fun t r w => ∀ m, r = .ok m → Sent call t m w)
      (fun _ _ _ => True) p :=
    h₀.sound.run eventsOk hstand hrun
  have hsent : ∀ t r, (call t).claimKey = k₀ → p.prog t = .ret (.ok r) →
      RowFor call k₀ r.id p.world ∧ (r.created = true → Generated p.world t r.id) := by
    rintro t r rfl hp
    exact hs.ret hp r rfl
  refine ⟨fun id id' => hs.inv.row_unique, fun t r hk hp => (hsent t r hk hp).1, ?_, ?_,
    hs.inv.announced⟩
  · intro t t' r r' hk hk' hp hp' hc hc'
    obtain ⟨hr, hg⟩ := hsent t r hk hp
    obtain ⟨hr', hg'⟩ := hsent t' r' hk' hp'
    refine hs.inv.unique t t' r.id (hg hc) ?_
    rw [hs.inv.row_unique hr hr']
    exact hg' hc'
  · intro i j e e' id id' hi hj he he' hk hk'
    have hr := hs.inv.announced e (List.mem_of_getElem? hi) id he
    have hr' := hs.inv.announced e' (List.mem_of_getElem? hj) id' he'
    obtain rfl := hs.inv.row_unique ⟨hk, hr⟩ ⟨hk', hr'⟩
    exact hs.inv.once i j e e' id hi hj he he'

/-! ### A replayed send, and a claim that has expired -/

/-- User 10, a member of channel 1, sends the same message twice with one key. -/
def twoCalls (_ : Bool) : SendCall := ⟨10, ['k'], .channel 1, ['h', 'i'], []⟩

/-- The two sends before they start. -/
def twoSends : SendPool Bool where
  world := ⟨State.ofRows fun
    | .channels => [(1, ⟨['c'], false, 10, 0⟩)]
    | .channelMembers => [((1, 10), ⟨.admin, 0⟩)]
    | _ => [], []⟩
  prog t := (twoCalls t).request

/-- An await of send `t`, answered without failure; `n` is the id where one is generated. -/
def await (t : Bool) (n : ℕ) : Label Bool Choice Tick := .proc t (.ok [] n)

/-- Send `t` from its first look at Redis to its closed session, its id being `n`. -/
def wholeSend (t : Bool) (n : ℕ) : List (Label Bool Choice Tick) :=
  List.replicate 10 (await t n)

theorem twoSends_start : Start twoCalls twoSends where
  prog _ := rfl
  trace := rfl
  hold _ := rfl
  known _ h := absurd rfl h
  claims _ _ := rfl
  published := rfl

/-- The key of both. -/
def twoCallsKey : RedisKey := .idempotency 10 ['k']

/-- The second send comes after the 24 hours of the first one's claim. -/
def sendAgainNextDay : List (Label Bool Choice Tick) :=
  wholeSend false 1 ++ .event (.tick idempotencyTtlSeconds) :: wholeSend true 2

/-- **A second row after the TTL.** Redis keeps the claim for exactly its TTL, and yet both sends
commit a row, report that they created it, and announce it. -/
theorem send_twice_after_expiry :
    Start twoCalls twoSends ∧ ∃ p, (machine Bool fun n => n).run twoSends sendAgainNextDay = some p ∧
      RowFor twoCalls twoCallsKey 1 p.world ∧ RowFor twoCalls twoCallsKey 2 p.world ∧
      ¬ Idempotent twoCalls twoCallsKey p := by
  have hrow : ∀ p, (machine Bool fun n => n).run twoSends sendAgainNextDay = some p →
      RowFor twoCalls twoCallsKey 1 p.world ∧ RowFor twoCalls twoCallsKey 2 p.world := by
    intro p hp
    cases hp
    exact ⟨⟨⟨false, rfl, List.mem_of_getElem? (i := 16) rfl⟩, by decide⟩,
      ⟨true, rfl, List.mem_of_getElem? (i := 6) rfl⟩, by decide⟩
  obtain ⟨p, hp⟩ := Option.isSome_iff_exists.mp
    (show ((machine Bool fun n => n).run twoSends sendAgainNextDay).isSome = true by decide)
  obtain ⟨h₁, h₂⟩ := hrow p hp
  exact ⟨twoSends_start, p, hp, h₁, h₂, fun h => absurd (h.row 1 2 h₁ h₂) (by decide)⟩

/-- Within the TTL the second send returns the first one's row. -/
theorem send_once_replayed :
    ∃ p, (machine Bool fun n => n).run twoSends (wholeSend false 1 ++ List.replicate 5 (await true 2))
        = some p ∧ Idempotent twoCalls twoCallsKey p := by
  obtain ⟨p, hp⟩ := Option.isSome_iff_exists.mp
    (show ((machine Bool fun n => n).run twoSends
      (wholeSend false 1 ++ List.replicate 5 (await true 2))).isSome = true by decide)
  exact ⟨p, hp, send_once twoSends_start (by decide) hp⟩

end Chatspace.IdempotentSend
