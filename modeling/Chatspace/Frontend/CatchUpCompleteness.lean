import Chatspace.Core.Uuid
import Chatspace.Frontend.CatchUp
import Chatspace.Frontend.ConversationSocket
import Chatspace.Reactive.Runs
import Chatspace.Services.PaginationWalk

/-!
# Is a catch-up complete?

The conversation hook against the history it reads: messages are persisted, edited and deleted at any
time, frames arrive or do not, connections open and close, and the catch-up that each of them starts
reads one page after the other and is applied, or fails.  The resume point is the largest id in the
map, whatever is missing below it.

* `CatchUp.next` — one turn of the loop of `fetchMissedMessages`; `walk_eq` — the loop is its turns;
* `CatchUp.Overlooks` — what a catch-up does not collect;
* `Reads` — what is known of a catch-up between two of its pages;
* `catch_up_completeness` — **every catch-up leaves nothing missing just if whatever it overlooks is
  in the map already;**
* `missed_for_good` — a live frame after a failed catch-up.
-/

namespace Chatspace.Frontend.CatchUpCompleteness

open Chatspace.PaginationWalk Paging Reactive

/-! ### The history endpoint -/

/-- A message id as JSON has it. -/
def idText (id : ℕ) : Text := Uuid.str (Fin.ofNat (2 ^ 128) id)

/-- What a message object has that is not in the message's row. -/
structure Rendering where
  isoformat : Time → Text
  media : Snapshot → MessageId → List MessageMedia

/-- `MessageObject.from_message`. -/
def fromMessage (r : Rendering) (db : Snapshot) (m : MessageId × Chatspace.Message) : Message where
  id := idText m.1
  channelId :=
    match m.2.target with
    | .channel channelId => some (idText channelId)
    | .dm _ => none
  recipientId :=
    match m.2.target with
    | .channel _ => none
    | .dm recipientId => some (idText recipientId)
  senderId := idText m.2.senderId
  content := m.2.content
  media := r.media db m.1
  createdAt := r.isoformat m.2.createdAt
  editedAt := m.2.editedAt.map r.isoformat
  deletedAt := m.2.deletedAt.map r.isoformat

/-- `fetchMessageHistory`, answered in snapshot `db`; a cursor that cannot be parsed is refused. -/
def fetchMessageHistory (r : Rendering) (p : Partition) (db : Snapshot) (limit : ℕ)
    (cursor : Option Text) : Option CursorPage :=
  match parseCursor cursor with
  | .error _ => none
  | .ok key =>
    let page := p.history limit db key
    some ⟨page.items.map (fromMessage r db), page.nextCursor⟩

/-! ### A catch-up, turn by turn -/

def defaultPageLimit : ℕ := 50

def defaultMaxPages : ℕ := 20

/-- `fetchMissedMessages` on its way. -/
structure CatchUp where
  sinceMessageId : Option Text
  /-- The pages read. -/
  page : ℕ
  cursor : Option Text
  collected : List Message
  /-- `truncated`, once the loop has ended. -/
  ended : Option Bool
  /-- The connection that started it is open still. -/
  current : Bool
  /-- The messages persisted when it read its first page. -/
  before : List MessageId

/-- `fetchMissedMessages(conversation, lastMessageIdRef.current)`. -/
def CatchUp.start (sinceMessageId : Option Text) : CatchUp :=
  ⟨sinceMessageId, 0, none, [], none, true, []⟩

/-- One turn of the loop. -/
def CatchUp.next (w : CatchUp) (result : CursorPage) : CatchUp :=
  let reachedKnown := result.items.any (isKnown w.sinceMessageId)
  { w with
    page := w.page + 1
    cursor := result.nextCursor
    collected := w.collected ++
      result.items.filter fun message => !isKnown w.sinceMessageId message
    ended :=
      if w.sinceMessageId = none ∨ reachedKnown ∨ result.nextCursor = none then some false
      else if w.page = defaultMaxPages - 1 then some true
      else none }

/-- The turns that are left. -/
def CatchUp.walk (fetch : Option Text → CursorPage) : ℕ → CatchUp → CatchUp
  | 0, w => w
  | n + 1, w =>
    match w.ended with
    | some _ => w
    | none => walk fetch n (w.next (fetch w.cursor))

theorem walk_of_ended {fetch : Option Text → CursorPage} {w : CatchUp} {n : ℕ} {truncated : Bool}
    (h : w.ended = some truncated) : w.walk fetch n = w := by
  cases n with
  | zero => rfl
  | succ n => simp only [CatchUp.walk, h]

/-- **Over pages that do not change, the turns are the walk.** -/
theorem walk_eq {fetch : Option Text → CursorPage} {n : ℕ} {w : CatchUp} (hw : w.ended = none)
    (hn : w.page + (n + 1) = defaultMaxPages) :
    (w.walk fetch (n + 1)).ended =
        some (walkPages fetch w.sinceMessageId (n + 1) w.cursor w.collected).truncated ∧
      (w.walk fetch (n + 1)).collected =
        (walkPages fetch w.sinceMessageId (n + 1) w.cursor w.collected).messages := by
  induction n generalizing w with
  | zero =>
    have hpage : w.page = defaultMaxPages - 1 := by omega
    simp only [CatchUp.walk, hw, CatchUp.next, walkPages, hpage, if_true]
    split <;> exact ⟨rfl, rfl⟩
  | succ n ih =>
    have hpage : w.page ≠ defaultMaxPages - 1 := by omega
    rw [CatchUp.walk, hw, walkPages]
    simp only [Nat.add_eq_zero_iff, one_ne_zero, and_false, if_false]
    split
    · rename_i hstop
      have hended : (w.next (fetch w.cursor)).ended = some false := by
        simp only [CatchUp.next, if_pos hstop]
      rw [walk_of_ended hended, hended]
      exact ⟨rfl, rfl⟩
    · rename_i hgo
      have hended : (w.next (fetch w.cursor)).ended = none := by
        simp only [CatchUp.next, if_neg hgo, if_neg hpage]
      refine ih hended ?_
      show w.page + 1 + (n + 1) = defaultMaxPages
      omega

/-- A catch-up from its start is `fetchMissedMessages`. -/
theorem walk_start (fetchMessageHistory : ℕ → Option Text → CursorPage)
    (sinceMessageId : Option Text) :
    ((CatchUp.start sinceMessageId).walk (fetchMessageHistory defaultPageLimit)
        defaultMaxPages).ended =
        some (fetchMissedMessages fetchMessageHistory sinceMessageId defaultPageLimit
          defaultMaxPages).truncated ∧
      ((CatchUp.start sinceMessageId).walk (fetchMessageHistory defaultPageLimit)
        defaultMaxPages).collected =
        (fetchMissedMessages fetchMessageHistory sinceMessageId defaultPageLimit
          defaultMaxPages).messages :=
  walk_eq (w := CatchUp.start sinceMessageId) rfl rfl

/-! ### The hook and its history -/

/-- What a commit does to the messages that are there: it edits them and soft-deletes them. -/
def Evolves (db db' : Snapshot) : Prop :=
  ∀ m ∈ db.rows .messages, ∃ m' ∈ db'.rows .messages, m'.1 = m.1 ∧
    m'.2.createdAt = m.2.createdAt ∧ m'.2.senderId = m.2.senderId ∧ m'.2.target = m.2.target ∧
    (m.2.deletedAt ≠ none → m'.2.deletedAt ≠ none)

instance (db db' : Snapshot) : Decidable (Evolves db db') := by
  unfold Evolves
  infer_instance

/-- The messages there are, deleted or not. -/
def persisted (db : Snapshot) : List MessageId := (db.rows .messages).map Prod.fst

structure State where
  db : Snapshot
  client : ConversationSocket.State
  online : Bool
  catchUps : List CatchUp
  /-- The messages persisted before the first load: the reads of the first catch-up to succeed. -/
  loaded : Option (List MessageId)
  /-- Those persisted before the reads of the catch-up that has succeeded on this connection without
  truncation. -/
  caughtUp : Option (List MessageId)

/-- The conversation is opened. -/
def initial (db : Snapshot) : State := ⟨db, ConversationSocket.opened, false, [], none, none⟩

inductive Event where
  | commit (db : Snapshot)
  | opened
  | closed
  | frame (frame : ServerFrame)
  | read (i : ℕ)
  | finish (i : ℕ)
  | fail (i : ℕ) (message : Text)

/-- One step; what cannot happen has none. -/
def step (r : Rendering) (p : Partition) (s : State) : Event → Option State
  | .commit db => if Evolves s.db db then some { s with db := db } else none
  | .opened =>
    if s.online then none
    else some { s with
      online := true
      catchUps := s.catchUps ++ [.start s.client.lastMessageId]
      caughtUp := none }
  | .closed =>
    if s.online then some { s with
      online := false
      catchUps := s.catchUps.map fun w => { w with current := false }
      caughtUp := none }
    else none
  | .frame frame =>
    if s.online then some { s with client := s.client.applyFrame frame } else none
  | .read i => do
    let w ← s.catchUps[i]?
    if w.ended = none then
      let result ← fetchMessageHistory r p s.db defaultPageLimit w.cursor
      let before := if w.page = 0 then persisted s.db else w.before
      some { s with catchUps := s.catchUps.set i { w.next result with before := before } }
    else none
  | .finish i => do
    let w ← s.catchUps[i]?
    let truncated ← w.ended
    some { s with
      client := s.client.caughtUp w.collected
      catchUps := s.catchUps.eraseIdx i
      loaded := s.loaded.or (some w.before)
      caughtUp := if w.current && !truncated then some w.before else s.caughtUp }
  | .fail i message => do
    let _ ← s.catchUps[i]?
    some { s with
      client := s.client.catchUpFailed message
      catchUps := s.catchUps.eraseIdx i }

/-! ### The claim and its condition -/

/-- The message is in the client's map. -/
def Shown (s : State) (m : MessageId × Chatspace.Message) : Prop :=
  s.client.messageMap.get (idText m.1) ≠ none

/-- The undeleted messages of the conversation that were persisted after the first load, and before
the reads that `before` is about. -/
def Missable (p : Partition) (s : State) (before : List MessageId)
    (m : MessageId × Chatspace.Message) : Prop :=
  m ∈ p.live s.db ∧ m.1 ∈ before ∧ ∀ loaded ∈ s.loaded, m.1 ∉ loaded

/-- After a catch-up that succeeded without truncation on this connection, nothing is missing. -/
def Complete (p : Partition) (s : State) : Prop :=
  ∀ before ∈ s.caughtUp, ∀ m, Missable p s before m → Shown s m

/-- The message is at or below the resume point, or comes after the last page that was read. -/
def CatchUp.Overlooks (w : CatchUp) (m : MessageId × Chatspace.Message) : Prop :=
  (∃ since ∈ w.sinceMessageId, idText m.1 ≤ since) ∨
    ∃ k ∈ w.cursor.bind (positionBy CursorKey.position), messageKey m < k

/-- What a catch-up of this connection that is applied without truncation overlooks is there. -/
def NothingOverlooked (p : Partition) (s : State) : Event → Prop
  | .finish i => ∀ w ∈ s.catchUps[i]?, w.current = true → w.ended = some false → s.loaded ≠ none →
      ∀ m, Missable p s w.before m → w.Overlooks m → Shown s m
  | _ => True

/-! ### Messages while the history evolves -/

variable {r : Rendering} {p : Partition} {db db' : Snapshot} {m m' : MessageId × Chatspace.Message}
  {w : CatchUp} {s s' : State}

theorem idText_inj (hm : m ∈ db.rows .messages) (hm' : m' ∈ db.rows .messages)
    (h : idText m.1 = idText m'.1) : m = m' := by
  have hlt : m.1 < 2 ^ 128 := (db.typedMessages m hm).2.2
  have hlt' : m'.1 < 2 ^ 128 := (db.typedMessages m' hm').2.2
  have hval := congrArg Fin.val (Uuid.str_injective h)
  rw [Fin.val_ofNat, Fin.val_ofNat, Nat.mod_eq_of_lt hlt, Nat.mod_eq_of_lt hlt'] at hval
  exact List.inj_on_of_nodup_map (db.nodup .messages) hm hm' hval

theorem mem_persisted {n : MessageId} :
    n ∈ persisted db ↔ ∃ m ∈ db.rows .messages, m.1 = n := List.mem_map

theorem Evolves.persisted (h : Evolves db db') {n : MessageId} (hn : n ∈ persisted db) :
    n ∈ persisted db' := by
  obtain ⟨m, hm, rfl⟩ := mem_persisted.mp hn
  obtain ⟨m', hm', hid, -⟩ := h m hm
  exact mem_persisted.mpr ⟨m', hm', hid⟩

theorem has_congr {m m' : Chatspace.Message} (hsender : m'.senderId = m.senderId)
    (htarget : m'.target = m.target) : p.Has m' ↔ p.Has m := by
  cases p with
  | channel c =>
    show m'.target = _ ↔ m.target = _
    rw [htarget]
  | dm a b =>
    show m'.senderId = a ∧ m'.target = _ ∨ m'.senderId = b ∧ m'.target = _ ↔
      m.senderId = a ∧ m.target = _ ∨ m.senderId = b ∧ m.target = _
    rw [hsender, htarget]

/-- A message that was there and is undeleted was undeleted then. -/
theorem Evolves.live (h : Evolves db db') (hn : m.1 ∈ CatchUpCompleteness.persisted db)
    (hm : m ∈ p.live db') :
    ∃ m₀ ∈ p.live db, m₀.1 = m.1 ∧ messageKey m₀ = messageKey m := by
  obtain ⟨m₀, hm₀, hid⟩ := mem_persisted.mp hn
  obtain ⟨m', hm', hid', hcreated, hsender, htarget, hdeleted⟩ := h m₀ hm₀
  obtain ⟨hmem, hlive⟩ := List.mem_filter.mp hm
  obtain rfl : m' = m := List.inj_on_of_nodup_map (db'.nodup .messages) hm' hmem (hid'.trans hid)
  rw [decide_eq_true_eq] at hlive
  refine ⟨m₀, List.mem_filter.mpr ⟨hm₀, ?_⟩, hid, ?_⟩
  · rw [decide_eq_true_eq]
    refine ⟨(has_congr hsender htarget).mp hlive.1, ?_⟩
    by_contra hne
    exact hdeleted hne hlive.2
  · unfold messageKey messageCursor
    rw [hid, hcreated]

/-! ### Between two pages -/

/-- What is known of a catch-up. -/
structure Reads (p : Partition) (db : Snapshot) (w : CatchUp) : Prop where
  unread : w.page = 0 → w.cursor = none ∧ w.collected = [] ∧ w.ended = none
  going : w.ended = none → w.cursor = none → w.page = 0
  known : ∀ n ∈ w.before, n ∈ persisted db
  held : ∀ c ∈ w.cursor, ∃ k, positionBy CursorKey.position c = some k
  collected : ∀ x ∈ w.collected, isKnown w.sinceMessageId x = false ∧
    ∃ m ∈ db.rows .messages, x.id = idText m.1 ∧
      ∀ k ∈ w.cursor.bind (positionBy CursorKey.position), k ≤ messageKey m
  covered : w.page ≠ 0 → ∀ m ∈ p.live db, m.1 ∈ w.before →
    w.Overlooks m ∨ ∃ x ∈ w.collected, x.id = idText m.1

theorem reads_start (since : Option Text) : Reads p db (.start since) where
  unread _ := ⟨rfl, rfl, rfl⟩
  going _ _ := rfl
  known := nofun
  held := nofun
  collected := nofun
  covered h := absurd rfl h

theorem isKnown_iff {since : Option Text} {x : Message} :
    isKnown since x = true ↔ ∃ since' ∈ since, x.id ≤ since' := by
  cases since <;> simp [isKnown]

/-- The endpoint answers with a page of the conversation. -/
theorem isPage_of_fetch {limit : ℕ} {cursor : Option Text} {result : CursorPage}
    (hlimit : 1 ≤ limit) (hheld : ∀ c ∈ cursor, ∃ k, positionBy CursorKey.position c = some k)
    (h : fetchMessageHistory r p db limit cursor = some result) :
    ∃ items, result.items = items.map (fromMessage r db) ∧
      IsPage messageKey (p.live db) (cursor.bind (positionBy CursorKey.position)) items
        (result.nextCursor.bind (positionBy CursorKey.position)) ∧
      ∀ c ∈ result.nextCursor, ∃ k, positionBy CursorKey.position c = some k := by
  unfold fetchMessageHistory at h
  cases hkey : parseCursor cursor with
  | error e =>
    rw [hkey] at h
    cases h
  | ok key =>
    rw [hkey] at h
    cases h
    refine ⟨(p.history limit db key).items, rfl, ?_⟩
    refine (serves_history p hlimit).page db cursor _ _ hheld ?_
    simp only [fetch, hkey, Except.map]

/-- What is overlooked depends on the id and the place of the message only. -/
theorem Overlooks.congr (hid : m'.1 = m.1) (hkey : messageKey m' = messageKey m)
    (h : w.Overlooks m) : w.Overlooks m' := by
  unfold CatchUp.Overlooks at h ⊢
  rwa [hid, hkey]

/-- The history evolves between two pages. -/
theorem Reads.commit (h : Reads p db w) (hdb : Evolves db db') : Reads p db' w where
  unread := h.unread
  going := h.going
  known n hn := hdb.persisted (h.known n hn)
  held := h.held
  collected x hx := by
    obtain ⟨hnew, m, hm, hid, hkey⟩ := h.collected x hx
    obtain ⟨m', hm', hid', hcreated, -⟩ := hdb m hm
    have hsame : messageKey m' = messageKey m := by
      unfold messageKey messageCursor
      rw [hid', hcreated]
    refine ⟨hnew, m', hm', by rw [hid', hid], fun k hk => ?_⟩
    rw [hsame]
    exact hkey k hk
  covered hpage m hm hn := by
    obtain ⟨m₀, hm₀, hid, hkey⟩ := hdb.live (h.known m.1 hn) hm
    obtain hover | ⟨x, hx, hxid⟩ := h.covered hpage m₀ hm₀ (hid ▸ hn)
    · exact .inl (Overlooks.congr hid.symm hkey.symm hover)
    · exact .inr ⟨x, hx, by rw [hxid, hid]⟩

/-- **One page more.** -/
theorem Reads.next {limit : ℕ} {result : CursorPage} (hlimit : 1 ≤ limit) (h : Reads p db w)
    (hgoing : w.ended = none) (hfetch : fetchMessageHistory r p db limit w.cursor = some result) :
    Reads p db { w.next result with
      before := if w.page = 0 then persisted db else w.before } := by
  obtain ⟨items, hitems, hpage, hheld⟩ := isPage_of_fetch hlimit h.held hfetch
  -- a row of the page, as the client compares it
  have hknown : ∀ m : MessageId × Chatspace.Message,
      isKnown w.sinceMessageId (fromMessage r db m) = true ↔
        ∃ since ∈ w.sinceMessageId, idText m.1 ≤ since := fun m => isKnown_iff
  constructor
  · intro h0
    cases h0
  · intro hended hcursor
    simp only [CatchUp.next] at hended hcursor
    rw [if_pos (.inr (.inr hcursor))] at hended
    cases hended
  · intro n hn
    simp only at hn
    split at hn
    · exact hn
    · exact h.known n hn
  · exact hheld
  · intro x hx
    simp only [CatchUp.next] at hx ⊢
    obtain hx | hx := List.mem_append.mp hx
    · obtain ⟨hnew, m, hm, hid, hkey⟩ := h.collected x hx
      refine ⟨hnew, m, hm, hid, fun k hk => ?_⟩
      -- the last row of the page is below the cursor before it
      obtain ⟨⟨z, hz, hzk⟩, -⟩ := hpage.cursor k hk
      cases hcursor : w.cursor with
      | none =>
        have hcollected := (h.unread (h.going hgoing hcursor)).2.1
        rw [hcollected] at hx
        cases hx
      | some c =>
        obtain ⟨k₀, hk₀⟩ := h.held c hcursor
        have hpos : w.cursor.bind (positionBy CursorKey.position) = some k₀ := by
          rw [hcursor, Option.bind_some, hk₀]
        have hbelow := (hpage.mem z hz).2 k₀ hpos
        rw [← hzk]
        exact le_of_lt (lt_of_lt_of_le hbelow (hkey k₀ hpos))
    · obtain ⟨hx, hnew⟩ := List.mem_filter.mp hx
      rw [hitems] at hx
      obtain ⟨m, hm, rfl⟩ := List.mem_map.mp hx
      refine ⟨by simpa using hnew, m, (List.mem_filter.mp (hpage.mem m hm).1).1, rfl,
        fun k hk => ?_⟩
      exact (hpage.cursor k hk).2 m hm
  · intro _ m hm hn
    simp only [CatchUp.next] at hn ⊢
    -- below the cursor before the page: on the page, or below the next cursor
    have hlisted : Below messageKey (w.cursor.bind (positionBy CursorKey.position)) m →
        (w.next result).Overlooks m ∨ ∃ x ∈ w.collected ++
          result.items.filter (fun message => !isKnown w.sinceMessageId message),
            x.id = idText m.1 := by
      intro hbelow
      have hmem : m ∈ items ∨ ∃ k ∈ result.nextCursor.bind (positionBy CursorKey.position),
          messageKey m < k := by
        cases hnext : result.nextCursor.bind (positionBy CursorKey.position) with
        | none => exact .inl (hpage.last hnext m hm hbelow)
        | some k => exact (hpage.more k hnext m hm hbelow).imp_right fun hlt => ⟨k, rfl, hlt⟩
      obtain hmem | hover := hmem
      · by_cases hm' : isKnown w.sinceMessageId (fromMessage r db m) = true
        · exact .inl (.inl ((hknown m).mp hm'))
        · refine .inr ⟨fromMessage r db m, List.mem_append_right _ (List.mem_filter.mpr ⟨?_, ?_⟩),
            rfl⟩
          · rw [hitems]
            exact List.mem_map_of_mem hmem
          · simpa using hm'
      · exact .inl (.inr hover)
    by_cases h0 : w.page = 0
    · refine hlisted ?_
      rw [(h.unread h0).1]
      exact below_none m
    · rw [if_neg h0] at hn
      obtain (hover | ⟨k, hk, hlt⟩) | ⟨x, hx, hid⟩ := h.covered h0 m hm hn
      · exact .inl (.inl hover)
      · refine hlisted fun k' hk' => ?_
        obtain rfl : k = k' := Option.some.inj (hk.symm.trans hk')
        exact hlt
      · exact .inr ⟨x, List.mem_append_left _ hx, hid⟩

/-! ### The client's map -/

theorem get_applyFrame_ne_none {c : ConversationSocket.State} {frame : ServerFrame} {id : Text}
    (h : c.messageMap.get id ≠ none) : (c.applyFrame frame).messageMap.get id ≠ none := by
  cases frame with
  | messageCreated data => exact get_upsert_ne_none.mpr (.inr h)
  | messageEdited data => exact get_upsert_ne_none.mpr (.inr h)
  | messageDeleted data => exact get_applyDeleted_ne_none.mpr (.inr h)
  | other => exact h

theorem get_caughtUp_ne_none {c : ConversationSocket.State} {missed : List Message} {id : Text} :
    (c.caughtUp missed).messageMap.get id ≠ none ↔
      (∃ m ∈ missed, m.id = id) ∨ c.messageMap.get id ≠ none := by
  unfold ConversationSocket.State.caughtUp
  split
  · rename_i h
    simp [h]
  · exact get_upsert_ne_none

/-! ### The invariant -/

structure Inv (p : Partition) (s : State) : Prop where
  reads : ∀ w ∈ s.catchUps, Reads p s.db w
  caughtUp : ∀ before ∈ s.caughtUp, ∀ n ∈ before, n ∈ persisted s.db
  complete : Complete p s

theorem inv_initial (db : Snapshot) : Inv p (initial db) where
  reads := nofun
  caughtUp := nofun
  complete := nofun

/-- More is shown, and nothing else has changed for those that have caught up. -/
theorem Complete.mono (h : Complete p s) (hdb : s'.db = s.db) (hcaught : s'.caughtUp = s.caughtUp)
    (hloaded : ∀ loaded ∈ s.loaded, s'.loaded = some loaded)
    (hshown : ∀ m, Shown s m → Shown s' m) : Complete p s' := by
  intro before hbefore m hm
  rw [hcaught] at hbefore
  obtain ⟨hlive, hmem, hnew⟩ := hm
  rw [hdb] at hlive
  refine hshown m (h before hbefore m ⟨hlive, hmem, fun loaded hl => ?_⟩)
  exact hnew loaded (hloaded loaded hl)

/-- A commit adds nothing to what those that have caught up are about. -/
theorem Inv.commit (h : Inv p s) (hdb : Evolves s.db db) : Inv p { s with db := db } where
  reads w hw := (h.reads w hw).commit hdb
  caughtUp before hbefore n hn := hdb.persisted (h.caughtUp before hbefore n hn)
  complete := by
    intro before hbefore m hm
    obtain ⟨hlive, hmem, hnew⟩ := hm
    obtain ⟨m₀, hlive₀, hid, -⟩ := hdb.live (h.caughtUp before hbefore m.1 hmem) hlive
    have hshown := h.complete before hbefore m₀ ⟨hlive₀, hid ▸ hmem, fun l hl => hid ▸ hnew l hl⟩
    unfold Shown at hshown ⊢
    rwa [hid] at hshown

/-- **What a catch-up that has ended leaves missing is what it overlooks.** -/
theorem complete_iff_overlooked (hw : Reads p s.db w) (hpage : w.page ≠ 0)
    (hclient : s'.client = s.client.caughtUp w.collected) (hdb : s'.db = s.db)
    (hloaded : s'.loaded = s.loaded) :
    (∀ m, Missable p s' w.before m → Shown s' m) ↔
      ∀ m, Missable p s w.before m → w.Overlooks m → Shown s m := by
  have hmissable : ∀ m, Missable p s' w.before m ↔ Missable p s w.before m := by
    intro m
    unfold Missable
    rw [hdb, hloaded]
  have hshown : ∀ m, Shown s' m ↔ (∃ x ∈ w.collected, x.id = idText m.1) ∨ Shown s m := by
    intro m
    unfold Shown
    rw [hclient, get_caughtUp_ne_none]
  constructor
  · intro h m hm hover
    refine ((hshown m).mp (h m ((hmissable m).mpr hm))).resolve_left ?_
    intro ⟨x, hx, hid⟩
    -- what is collected is neither known nor after the last page
    obtain ⟨hnew, m', hm', hid', hkey⟩ := hw.collected x hx
    obtain rfl : m' = m := idText_inj hm' (List.mem_filter.mp hm.1).1 (hid'.symm.trans hid)
    obtain hknown | ⟨k, hk, hlt⟩ := hover
    · rw [Bool.eq_false_iff] at hnew
      refine hnew (isKnown_iff.mpr ?_)
      rwa [hid]
    · exact absurd hlt (not_lt.mpr (hkey k hk))
  · intro h m hm
    have hm' := (hmissable m).mp hm
    rw [hshown m]
    obtain hover | hcollected := hw.covered hpage m hm'.1 hm'.2.1
    · exact .inr (h m hm' hover)
    · exact .inl hcollected

/-- What a step needs to know of the catch-ups that it leaves, and of those that have caught up. -/
theorem Inv.keep (h : Inv p s) (hdb : s'.db = s.db)
    (hcatchUps : ∀ w ∈ s'.catchUps, Reads p s.db w) (hcaught : s'.caughtUp = s.caughtUp)
    (hloaded : ∀ loaded ∈ s.loaded, s'.loaded = some loaded)
    (hshown : ∀ m, Shown s m → Shown s' m) : Inv p s' where
  reads w hw := by
    rw [hdb]
    exact hcatchUps w hw
  caughtUp before hbefore := by
    rw [hcaught] at hbefore
    rw [hdb]
    exact h.caughtUp before hbefore
  complete := h.complete.mono hdb hcaught hloaded hshown

/-- Nobody has caught up on this connection. -/
theorem inv_fresh (hdb : s'.db = s.db)
    (hcatchUps : ∀ w ∈ s'.catchUps, Reads p s.db w) (hcaught : s'.caughtUp = none) : Inv p s' where
  reads w hw := by
    rw [hdb]
    exact hcatchUps w hw
  caughtUp before hbefore := by
    rw [hcaught] at hbefore
    cases hbefore
  complete before hbefore := by
    rw [hcaught] at hbefore
    cases hbefore

theorem Reads.closed (h : Reads p db w) : Reads p db { w with current := false } :=
  ⟨h.unread, h.going, h.known, h.held, h.collected, h.covered⟩

/-- Where a catch-up of this connection is applied without truncation, nothing is missing just if
nothing that it overlooks is. -/
theorem finish_iff {i : ℕ} (hreads : Reads p s.db w) (hw : s.catchUps[i]? = some w)
    (hcurrent : w.current = true) (hended : w.ended = some false)
    (hclient : s'.client = s.client.caughtUp w.collected) (hdb : s'.db = s.db)
    (hloaded : s'.loaded = s.loaded.or (some w.before)) (hcaught : s'.caughtUp = some w.before) :
    NothingOverlooked p s (.finish i) ↔ Complete p s' := by
  have hpage : w.page ≠ 0 := fun h0 => nomatch (hreads.unread h0).2.2.symm.trans hended
  have hcomplete : Complete p s' ↔ ∀ m, Missable p s' w.before m → Shown s' m := by
    unfold Complete
    rw [hcaught]
    simp only [Option.mem_some_iff, forall_eq']
  have hnothing : NothingOverlooked p s (.finish i) ↔ (s.loaded ≠ none →
      ∀ m, Missable p s w.before m → w.Overlooks m → Shown s m) := by
    show (∀ w' ∈ s.catchUps[i]?, w'.current = true → w'.ended = some false → s.loaded ≠ none →
      ∀ m, Missable p s w'.before m → w'.Overlooks m → Shown s m) ↔ _
    rw [hw]
    simp only [Option.mem_some_iff, forall_eq', hcurrent, hended, forall_const]
  rw [hcomplete, hnothing]
  cases hl : s.loaded with
  | none =>
    -- this is the first load
    refine iff_of_true (fun hne => absurd rfl hne) fun m hm => ?_
    rw [hl, Option.none_or] at hloaded
    exact absurd hm.2.1 (hm.2.2 w.before hloaded)
  | some loaded =>
    rw [hl, Option.some_or] at hloaded
    rw [complete_iff_overlooked hreads hpage hclient hdb (hloaded.trans hl.symm)]
    simp

/-- **One step.** -/
theorem step_iff (h : Inv p s) {e : Event} (hs : step r p s e = some s') :
    (NothingOverlooked p s e ↔ Complete p s') ∧ (NothingOverlooked p s e → Inv p s') := by
  cases e with
  | commit db =>
    simp only [step] at hs
    split at hs
    · rename_i hdb
      cases hs
      have hinv := h.commit hdb
      exact ⟨iff_of_true trivial hinv.complete, fun _ => hinv⟩
    · cases hs
  | opened =>
    simp only [step] at hs
    split at hs
    · cases hs
    · cases hs
      have hinv : Inv p { s with
          online := true
          catchUps := s.catchUps ++ [.start s.client.lastMessageId]
          caughtUp := none } := by
        refine inv_fresh (s := s) rfl (fun w hw => ?_) rfl
        obtain hw | hw := List.mem_append.mp hw
        · exact h.reads w hw
        · rw [List.mem_singleton.mp hw]
          exact reads_start _
      exact ⟨iff_of_true trivial hinv.complete, fun _ => hinv⟩
  | closed =>
    simp only [step] at hs
    split at hs
    · cases hs
      have hinv : Inv p { s with
          online := false
          catchUps := s.catchUps.map fun w => { w with current := false }
          caughtUp := none } := by
        refine inv_fresh (s := s) rfl (fun w hw => ?_) rfl
        obtain ⟨w₀, hw₀, rfl⟩ := List.mem_map.mp hw
        exact (h.reads w₀ hw₀).closed
      exact ⟨iff_of_true trivial hinv.complete, fun _ => hinv⟩
    · cases hs
  | frame frame =>
    simp only [step] at hs
    split at hs
    · cases hs
      have hinv : Inv p { s with client := s.client.applyFrame frame } :=
        h.keep rfl h.reads rfl (fun _ hl => hl) fun m hm => get_applyFrame_ne_none hm
      exact ⟨iff_of_true trivial hinv.complete, fun _ => hinv⟩
    · cases hs
  | read i =>
    obtain ⟨w, hw, hs⟩ := Option.bind_eq_some_iff.mp hs
    split at hs
    · rename_i hgoing
      obtain ⟨result, hfetch, hs⟩ := Option.bind_eq_some_iff.mp hs
      cases hs
      have hreads := (h.reads w (List.mem_of_getElem? hw)).next (by decide) hgoing hfetch
      have hinv : Inv p { s with catchUps := s.catchUps.set i { w.next result with
          before := if w.page = 0 then persisted s.db else w.before } } := by
        refine h.keep rfl (fun w' hw' => ?_) rfl (fun _ hl => hl) fun _ hm => hm
        obtain hw' | rfl := List.mem_or_eq_of_mem_set hw'
        · exact h.reads w' hw'
        · exact hreads
      exact ⟨iff_of_true trivial hinv.complete, fun _ => hinv⟩
    · cases hs
  | finish i =>
    obtain ⟨w, hw, hs⟩ := Option.bind_eq_some_iff.mp hs
    obtain ⟨truncated, hended, hs⟩ := Option.bind_eq_some_iff.mp hs
    cases hs
    have hreads := h.reads w (List.mem_of_getElem? hw)
    have hleft : ∀ w' ∈ s.catchUps.eraseIdx i, Reads p s.db w' := fun w' hw' =>
      h.reads w' (List.mem_of_mem_eraseIdx hw')
    have hshown : ∀ m, Shown s m → (s.client.caughtUp w.collected).messageMap.get (idText m.1) ≠
        none := fun m hm => get_caughtUp_ne_none.mpr (.inr hm)
    have hloaded : ∀ loaded ∈ s.loaded, s.loaded.or (some w.before) = some loaded := by
      intro loaded hl
      rw [hl, Option.some_or]
    by_cases hcurrent : w.current = true ∧ truncated = false
    · obtain ⟨hcurrent, rfl⟩ := hcurrent
      have hcaught : (if w.current && !false then some w.before else s.caughtUp) =
          some w.before := if_pos (by simpa using hcurrent)
      have hiff : NothingOverlooked p s (.finish i) ↔ Complete p { s with
          client := s.client.caughtUp w.collected
          catchUps := s.catchUps.eraseIdx i
          loaded := s.loaded.or (some w.before)
          caughtUp := if w.current && !false then some w.before else s.caughtUp } :=
        finish_iff hreads hw hcurrent hended rfl rfl rfl hcaught
      refine ⟨hiff, fun hC => ⟨hleft, fun before hbefore => ?_, hiff.mp hC⟩⟩
      rw [hcaught] at hbefore
      cases hbefore
      exact hreads.known
    · have hcaught : (if w.current && !truncated then some w.before else s.caughtUp) =
          s.caughtUp := if_neg (by simpa using hcurrent)
      have hinv : Inv p { s with
          client := s.client.caughtUp w.collected
          catchUps := s.catchUps.eraseIdx i
          loaded := s.loaded.or (some w.before)
          caughtUp := if w.current && !truncated then some w.before else s.caughtUp } :=
        h.keep rfl hleft hcaught hloaded hshown
      refine ⟨iff_of_true (fun w' hw' hc he => ?_) hinv.complete, fun _ => hinv⟩
      obtain rfl : w = w' := Option.some.inj (hw.symm.trans hw')
      exact absurd ⟨hc, Option.some.inj (hended.symm.trans he)⟩ hcurrent
  | fail i message =>
    obtain ⟨w, hw, hs⟩ := Option.bind_eq_some_iff.mp hs
    cases hs
    have hinv : Inv p { s with
        client := s.client.catchUpFailed message
        catchUps := s.catchUps.eraseIdx i } :=
      h.keep rfl (fun w' hw' => h.reads w' (List.mem_of_mem_eraseIdx hw')) rfl (fun _ hl => hl)
        fun _ hm => hm
    exact ⟨iff_of_true trivial hinv.complete, fun _ => hinv⟩

/-- **A catch-up is complete, or overlooks something.** In every run of the hook, after every step the
catch-up that has succeeded without truncation on the connection has left nothing missing, just if
each such catch-up is applied when whatever is at or below its resume point, or comes after the last
page it has read, is in the map already. -/
theorem catch_up_completeness (r : Rendering) (p : Partition) (db : Snapshot) (es : List Event) :
    (∀ x ∈ transitions (step r p) (initial db) es, NothingOverlooked p x.1 x.2.1) ↔
      ∀ x ∈ transitions (step r p) (initial db) es, Complete p x.2.2 :=
  transitions_iff (I := Inv p) (Q := fun _ _ s' => Complete p s')
    (fun _ _ _ hi hs => (step_iff hi hs).1) (fun _ _ _ hi hC hs => (step_iff hi hs).2 hC)
    (inv_initial db) es

/-! ### A live frame after a failed catch-up -/

theorem wellTyped_small {n : ℕ} (hn : n < 1000) : (CursorKey.mk n n).WellTyped := by
  refine ⟨?_, ?_, ?_⟩
  · show -62135596800000000 ≤ (n : ℤ)
    omega
  · show (n : ℤ) ≤ 253402300799999999
    omega
  · show n < 2 ^ 128
    omega

/-- Channel `1` with these messages, sent at the time that is their id. -/
def channelWith (ids : List MessageId) (hnodup : ids.Nodup) (hsmall : ∀ n ∈ ids, n < 1000) :
    Snapshot where
  rows := channelRows (ids.map fun n => (n, n, none))
  nodup τ := by
    cases τ with
    | messages => simpa [channelRows, Function.comp_def] using hnodup
    | _ => exact .nil
  typedUsers := nofun
  typedChannels := nofun
  typedInvites := nofun
  typedMessages m hm := by
    obtain ⟨x, hx, rfl⟩ := List.mem_map.mp hm
    obtain ⟨n, hn, rfl⟩ := List.mem_map.mp hx
    exact wellTyped_small (hsmall n hn)

def first : Snapshot := channelWith [1] (by decide) (by decide)

def second : Snapshot := channelWith [1, 2] (by decide) (by decide)

def third : Snapshot := channelWith [1, 2, 3] (by decide) (by decide)

def plain : Rendering := ⟨fun _ => [], fun _ _ => []⟩

/-- The first load finds message 1. Message 2 is persisted while the client is offline, and the
catch-up of the next connection fails; message 3 comes as a frame. The connection after that catches
up from message 3. -/
def missedSecond : List Event :=
  [.opened, .read 0, .finish 0, .closed, .commit second, .opened, .fail 0 [], .commit third,
    .frame (.messageCreated (fromMessage plain third (sent 3 3))), .closed, .opened, .read 0,
    .finish 0]

/-- **Missed for good.** Every step of the run takes place, and message 2 is not in the map. -/
theorem missed_for_good :
    (transitions (step plain (.channel 1)) (initial first) missedSecond).length =
        missedSecond.length ∧
      ¬ Complete (.channel 1) (last (step plain (.channel 1)) (initial first) missedSecond) := by
  refine ⟨by decide +kernel, fun h => h [1, 2, 3] ?_ (sent 2 2) ⟨?_, ?_, ?_⟩ ?_⟩
  · decide
  · decide
  · decide
  · decide
  · decide

end Chatspace.Frontend.CatchUpCompleteness
