import Chatspace.Frontend.MyChannels
import Chatspace.Paging.Keyset
import Mathlib.Data.List.Sort

/-!
# Does the channel list converge?

The server, the client's store and what is on its way between them, from the moment the connection
is open.  The server records every change of the user's memberships in `log` and sends its event; the
events are delivered in that order.  A `load()` reads its pages one after the other, each from the
memberships at that moment, and overwrites the list when the last one has come.

* `World`, `World.step` — the whole system;
* `Read` — what the pages read so far say of the memberships, apart from the changes since;
* `Fresh` — no event of a change since a load's first page is delivered before the load is over;
* `channel_list_convergence` — **in a run of such steps the list comes out right.**
-/

namespace Chatspace.ChannelListSync

open MyChannels Paging

/-- The channels as `GET /channels` lists them: by descending keys, which are fixed, in pages, with a
cursor that is not empty where there are more. -/
structure Endpoint (Channel κ : Type) [LinearOrder κ] where
  idOf : Channel → Text
  key : Channel → κ
  key_eq_iff : ∀ c c', key c = key c' ↔ idOf c = idOf c'
  limit : ℕ
  limit_pos : 1 ≤ limit
  cursor : κ → Text
  cursor_ne_nil : ∀ k, cursor k ≠ []

/-- A change of the user's memberships. -/
inductive Change (Channel : Type) where
  | added (channel : Channel)
  | removed (channelId : Text)
deriving DecidableEq

/-- A call of `load()`: it has asked for a page, the first or the one from a cursor on, or the page
is on its way, or it is over.  The number is that of the changes at the read of the first page. -/
inductive Reading (Channel κ : Type) where
  | asked (cursor : Option (ℕ × κ))
  | answered (since : ℕ) (items : List Channel) (next : Option κ)
  | over
deriving DecidableEq

structure World (Channel κ : Type) where
  members : List Channel
  log : List (Change Channel)
  /-- How many events the client has been delivered. -/
  delivered : ℕ
  client : MyChannels.State Channel
  readings : List (Reading Channel κ)
  /-- Some call of `load()` has replaced the list. -/
  loaded : Bool
deriving DecidableEq

inductive Step (Channel : Type) where
  | add (channel : Channel)
  | remove (channelId : Text)
  | deliver
  | load
  | read (k : ℕ)
  | answer (k : ℕ)
  | fail (k : ℕ) (err : Text)
deriving DecidableEq

variable {Channel κ : Type} [LinearOrder κ] (E : Endpoint Channel κ)

def Change.id : Change Channel → Text
  | .added channel => E.idOf channel
  | .removed channelId => channelId

/-- `applyFrame`. -/
def Change.event : Change Channel → MyChannels.Event Channel
  | .added channel => .upsertChannel channel
  | .removed channelId => .removeChannel channelId

def ids (channels : List Channel) : List Text := channels.map E.idOf

/-- The page of the memberships below a cursor, and the cursor of the next. -/
def pageOf (members : List Channel) (cursor : Option κ) : List Channel × Option κ :=
  let rows := (members.filter fun c => cursor.all fun k => E.key c < k).insertionSort
    fun c c' => E.key c' ≤ E.key c
  (rows.take E.limit, if E.limit < rows.length then (rows.take E.limit).getLast?.map E.key else none)

/-- What happens; `none` where it cannot. -/
def World.step (w : World Channel κ) : Step Channel → Option (World Channel κ)
  | .add channel =>
    if E.idOf channel ∈ ids E w.members then none
    else some { w with members := channel :: w.members, log := w.log ++ [.added channel] }
  | .remove channelId =>
    if channelId ∈ ids E w.members then
      some { w with
        members := w.members.filter fun c => E.idOf c ≠ channelId
        log := w.log ++ [.removed channelId] }
    else none
  | .deliver =>
    match w.log[w.delivered]? with
    | some change => (MyChannels.step E.idOf w.client change.event).map fun client =>
        { w with client, delivered := w.delivered + 1 }
    | none => none
  | .load => (MyChannels.step E.idOf w.client .load).map fun client =>
      { w with client, readings := w.readings ++ [.asked none] }
  | .read k =>
    match w.readings[k]? with
    | some (.asked cursor) =>
      let page := pageOf E w.members (cursor.map Prod.snd)
      some { w with
        readings := w.readings.set k
          (.answered ((cursor.map Prod.fst).getD w.log.length) page.1 page.2) }
    | _ => none
  | .answer k =>
    match w.readings[k]? with
    | some (.answered since items next) =>
      (MyChannels.step E.idOf w.client (.page k items (next.map E.cursor))).map fun client =>
        { w with
          client
          readings := w.readings.set k (match next with
            | some cursor => .asked (some (since, cursor))
            | none => .over)
          loaded := w.loaded || next.isNone }
    | _ => none
  | .fail k err => (MyChannels.step E.idOf w.client (.pageFails k err)).map fun client =>
      { w with client, readings := w.readings.set k .over }

/-- The connection is open: the store is as it was, and its first `load()` is under way. -/
def opened (members : List Channel) : World Channel κ where
  members := members
  log := []
  delivered := 0
  client := initialState.load
  readings := [.asked none]
  loaded := false

/-- No event of a change since the first page of a load is delivered before the last one is
answered, and no load fails before one has succeeded. -/
def Fresh (w : World Channel κ) : Step Channel → Prop
  | .answer k => ∀ since items, w.readings[k]? = some (.answered since items none) →
      w.delivered ≤ since
  | .fail .. => w.loaded = true
  | _ => True

/-- All events are delivered, and all calls of `load()` are over. -/
def Quiet (w : World Channel κ) : Prop :=
  w.delivered = w.log.length ∧ ∀ load ∈ w.client.loads, load = none

/-- The ids shown are distinct, and those of the memberships. -/
def Converged (w : World Channel κ) : Prop :=
  (ids E w.client.channels).Nodup ∧ ∀ x, x ∈ ids E w.client.channels ↔ x ∈ ids E w.members

/-! ### The store -/

section Store

variable {E} {s : MyChannels.State Channel} {channel : Channel} {channelId x : Text}

theorem ids_upsertChannel : ids E (s.upsertChannel E.idOf channel).channels =
    if E.idOf channel ∈ ids E s.channels then ids E s.channels
    else E.idOf channel :: ids E s.channels := by
  unfold MyChannels.State.upsertChannel
  simp only
  split
  · rename_i hindex
    have hnone : E.idOf channel ∉ ids E s.channels := by
      intro hmem
      obtain ⟨c, hc, heq⟩ := List.mem_map.mp hmem
      have hnot := List.findIdx?_eq_none_iff.mp hindex c hc
      simp [heq] at hnot
    rw [if_neg hnone]
    rfl
  · rename_i index hindex
    obtain ⟨hlt, hfound, -⟩ := List.findIdx?_eq_some_iff_getElem.mp hindex
    have hid : E.idOf s.channels[index] = E.idOf channel := of_decide_eq_true hfound
    have hmem : E.idOf channel ∈ ids E s.channels := by
      rw [← hid]
      exact List.mem_map_of_mem (List.getElem_mem hlt)
    rw [if_pos hmem]
    simp only [ids, List.map_set]
    apply List.ext_getElem?
    intro j
    rw [List.getElem?_set]
    split
    · rename_i hj
      subst hj
      simp [hlt, hid]
    · rfl

theorem mem_ids_upsertChannel : x ∈ ids E (s.upsertChannel E.idOf channel).channels ↔
    x = E.idOf channel ∨ x ∈ ids E s.channels := by
  rw [ids_upsertChannel]
  split
  · rename_i hmem
    constructor
    · exact Or.inr
    · rintro (rfl | hx)
      · exact hmem
      · exact hx
  · exact List.mem_cons

theorem nodup_upsertChannel (h : (ids E s.channels).Nodup) :
    (ids E (s.upsertChannel E.idOf channel).channels).Nodup := by
  rw [ids_upsertChannel]
  split
  · exact h
  · rename_i hmem
    exact List.nodup_cons.mpr ⟨hmem, h⟩

theorem mem_ids_removeChannel :
    x ∈ ids E (s.removeChannel E.idOf channelId).channels ↔
      x ≠ channelId ∧ x ∈ ids E s.channels := by
  simp only [ids, MyChannels.State.removeChannel, List.mem_map, List.mem_filter, decide_eq_true_eq]
  constructor
  · rintro ⟨c, ⟨hc, hne⟩, rfl⟩
    exact ⟨hne, c, hc, rfl⟩
  · rintro ⟨hne, c, hc, rfl⟩
    exact ⟨c, ⟨hc, hne⟩, rfl⟩

theorem nodup_removeChannel (h : (ids E s.channels).Nodup) :
    (ids E (s.removeChannel E.idOf channelId).channels).Nodup :=
  h.sublist (List.Sublist.map E.idOf List.filter_sublist)

end Store

/-! ### The pages -/

section Pages

variable {E} {members collected items : List Channel} {cursor next : Option κ} {k : κ}
  {log : List (Change Channel)} {since : ℕ} {change : Change Channel}

theorem nodup_keys (h : (ids E members).Nodup) :
    members.Pairwise fun c c' => E.key c ≠ E.key c' := by
  have hids : members.Pairwise fun c c' => E.idOf c ≠ E.idOf c' := List.pairwise_map.mp h
  exact hids.imp fun hne hkey => hne ((E.key_eq_iff _ _).mp hkey)

theorem isPage_pageOf (h : (ids E members).Nodup) :
    IsPage E.key members cursor (pageOf E members cursor).1 (pageOf E members cursor).2 := by
  have hperm := List.perm_insertionSort (fun c c' => E.key c' ≤ E.key c)
    (members.filter fun c => cursor.all fun k => E.key c < k)
  have hsorted := List.pairwise_insertionSort (fun c c' : Channel => E.key c' ≤ E.key c)
    (members.filter fun c => cursor.all fun k => E.key c < k)
  have hne := (hperm.pairwise_iff fun h => Ne.symm h).mpr ((nodup_keys h).filter _)
  apply isPage_take E.limit_pos
  · intro c
    rw [hperm.mem_iff, List.mem_filter, Option.all_eq_true]
    simp [Below]
  · exact (hsorted.and hne).imp fun hcc => lt_of_le_of_ne hcc.1 fun heq => hcc.2 heq.symm

/-- What is read is in order, and above the cursor of the next page; but for the channels of later
changes it is made of memberships, and of all of them above that cursor. -/
structure Read (E : Endpoint Channel κ) (members : List Channel) (later : List (Change Channel))
    (next : Option κ) (read : List Channel) : Prop where
  descending : read.Pairwise fun c c' => E.key c' < E.key c
  above : ∀ k, next = some k → ∀ c ∈ read, k ≤ E.key c
  sound : ∀ c ∈ read, E.idOf c ∉ later.map (Change.id E) → E.idOf c ∈ ids E members
  complete : ∀ c ∈ members, E.idOf c ∉ later.map (Change.id E) →
    (∀ k, next = some k → k ≤ E.key c) → E.idOf c ∈ ids E read

theorem Read.first (h : IsPage E.key members none items next) (later : List (Change Channel)) :
    Read E members later next items where
  descending := h.descending
  above k hk := (h.cursor k hk).2
  sound c hc _ := List.mem_map_of_mem (h.mem c hc).1
  complete c hc _ hcovered := by
    cases next with
    | none => exact List.mem_map_of_mem (h.last rfl c hc (below_none c))
    | some k =>
      have hmore := h.more k rfl c hc (below_none c)
      exact List.mem_map_of_mem (hmore.resolve_right (not_lt.mpr (hcovered k rfl)))

theorem Read.continued {later : List (Change Channel)} (hread : Read E members later (some k) collected)
    (h : IsPage E.key members (some k) items next) :
    Read E members later next (collected ++ items) where
  descending := by
    apply List.pairwise_append.mpr ⟨hread.descending, h.descending, ?_⟩
    intro c hc c' hc'
    exact lt_of_lt_of_le (below_some.mp (h.mem c' hc').2) (hread.above k rfl c hc)
  above k' hk' c hc := by
    obtain ⟨⟨x, hx, hkey⟩, hitems⟩ := h.cursor k' hk'
    rcases List.mem_append.mp hc with hc | hc
    · rw [← hkey]
      exact le_of_lt (lt_of_lt_of_le (below_some.mp (h.mem x hx).2) (hread.above k rfl c hc))
    · exact hitems c hc
  sound c hc hlater := by
    rcases List.mem_append.mp hc with hc | hc
    · exact hread.sound c hc hlater
    · exact List.mem_map_of_mem (h.mem c hc).1
  complete c hc hlater hcovered := by
    rw [ids, List.map_append, List.mem_append]
    by_cases hk : k ≤ E.key c
    · left
      exact hread.complete c hc hlater fun k' hk' => by
        cases hk'
        exact hk
    · right
      have hbelow : Below E.key (some k) c := below_some.mpr (not_le.mp hk)
      cases next with
      | none => exact List.mem_map_of_mem (h.last rfl c hc hbelow)
      | some k' =>
        have hmore := h.more k' rfl c hc hbelow
        exact List.mem_map_of_mem (hmore.resolve_right (not_lt.mpr (hcovered k' rfl)))

/-- A change is one of the later ones. -/
theorem Read.changed {members' : List Channel} {later : List (Change Channel)}
    (hread : Read E members later next collected)
    (hsame : ∀ c, E.idOf c ≠ change.id E → (c ∈ members' ↔ c ∈ members)) :
    Read E members' (later ++ [change]) next collected where
  descending := hread.descending
  above := hread.above
  sound c hc hlater := by
    rw [List.map_append, List.mem_append, not_or] at hlater
    obtain ⟨m, hm, heq⟩ := List.mem_map.mp (hread.sound c hc hlater.1)
    have hne : E.idOf m ≠ change.id E := by
      rw [heq]
      simpa using hlater.2
    rw [← heq]
    exact List.mem_map_of_mem ((hsame m hne).mpr hm)
  complete c hc hlater hcovered := by
    rw [List.map_append, List.mem_append, not_or] at hlater
    have hne : E.idOf c ≠ change.id E := by simpa using hlater.2
    exact hread.complete c ((hsame c hne).mp hc) hlater.1 hcovered

end Pages

/-! ### The invariant -/

/-- What a load has read and collected so far. -/
def Sound (w : World Channel κ) (collected : List Channel) : Reading Channel κ → Prop
  | .asked none => collected = []
  | .asked (some (since, k)) => since ≤ w.log.length ∧
      Read E w.members (w.log.drop since) (some k) collected
  | .answered since items next => since ≤ w.log.length ∧
      Read E w.members (w.log.drop since) next (collected ++ items)
  | .over => True

/-- But for the channels of changes from the `since`-th on, these are the memberships. -/
def AgreesUpTo (w : World Channel κ) (since : ℕ) (channels : List Channel) : Prop :=
  ∀ x, x ∉ (w.log.drop since).map (Change.id E) → (x ∈ ids E channels ↔ x ∈ ids E w.members)

structure Inv (w : World Channel κ) : Prop where
  members : (ids E w.members).Nodup
  shown : (ids E w.client.channels).Nodup
  delivered : w.delivered ≤ w.log.length
  /-- The last change of a channel decides. -/
  decided : ∀ before change after, w.log = before ++ change :: after →
    change.id E ∉ after.map (Change.id E) →
    (change.id E ∈ ids E w.members ↔ ∃ channel, change = .added channel)
  started : w.readings.length = w.client.loads.length
  reading : ∀ (k : ℕ) (r : Reading Channel κ) (collected : List Channel), w.readings[k]? = some r →
    w.client.loads[k]? = some (some collected) → Sound E w collected r
  agrees : w.loaded = true → AgreesUpTo E w w.delivered w.client.channels
  /-- The list is loaded, or the first call is under way. -/
  loading : w.loaded = true ∨ ∃ collected, some collected ∈ w.client.loads

variable {E} {w w' : World Channel κ} {change : Change Channel}

theorem same_ids {members members' : List Channel}
    (hsame : ∀ c, E.idOf c ≠ change.id E → (c ∈ members' ↔ c ∈ members)) {x : Text}
    (hx : x ≠ change.id E) : x ∈ ids E members' ↔ x ∈ ids E members := by
  constructor
  · intro h
    obtain ⟨c, hc, rfl⟩ := List.mem_map.mp h
    exact List.mem_map_of_mem ((hsame c hx).mp hc)
  · intro h
    obtain ⟨c, hc, rfl⟩ := List.mem_map.mp h
    exact List.mem_map_of_mem ((hsame c hx).mpr hc)

/-- A change of the memberships. -/
theorem inv_change {members : List Channel} (h : Inv E w) (hmembers : (ids E members).Nodup)
    (hsame : ∀ c, E.idOf c ≠ change.id E → (c ∈ members ↔ c ∈ w.members))
    (hdecided : change.id E ∈ ids E members ↔ ∃ channel, change = .added channel) :
    Inv E { w with members := members, log := w.log ++ [change] } where
  members := hmembers
  shown := h.shown
  delivered := by
    have hle := h.delivered
    simp only [List.length_append, List.length_singleton]
    omega
  decided := by
    intro before change' after hlog hafter
    rcases List.eq_nil_or_concat after with rfl | ⟨rest, lastChange, rfl⟩
    · obtain ⟨-, hlast⟩ := List.append_inj' hlog rfl
      cases hlast
      exact hdecided
    · have hlog' : w.log ++ [change] = (before ++ change' :: rest) ++ [lastChange] := by
        simpa using hlog
      obtain ⟨hbefore, hlast⟩ := List.append_inj' hlog' rfl
      cases hlast
      rw [List.concat_eq_append, List.map_append, List.mem_append, not_or] at hafter
      have hne : change'.id E ≠ change.id E := by simpa using hafter.2
      exact (same_ids hsame hne).trans (h.decided before change' rest hbefore hafter.1)
  started := h.started
  reading := by
    intro k r collected hr hload
    have hsound := h.reading k r collected hr hload
    match r with
    | .asked none => exact hsound
    | .over => trivial
    | .asked (some (since, cursor)) =>
      refine ⟨hsound.1.trans (by simp), ?_⟩
      rw [List.drop_append_of_le_length hsound.1]
      exact hsound.2.changed hsame
    | .answered since items next =>
      refine ⟨hsound.1.trans (by simp), ?_⟩
      rw [List.drop_append_of_le_length hsound.1]
      exact hsound.2.changed hsame
  agrees := by
    intro hloaded x hx
    rw [List.drop_append_of_le_length h.delivered, List.map_append, List.mem_append, not_or] at hx
    have hne : x ≠ change.id E := by simpa using hx.2
    exact (h.agrees hloaded x hx.1).trans (same_ids hsame hne).symm
  loading := h.loading

/-- An event is delivered. -/
theorem inv_deliver {client : MyChannels.State Channel} (h : Inv E w)
    (hchange : w.log[w.delivered]? = some change) (hloads : client.loads = w.client.loads)
    (hshown : (ids E client.channels).Nodup)
    (hsame : ∀ x, x ≠ change.id E → (x ∈ ids E client.channels ↔ x ∈ ids E w.client.channels))
    (hdecided : change.id E ∈ ids E client.channels ↔ ∃ channel, change = .added channel) :
    Inv E { w with client := client, delivered := w.delivered + 1 } where
  members := h.members
  shown := hshown
  delivered := (List.getElem?_eq_some_iff.mp hchange).1
  decided := h.decided
  started := by
    rw [hloads]
    exact h.started
  reading := by
    rw [hloads]
    exact h.reading
  agrees := by
    intro hloaded x hx
    have hdrop : w.log.drop w.delivered = change :: w.log.drop (w.delivered + 1) := by
      obtain ⟨hlt, rfl⟩ := List.getElem?_eq_some_iff.mp hchange
      exact List.drop_eq_getElem_cons hlt
    by_cases hx' : x = change.id E
    · subst hx'
      have hlog : w.log = w.log.take w.delivered ++ change :: w.log.drop (w.delivered + 1) := by
        rw [← hdrop, List.take_append_drop]
      exact hdecided.trans (h.decided _ change _ hlog hx).symm
    · refine (hsame x hx').trans (h.agrees hloaded x ?_)
      rw [hdrop, List.map_cons, List.mem_cons, not_or]
      exact ⟨hx', hx⟩
  loading := by
    rw [hloads]
    exact h.loading

/-- A step of one load that leaves the list as it is. -/
theorem inv_load {client : MyChannels.State Channel} {k : ℕ} {r : Reading Channel κ} (h : Inv E w)
    (hchannels : client.channels = w.client.channels)
    (hlength : client.loads.length = w.client.loads.length)
    (hloads : ∀ j, j ≠ k → client.loads[j]? = w.client.loads[j]?)
    (hsound : ∀ collected, client.loads[k]? = some (some collected) → Sound E w collected r)
    (hloading : w.loaded = true ∨ ∃ collected, some collected ∈ client.loads) :
    Inv E { w with client := client, readings := w.readings.set k r } where
  members := h.members
  shown := by
    rw [hchannels]
    exact h.shown
  delivered := h.delivered
  decided := h.decided
  started := by
    rw [List.length_set, hlength]
    exact h.started
  reading := by
    intro j r' collected hr hload
    by_cases hj : j = k
    · subst hj
      rw [List.getElem?_set] at hr
      simp only [if_true] at hr
      split at hr
      · cases hr
        exact hsound collected hload
      · cases hr
    · rw [List.getElem?_set_ne (Ne.symm hj)] at hr
      rw [hloads j hj] at hload
      exact h.reading j r' collected hr hload
  agrees := by
    rw [hchannels]
    exact h.agrees
  loading := hloading

/-- The last page of a load has come. -/
theorem inv_loaded {client : MyChannels.State Channel} {k : ℕ} {since : ℕ} {read : List Channel} (h : Inv E w)
    (hchannels : client.channels = read) (hloads : client.loads = w.client.loads.set k none)
    (hread : Read E w.members (w.log.drop since) none read) (hsince : w.delivered ≤ since) :
    Inv E { w with client := client, readings := w.readings.set k .over, loaded := true } where
  members := h.members
  shown := by
    rw [hchannels]
    apply List.pairwise_map.mpr
    exact hread.descending.imp fun hlt heq => absurd ((E.key_eq_iff _ _).mpr heq) (ne_of_gt hlt)
  delivered := h.delivered
  decided := h.decided
  started := by
    rw [List.length_set, hloads, List.length_set]
    exact h.started
  reading := by
    intro j r' collected hr hload
    by_cases hj : j = k
    · subst hj
      rw [hloads, List.getElem?_set] at hload
      simp only [if_true] at hload
      split at hload
      · cases hload
      · cases hload
    · rw [List.getElem?_set_ne (Ne.symm hj)] at hr
      rw [hloads, List.getElem?_set_ne (Ne.symm hj)] at hload
      exact h.reading j r' collected hr hload
  agrees := by
    rintro - x hx
    have hlater : x ∉ (w.log.drop since).map (Change.id E) := by
      intro hmem
      apply hx
      have hdrop : w.log.drop since = (w.log.drop w.delivered).drop (since - w.delivered) := by
        rw [List.drop_drop]
        congr 1
        omega
      rw [hdrop, List.map_drop] at hmem
      exact List.mem_of_mem_drop hmem
    rw [hchannels]
    constructor
    · intro hshown
      obtain ⟨c, hc, rfl⟩ := List.mem_map.mp hshown
      exact hread.sound c hc hlater
    · intro hmember
      obtain ⟨c, hc, rfl⟩ := List.mem_map.mp hmember
      exact hread.complete c hc hlater fun k hk => by cases hk
  loading := Or.inl rfl

/-! ### One step -/

theorem inv_opened {members : List Channel} (h : (ids E members).Nodup) :
    Inv E (opened members : World Channel κ) where
  members := h
  shown := List.nodup_nil
  delivered := le_rfl
  decided before change after hlog := by simp [opened] at hlog
  started := rfl
  reading := by
    intro k r collected hr hload
    obtain rfl : k = 0 := by
      have hlt := (List.getElem?_eq_some_iff.mp hr).1
      simp only [opened, List.length_singleton] at hlt
      omega
    cases hr
    cases hload
    exact rfl
  agrees hloaded := by cases hloaded
  loading := Or.inr ⟨[], List.mem_singleton_self _⟩

/-- A call of `load()` begins. -/
theorem inv_start (h : Inv E w) :
    Inv E { w with client := w.client.load, readings := w.readings ++ [.asked none] } where
  members := h.members
  shown := h.shown
  delivered := h.delivered
  decided := h.decided
  started := by
    show (w.readings ++ [_]).length = (w.client.loads ++ [_]).length
    rw [List.length_append, List.length_append, h.started]
    rfl
  reading := by
    intro k r collected hr hload
    have hload' : (w.client.loads ++ [some []])[k]? = some (some collected) := hload
    rw [List.getElem?_append] at hr hload'
    rw [← h.started] at hload'
    split at hr
    · rename_i hk
      rw [if_pos hk] at hload'
      exact h.reading k r collected hr hload'
    · rename_i hk
      rw [if_neg hk] at hload'
      have hr' := List.mem_singleton.mp (List.mem_of_getElem? hr)
      have hload'' := List.mem_singleton.mp (List.mem_of_getElem? hload')
      rw [hr']
      exact Option.some.inj hload''
  agrees := h.agrees
  loading := by
    refine h.loading.imp_right fun ⟨collected, hmem⟩ => ?_
    exact ⟨collected, List.mem_append_left _ hmem⟩

theorem inv_step {e : Step Channel} (h : Inv E w) (hfresh : Fresh w e)
    (hs : w.step E e = some w') : Inv E w' := by
  cases e with
  | add channel =>
    simp only [World.step] at hs
    split at hs
    · cases hs
    · rename_i hnew
      cases hs
      have hnodup : (ids E (channel :: w.members)).Nodup := List.nodup_cons.mpr ⟨hnew, h.members⟩
      apply inv_change h hnodup
      · intro c hc
        have hne : c ≠ channel := fun heq => hc (heq ▸ rfl)
        simp [hne]
      · simp [ids, Change.id]
  | remove channelId =>
    simp only [World.step] at hs
    split at hs
    · cases hs
      apply inv_change h (h.members.sublist (List.Sublist.map E.idOf List.filter_sublist))
      · intro c hc
        have hne : E.idOf c ≠ channelId := hc
        simp [hne]
      · simp [ids, Change.id]
    · cases hs
  | deliver =>
    simp only [World.step] at hs
    split at hs
    · rename_i change hchange
      cases change with
      | added channel =>
        cases hs
        apply inv_deliver h hchange
        · unfold MyChannels.State.upsertChannel
          simp only
          split <;> rfl
        · exact nodup_upsertChannel h.shown
        · intro x hx
          exact mem_ids_upsertChannel.trans (or_iff_right hx)
        · exact iff_of_true (mem_ids_upsertChannel.mpr (Or.inl rfl)) ⟨channel, rfl⟩
      | removed channelId =>
        cases hs
        apply inv_deliver h hchange
        · rfl
        · exact nodup_removeChannel h.shown
        · intro x hx
          exact mem_ids_removeChannel.trans (and_iff_right hx)
        · exact iff_of_false (fun hmem => (mem_ids_removeChannel.mp hmem).1 rfl)
            fun ⟨channel, hadded⟩ => by cases hadded
    · cases hs
  | load =>
    cases hs
    exact inv_start h
  | read k =>
    simp only [World.step] at hs
    split at hs
    · rename_i cursor hasked
      cases hs
      refine inv_load h rfl rfl (fun _ _ => rfl) (fun collected hload => ?_) h.loading
      have hsound := h.reading k _ collected hasked hload
      cases cursor with
      | none =>
        rw [hsound]
        exact ⟨le_rfl, Read.first (isPage_pageOf h.members) _⟩
      | some cursor => exact ⟨hsound.1, hsound.2.continued (isPage_pageOf h.members)⟩
    · cases hs
  | answer k =>
    simp only [World.step] at hs
    split at hs
    · rename_i since items next hanswered
      match hload : w.client.loads[k]? with
      | none | some none => simp [MyChannels.step, hload] at hs
      | some (some collected) =>
        simp only [MyChannels.step, hload, Option.map_some, Option.some.injEq] at hs
        subst hs
        have hlt : k < w.client.loads.length := (List.getElem?_eq_some_iff.mp hload).1
        obtain ⟨hsince, hread⟩ := h.reading k _ collected hanswered hload
        cases next with
        | none =>
          rw [Option.isNone_none, Bool.or_true]
          exact inv_loaded h rfl rfl hread (hfresh since items hanswered)
        | some cursor =>
          have hmore : w.client.loadPage k (collected ++ items) (some (E.cursor cursor)) =
              { w.client with loads := w.client.loads.set k (some (collected ++ items)) } := by
            simp [MyChannels.State.loadPage, E.cursor_ne_nil]
          rw [Option.isNone_some, Bool.or_false, Option.map_some, hmore]
          refine inv_load h rfl List.length_set (fun j hj => List.getElem?_set_ne (Ne.symm hj)) ?_
            (Or.inr ⟨_, List.mem_set hlt _⟩)
          intro collected' hload'
          rw [List.getElem?_set_self hlt] at hload'
          cases hload'
          exact ⟨hsince, hread⟩
    · cases hs
  | fail k err =>
    simp only [World.step, MyChannels.step] at hs
    split at hs
    · rename_i collected hload
      cases hs
      refine inv_load h rfl List.length_set (fun j hj => List.getElem?_set_ne (Ne.symm hj))
        (fun _ _ => trivial) (Or.inl hfresh)
    · cases hs

/-- **Channel list convergence.**  In every run in which no event of a change since a load's first
page is delivered before the load is over, and no load fails before one has succeeded, the list shown
once all events are delivered and all loads are over is that of the memberships, without repetition. -/
theorem channel_list_convergence (E : Endpoint Channel κ) {members : List Channel}
    (hmembers : (ids E members).Nodup) (es : List (Step Channel))
    (hfresh : ∀ x ∈ Reactive.transitions (World.step E) (opened members) es, Fresh x.1 x.2.1)
    (hquiet : Quiet (Reactive.last (World.step E) (opened members) es)) :
    Converged E (Reactive.last (World.step E) (opened members) es) := by
  have hinv := Reactive.last_of_inv (fun w e w' h hf hs => inv_step h hf hs)
    (inv_opened (E := E) hmembers) es hfresh
  obtain ⟨hdelivered, hover⟩ := hquiet
  have hloaded := hinv.loading.resolve_right fun ⟨collected, hmem⟩ => by cases hover _ hmem
  refine ⟨hinv.shown, fun x => hinv.agrees hloaded x ?_⟩
  rw [hdelivered, List.drop_length]
  exact List.not_mem_nil

/-! ### Two runs -/

/-- Channels that are their ids, listed two by two. -/
def small : Endpoint ℕ ℕ where
  idOf n := List.replicate n 'c'
  key n := n
  key_eq_iff n m := by
    constructor
    · rintro rfl
      rfl
    · intro h
      simpa using congrArg List.length h
  limit := 2
  limit_pos := by decide
  cursor n := 'p' :: List.replicate n 'k'
  cursor_ne_nil n := by simp

/-- A channel is added while the second page of three is read, and its event comes after the load. -/
def addedWhileLoading : List (Step ℕ) :=
  [.read 0, .answer 0, .add 4, .read 0, .answer 0, .deliver, .remove ['c'], .deliver]

instance (w : World ℕ ℕ) : DecidablePred (Fresh w)
  | .answer k =>
    match h : w.readings[k]? with
    | some (.answered since items none) =>
      decidable_of_iff (w.delivered ≤ since) (by simp [Fresh, h])
    | some (.answered since items (some next)) => isTrue (by simp [Fresh, h])
    | some (.asked _) | some .over | none => isTrue (by simp [Fresh, h])
  | .fail .. => inferInstanceAs (Decidable (w.loaded = true))
  | .add _ | .remove _ | .deliver | .load | .read _ => isTrue trivial

instance (w : World ℕ ℕ) : Decidable (Quiet w) := inferInstanceAs (Decidable (_ ∧ _))

theorem channel_list_convergence_added :
    Converged small (Reactive.last (World.step small) (opened [3, 2, 1]) addedWhileLoading) :=
  channel_list_convergence small (by decide) addedWhileLoading (by decide +kernel) (by decide +kernel)

/-- The event of a channel that was added after the page was read comes before the page. -/
def overtaken : List (Step ℕ) := [.read 0, .add 1, .deliver, .answer 0]

/-- **Everything is delivered and over, and the channel is not shown.** -/
theorem overtaken_channel_missing :
    Quiet (Reactive.last (World.step small) (opened []) overtaken) ∧
      (Reactive.last (World.step small) (opened []) overtaken).client.channels = [] ∧
      (Reactive.last (World.step small) (opened []) overtaken).members = [1] := by
  decide +kernel

end Chatspace.ChannelListSync
