import Chatspace.Frontend.ConversationSocket

/-!
# Does the message map converge?

A message's life on the server is its creation, its edits and perhaps its deletion (`Record`).  The
client is delivered its events, at least once and in any order, and history snapshots of it.  The map
keeps whatever came last, without looking at versions.

* `get_of_undeleted` — a message no deletion of which came is shown as it came last;
* `DeletedAs.deliver` — a deletion stays until the message comes again with its content;
* `store_converges` — **the map converges, and revives nothing, just if nothing about a message
  comes after its newest version.**
-/

namespace Chatspace.Frontend

namespace ConversationSocket

/-- The life of one message on the server. -/
structure Record where
  created : Message
  edits : List Message
  deleted : Option Text
  sameId : ∀ m ∈ edits, m.id = created.id
  live : ∀ m ∈ created :: edits, m.deletedAt = none

namespace Record

variable (r : Record)

def id : Text := r.created.id

/-- Its versions with content, oldest first. -/
def versions : List Message := r.created :: r.edits

def newest : Message := r.edits.getLastD r.created

end Record

/-- The messages of the server. -/
structure History where
  records : List Record
  distinct : (records.map Record.id).Nodup

/-- What the server can have sent. -/
def FromServer (h : History) : Delivery → Prop
  | .frame (.messageCreated m) => ∃ r ∈ h.records, m = r.created
  | .frame (.messageEdited m) => ∃ r ∈ h.records, m ∈ r.edits
  | .frame (.messageDeleted p) => ∃ r ∈ h.records, p.id = r.id ∧ r.deleted = some p.deletedAt
  | .frame .other => True
  | .caughtUp missed => ∀ m ∈ missed, ∃ r ∈ h.records, m ∈ r.versions
  | .catchUpFailed _ => True

/-- Every event has been delivered. -/
structure Delivered (h : History) (ds : List Delivery) : Prop where
  created : ∀ r ∈ h.records, .frame (.messageCreated r.created) ∈ ds
  edited : ∀ r ∈ h.records, ∀ m ∈ r.edits, .frame (.messageEdited m) ∈ ds
  deleted : ∀ r ∈ h.records, ∀ t ∈ r.deleted,
    ∃ p, p.id = r.id ∧ p.deletedAt = t ∧ .frame (.messageDeleted p) ∈ ds

/-- The map shows message `id` as deleted at `t`. -/
def DeletedAs (map : MessageMap) (id t : Text) : Prop :=
  ∃ e, map.get id = some e ∧ e.deletedAt = some t ∧ e.content = [] ∧ e.media = []

/-- The map shows the message in its newest version. -/
def Shows (map : MessageMap) (r : Record) : Prop :=
  match r.deleted with
  | none => map.get r.id = some r.newest
  | some t => DeletedAs map r.id t

def Converges (h : History) (ds : List Delivery) : Prop :=
  ∀ r ∈ h.records, Shows (after ds).messageMap r

/-- A message shown as deleted is not shown otherwise later. -/
def NeverRevived (ds : List Delivery) : Prop :=
  ∀ ds₁ ds₂ ds₃, ds = ds₁ ++ ds₂ ++ ds₃ → ∀ id e e', (after ds₁).messageMap.get id = some e →
    e.deletedAt ≠ none → (after (ds₁ ++ ds₂)).messageMap.get id = some e' → e'.deletedAt ≠ none

/-- Nothing about a message comes after its newest version: no version of it after its deletion, and
the last version of an undeleted message to come is the newest. -/
structure InOrder (h : History) (ds : List Delivery) : Prop where
  deleted : ds.Pairwise fun x y => ∀ p ∈ x.deletion, ∀ m ∈ y.versions, m.id ≠ p.id
  undeleted : ∀ r ∈ h.records, r.deleted = none →
    ((ds.flatMap Delivery.versions).filter fun m => m.id = r.id).getLast? = some r.newest

variable {h : History} {ds : List Delivery} {x : Delivery} {id t : Text}

theorem FromServer.versions (hx : FromServer h x) {m : Message} (hm : m ∈ x.versions) :
    ∃ r ∈ h.records, m ∈ r.versions := by
  cases x with
  | frame frame =>
    cases frame with
    | messageCreated data =>
      obtain ⟨r, hr, rfl⟩ := hx
      rw [Delivery.versions, List.mem_singleton] at hm
      exact ⟨r, hr, by simp [hm, Record.versions]⟩
    | messageEdited data =>
      obtain ⟨r, hr, hdata⟩ := hx
      rw [Delivery.versions, List.mem_singleton] at hm
      exact ⟨r, hr, by simp [hm, hdata, Record.versions]⟩
    | messageDeleted data => cases hm
    | other => cases hm
  | caughtUp missed => exact hx m hm
  | catchUpFailed message => cases hm

/-- A version with content is not marked as deleted. -/
theorem FromServer.live (hx : FromServer h x) {m : Message} (hm : m ∈ x.versions) :
    m.deletedAt = none := by
  obtain ⟨r, -, hmr⟩ := hx.versions hm
  exact r.live m hmr

theorem FromServer.deletion (hx : FromServer h x) {p : MessageDeletedPayload}
    (hp : p ∈ x.deletion) : ∃ r ∈ h.records, p.id = r.id ∧ r.deleted = some p.deletedAt := by
  cases x with
  | frame frame =>
    cases frame with
    | messageDeleted data =>
      obtain rfl : data = p := by simpa [Delivery.deletion] using hp
      exact hx
    | messageCreated data => cases hp
    | messageEdited data => cases hp
    | other => cases hp
  | caughtUp missed => cases hp
  | catchUpFailed message => cases hp

theorem versions_of_deletion {p : MessageDeletedPayload} (hp : p ∈ x.deletion) :
    x.versions = [] := by
  cases x with
  | frame frame => cases frame <;> first | rfl | cases hp
  | caughtUp missed => cases hp
  | catchUpFailed message => rfl

/-- Two records of one history with one id are the same. -/
theorem History.eq_of_id (h : History) {r r' : Record} (hr : r ∈ h.records) (hr' : r' ∈ h.records)
    (hid : r.id = r'.id) : r = r' :=
  List.inj_on_of_nodup_map h.distinct hr hr' hid

/-! ### What the map shows -/

/-- A message no deletion of which has come is shown as it came last. -/
theorem get_of_undeleted (hdel : ∀ x ∈ ds, ∀ p ∈ x.deletion, p.id ≠ id) :
    (after ds).messageMap.get id =
      ((ds.flatMap Delivery.versions).filter fun m => m.id = id).getLast? := by
  induction ds using List.reverseRecOn with
  | nil => rfl
  | append_singleton ds x ih =>
    have hih := ih fun y hy => hdel y (List.mem_append_left _ hy)
    rw [after_append_singleton, get_deliver, hih]
    cases hx : x.deletion with
    | some p =>
      have hne : p.id ≠ id := hdel x (by simp) p hx
      simp [hne, versions_of_deletion hx]
    | none => simp [List.filter_append, List.getLast?_append]

theorem deletedAs_of_deletion {s : State} {p : MessageDeletedPayload} (hp : p ∈ x.deletion) :
    DeletedAs (s.deliver x).messageMap p.id p.deletedAt := by
  refine ⟨tombstone (s.messageMap.get p.id) p, ?_, rfl, rfl, rfl⟩
  rw [get_deliver, hp]
  exact if_pos rfl

/-- A deletion stays until the message comes again with its content. -/
theorem DeletedAs.deliver {s : State} (hs : DeletedAs s.messageMap id t)
    (hver : ∀ m ∈ x.versions, m.id ≠ id) (hdel : ∀ p ∈ x.deletion, p.id = id → p.deletedAt = t) :
    DeletedAs (s.deliver x).messageMap id t := by
  obtain ⟨e, he, hrest⟩ := hs
  cases hx : x.deletion with
  | some p =>
    by_cases hid : p.id = id
    · have hnew := deletedAs_of_deletion (s := s) (x := x) hx
      rw [hid, hdel p hx hid] at hnew
      exact hnew
    · refine ⟨e, ?_, hrest⟩
      rw [get_deliver, hx]
      simp [hid, he]
  | none =>
    refine ⟨e, ?_, hrest⟩
    have hempty : (x.versions.filter fun m => m.id = id) = [] := by
      simpa [List.filter_eq_nil_iff] using hver
    rw [get_deliver, hx]
    simp [hempty, he]

theorem DeletedAs.append {ds₁ ds₂ : List Delivery} (hs : DeletedAs (after ds₁).messageMap id t)
    (hver : ∀ x ∈ ds₂, ∀ m ∈ x.versions, m.id ≠ id)
    (hdel : ∀ x ∈ ds₂, ∀ p ∈ x.deletion, p.id = id → p.deletedAt = t) :
    DeletedAs (after (ds₁ ++ ds₂)).messageMap id t := by
  induction ds₂ using List.reverseRecOn with
  | nil => rwa [List.append_nil]
  | append_singleton ds₂ x ih =>
    rw [← List.append_assoc, after_append_singleton]
    refine (ih (fun y hy => hver y (List.mem_append_left _ hy)) fun y hy =>
      hdel y (List.mem_append_left _ hy)).deliver (hver x (by simp)) (hdel x (by simp))

/-- The deletions of a message are all as the server made it. -/
theorem deletedAt_eq {r : Record} (hr : r ∈ h.records) (ht : r.deleted = some t)
    (hfrom : ∀ x ∈ ds, FromServer h x) :
    ∀ x ∈ ds, ∀ p ∈ x.deletion, p.id = r.id → p.deletedAt = t := by
  intro x hx p hp hid
  obtain ⟨r', hr', hid', hdel⟩ := (hfrom x hx).deletion hp
  obtain rfl : r = r' := h.eq_of_id hr hr' (hid.symm.trans hid')
  exact Option.some.inj (hdel.symm.trans ht)

theorem no_deletion {r : Record} (hr : r ∈ h.records) (ht : r.deleted = none)
    (hfrom : ∀ x ∈ ds, FromServer h x) : ∀ x ∈ ds, ∀ p ∈ x.deletion, p.id ≠ r.id := by
  intro x hx p hp hid
  obtain ⟨r', hr', hid', hdel⟩ := (hfrom x hx).deletion hp
  obtain rfl : r = r' := h.eq_of_id hr hr' (hid.symm.trans hid')
  rw [ht] at hdel
  cases hdel

/-- A message shown as deleted has been delivered a deletion. -/
theorem exists_deletion {e : Message} (hfrom : ∀ x ∈ ds, FromServer h x)
    (he : (after ds).messageMap.get id = some e) (hd : e.deletedAt ≠ none) :
    ∃ x ∈ ds, ∃ p ∈ x.deletion, p.id = id := by
  by_contra hnone
  push Not at hnone
  rw [get_of_undeleted hnone] at he
  obtain ⟨hmem, -⟩ := List.mem_filter.mp (List.mem_of_getLast? he)
  obtain ⟨x, hx, hm⟩ := List.mem_flatMap.mp hmem
  exact hd ((hfrom x hx).live hm)

/-! ### In order, the map converges -/

theorem InOrder.converges (ho : InOrder h ds) (hfrom : ∀ x ∈ ds, FromServer h x)
    (hall : Delivered h ds) : Converges h ds := by
  intro r hr
  unfold Shows
  cases ht : r.deleted with
  | none => exact (get_of_undeleted (no_deletion hr ht hfrom)).trans (ho.undeleted r hr ht)
  | some t =>
    obtain ⟨p, hid, hpt, hmem⟩ := hall.deleted r hr t ht
    obtain ⟨ds₁, ds₂, rfl⟩ := List.append_of_mem hmem
    have hp : p ∈ (Delivery.frame (.messageDeleted p)).deletion := rfl
    have hdeleted : DeletedAs (after (ds₁ ++ [.frame (.messageDeleted p)])).messageMap r.id t := by
      rw [after_append_singleton, ← hid, ← hpt]
      exact deletedAs_of_deletion hp
    have hrest := (List.pairwise_cons.mp (List.pairwise_append.mp ho.deleted).2.1).1
    rw [List.append_cons]
    refine hdeleted.append (fun y hy m hm => ?_) fun y hy => ?_
    · rw [← hid]
      exact hrest y hy p hp m hm
    · exact deletedAt_eq hr ht hfrom y (by simp [hy])

theorem InOrder.neverRevived (ho : InOrder h ds) (hfrom : ∀ x ∈ ds, FromServer h x) :
    NeverRevived ds := by
  rintro ds₁ ds₂ ds₃ rfl id e e' he hd he'
  have hfrom₁ : ∀ x ∈ ds₁, FromServer h x := fun x hx => hfrom x (by simp [hx])
  obtain ⟨x, hx, p, hp, hid⟩ := exists_deletion hfrom₁ he hd
  obtain ⟨r, hr, hpr, ht⟩ := (hfrom₁ x hx).deletion hp
  obtain ⟨as, bs, rfl⟩ := List.append_of_mem hx
  have hdeleted : DeletedAs (after (as ++ [x])).messageMap id p.deletedAt := by
    rw [after_append_singleton, ← hid]
    exact deletedAs_of_deletion hp
  have hpair := ho.deleted
  simp only [List.append_assoc, List.cons_append, List.pairwise_append, List.pairwise_cons] at hpair
  have hlater : DeletedAs (after ((as ++ [x]) ++ (bs ++ ds₂))).messageMap id p.deletedAt := by
    refine hdeleted.append (fun y hy m hm => ?_) fun y hy q hq hqid => ?_
    · rw [← hid]
      exact hpair.2.1.1 y (by simp only [List.mem_append] at hy ⊢; tauto) p hp m hm
    · refine deletedAt_eq hr ht hfrom y ?_ q hq (hqid.trans (hid.symm.trans hpr))
      simp only [List.mem_append, List.mem_cons] at hy ⊢
      tauto
  obtain ⟨e'', he'', hdel, -⟩ := hlater
  have hsame : (as ++ [x]) ++ (bs ++ ds₂) = (as ++ x :: bs) ++ ds₂ := by simp
  rw [hsame, he', Option.some.injEq] at he''
  rw [he'', hdel]
  simp

/-! ### If the map converges, it was in order -/

theorem NeverRevived.of_append {ds₁ ds₂ : List Delivery} (hn : NeverRevived (ds₁ ++ ds₂)) :
    NeverRevived ds₁ := by
  rintro as bs cs rfl
  exact hn as bs (cs ++ ds₂) (by simp)

theorem NeverRevived.deleted (hn : NeverRevived ds) (hfrom : ∀ x ∈ ds, FromServer h x) :
    ds.Pairwise fun x y => ∀ p ∈ x.deletion, ∀ m ∈ y.versions, m.id ≠ p.id := by
  induction ds using List.reverseRecOn with
  | nil => exact .nil
  | append_singleton ds y ih =>
    have hih := ih hn.of_append fun x hx => hfrom x (List.mem_append_left _ hx)
    refine List.pairwise_append.mpr ⟨hih, List.pairwise_singleton _ _, fun x hx z hz => ?_⟩
    obtain rfl := List.mem_singleton.mp hz
    intro p hp m hm hid
    obtain ⟨as, bs, rfl⟩ := List.append_of_mem hx
    -- after the deletion the message is shown as deleted, and after the version it is not
    obtain ⟨e, he, hd, -⟩ : DeletedAs (after (as ++ [x])).messageMap p.id p.deletedAt := by
      rw [after_append_singleton]
      exact deletedAs_of_deletion hp
    have hno : z.deletion = none := by
      cases hz' : z.deletion with
      | none => rfl
      | some q =>
        rw [versions_of_deletion hz'] at hm
        cases hm
    have hmem : m ∈ z.versions.filter fun m => m.id = p.id := List.mem_filter.mpr ⟨hm, by simpa⟩
    obtain ⟨e', he'⟩ : ∃ e', (z.versions.filter fun m => m.id = p.id).getLast? = some e' :=
      ⟨_, List.getLast?_eq_some_getLast (List.ne_nil_of_mem hmem)⟩
    have hget : (after (as ++ [x] ++ (bs ++ [z]))).messageMap.get p.id = some e' := by
      have hsplit : as ++ [x] ++ (bs ++ [z]) = (as ++ x :: bs) ++ [z] := by simp
      rw [hsplit, after_append_singleton, get_deliver, hno]
      simp [he']
    have hlive : e'.deletedAt = none :=
      (hfrom z (by simp)).live (List.mem_filter.mp (List.mem_of_getLast? he')).1
    exact hn (as ++ [x]) (bs ++ [z]) [] (by simp) p.id e e' he (by simp [hd]) hget hlive

/-- **The map converges, and revives nothing, just if nothing about a message comes after its newest
version.** -/
theorem store_converges (h : History) (ds : List Delivery) (hfrom : ∀ x ∈ ds, FromServer h x)
    (hall : Delivered h ds) : Converges h ds ∧ NeverRevived ds ↔ InOrder h ds := by
  constructor
  · rintro ⟨hc, hn⟩
    refine ⟨hn.deleted hfrom, fun r hr ht => ?_⟩
    have hshows := hc r hr
    rw [Shows, ht] at hshows
    exact (get_of_undeleted (no_deletion hr ht hfrom)).symm.trans hshows
  · exact fun ho => ⟨ho.converges hfrom hall, ho.neverRevived hfrom⟩

/-- A version of message `id` of a channel. -/
def posted (id content : Text) (editedAt : Option Text) : Message :=
  ⟨id, some ['c'], none, ['u'], content, [], ['1'], editedAt, none⟩

/-- Message `m` was edited, and message `n` was deleted. -/
def edited : Record where
  created := posted ['m'] ['a'] none
  edits := [posted ['m'] ['b'] (some ['2'])]
  deleted := none
  sameId := by decide
  live := by decide

def removed : Record where
  created := posted ['n'] ['a'] none
  edits := []
  deleted := some ['3']
  sameId := by decide
  live := by decide

def twoMessages : History := ⟨[edited, removed], by decide⟩

/-- The events of `twoMessages`, each once and in order. -/
def events : List Delivery :=
  [.frame (.messageCreated edited.created), .frame (.messageCreated removed.created),
    .frame (.messageEdited (posted ['m'] ['b'] (some ['2']))),
    .frame (.messageDeleted ⟨['n'], .channel ['c'], ['3']⟩)]

theorem fromServer_events : ∀ x ∈ events, FromServer twoMessages x := by
  simp [events, FromServer, twoMessages, Record.id, edited, removed, posted]

theorem delivered_events (ds : List Delivery) : Delivered twoMessages (events ++ ds) := by
  refine ⟨?_, ?_, ?_⟩
  · simp [twoMessages, events]
  · simp [twoMessages, events, edited, removed]
  · intro r hr t ht
    have hn : r = removed ∧ t = ['3'] := by
      simp only [twoMessages, List.mem_cons, List.not_mem_nil, or_false] at hr
      rcases hr with rfl | rfl
      · cases ht
      · exact ⟨rfl, by simpa [removed] using ht.symm⟩
    obtain ⟨rfl, rfl⟩ := hn
    exact ⟨⟨['n'], .channel ['c'], ['3']⟩, rfl, rfl, by simp [events]⟩

theorem store_converges_events : Converges twoMessages events ∧ NeverRevived events := by
  have hall : Delivered twoMessages events := by simpa using delivered_events []
  exact (store_converges twoMessages events fromServer_events hall).mpr ⟨by decide, by decide⟩

/-- A history snapshot read before the edit and the deletion comes after them: the map shows the
message unedited, and the deleted message with its content. -/
theorem stale_snapshot :
    (∀ x ∈ events ++ [.caughtUp [edited.created, removed.created]], FromServer twoMessages x) ∧
    Delivered twoMessages (events ++ [.caughtUp [edited.created, removed.created]]) ∧
    ¬ Converges twoMessages (events ++ [.caughtUp [edited.created, removed.created]]) ∧
    ¬ NeverRevived (events ++ [.caughtUp [edited.created, removed.created]]) := by
  refine ⟨fun x hx => ?_, delivered_events _, fun hc => ?_, fun hn => ?_⟩
  · rcases List.mem_append.mp hx with hx | hx
    · exact fromServer_events x hx
    · rw [List.mem_singleton.mp hx]
      simp [FromServer, twoMessages, Record.versions]
  · have hshows : (after (events ++ [.caughtUp [edited.created, removed.created]])).messageMap.get
        edited.id = some edited.newest := hc edited (by simp [twoMessages])
    exact absurd hshows (by decide)
  · exact hn events [.caughtUp [edited.created, removed.created]] [] rfl ['n'] _ _ rfl nofun rfl rfl

end ConversationSocket

end Chatspace.Frontend
