import Chatspace.Frontend.Frames
import Chatspace.Store.InsertionMap
import Mathlib.Data.Char
import Mathlib.Data.List.Induction
import Mathlib.Data.List.Lex
import Mathlib.Data.List.Sort

/-!
# `ws/messageStore.ts`

* `upsertMessages`, `applyDeleted` — the two ways a message gets into the map;
* `get_upsertMessages`, `get_applyDeleted` — what the map shows after each;
* `sortedMessages`, `latestMessageId`;
* `Keyed` — every message is under its own id: then the list has what the map has.
-/

namespace Chatspace.Frontend

open Store

/-- A `Map` from ids to messages, as its entries in the order of insertion. -/
abbrev MessageMap : Type := List (Text × Message)

namespace MessageMap

def get (map : MessageMap) (id : Text) : Option Message := map.lookup id

/-- `Map.prototype.set`. -/
def set (map : MessageMap) (id : Text) (message : Message) : MessageMap :=
  if id ∈ map.map Prod.fst then map.map fun e => if e.1 = id then (id, message) else e
  else map ++ [(id, message)]

end MessageMap

def emptyMessageMap : MessageMap := []

def upsertMessages (map : MessageMap) (messages : List Message) : MessageMap :=
  messages.foldl (fun next message => next.set message.id message) map

/-- The row `applyDeleted` puts in the place of `existing`. -/
def tombstone (existing : Option Message) (payload : MessageDeletedPayload) : Message where
  id := payload.id
  channelId := (existing.bind Message.channelId).or
    (match payload.conversation with
      | .channel channelId => some channelId
      | .dm _ => none)
  recipientId := (existing.bind Message.recipientId).or
    (match payload.conversation with
      | .channel _ => none
      | .dm userId => some userId)
  senderId := (existing.map Message.senderId).getD []
  content := []
  media := []
  createdAt := (existing.map Message.createdAt).getD payload.deletedAt
  editedAt := existing.bind Message.editedAt
  deletedAt := some payload.deletedAt

def applyDeleted (map : MessageMap) (payload : MessageDeletedPayload) : MessageMap :=
  map.set payload.id (tombstone (map.get payload.id) payload)

def sortedMessages (map : MessageMap) : List Message :=
  (map.map Prod.snd).insertionSort fun a b => a.id ≤ b.id

def latestMessageId (map : MessageMap) : Option Text :=
  (map.map Prod.fst).foldl (fun latest id =>
    match latest with
    | none => some id
    | some l => if l < id then some id else some l) none

variable {map : MessageMap} {id : Text} {message : Message}

theorem set_eq : map.set id message = InsertionMap.set map id message := by
  unfold MessageMap.set InsertionMap.set
  congr

theorem get_eq : map.get id = InsertionMap.get map id := by
  unfold MessageMap.get InsertionMap.get
  congr
  exact lawful_beq_subsingleton _ _

@[simp] theorem get_set_self : (map.set id message).get id = some message := by
  rw [get_eq, set_eq, InsertionMap.get_set_self]

theorem get_set_of_ne {id' : Text} (h : id' ≠ id) :
    (map.set id message).get id' = map.get id' := by
  rw [get_eq, set_eq, InsertionMap.get_set_of_ne h, get_eq]

/-- After an upsert the map shows the last of the messages with this id. -/
theorem get_upsertMessages (messages : List Message) :
    (upsertMessages map messages).get id =
      ((messages.filter fun m => m.id = id).getLast?).or (map.get id) := by
  induction messages using List.reverseRecOn with
  | nil => rfl
  | append_singleton messages m ih =>
    have hstep : upsertMessages map (messages ++ [m]) =
        (upsertMessages map messages).set m.id m := by
      simp [upsertMessages]
    rw [hstep]
    by_cases hm : m.id = id
    · subst hm
      simp
    · rw [get_set_of_ne (Ne.symm hm), ih]
      simp [hm]

theorem get_applyDeleted (payload : MessageDeletedPayload) :
    (applyDeleted map payload).get id =
      if payload.id = id then some (tombstone (map.get id) payload) else map.get id := by
  unfold applyDeleted
  split
  · rename_i h
    subst h
    simp
  · rename_i h
    rw [get_set_of_ne (Ne.symm h)]

theorem get_upsert_ne_none {messages : List Message} :
    (upsertMessages map messages).get id ≠ none ↔
      (∃ m ∈ messages, m.id = id) ∨ map.get id ≠ none := by
  rw [get_upsertMessages]
  simp only [ne_eq, Option.or_eq_none_iff, List.getLast?_eq_none_iff, List.filter_eq_nil_iff,
    decide_eq_true_eq, not_and_or]
  apply or_congr_left
  push Not
  rfl

theorem get_applyDeleted_ne_none {payload : MessageDeletedPayload} :
    (applyDeleted map payload).get id ≠ none ↔ payload.id = id ∨ map.get id ≠ none := by
  rw [get_applyDeleted]
  split
  · rename_i h
    simp [h]
  · rename_i h
    simp [h]

/-! ### Maps whose entries are under their own ids -/

/-- Every message is under its own id, and once. -/
structure MessageMap.Keyed (map : MessageMap) : Prop where
  ids : ∀ e ∈ map, e.2.id = e.1
  distinct : (map.map Prod.fst).Nodup

namespace MessageMap.Keyed

theorem empty : Keyed emptyMessageMap := ⟨nofun, .nil⟩

theorem set (hk : map.Keyed) (message : Message) : (map.set message.id message).Keyed where
  ids := by
    intro e he
    rw [set_eq] at he
    rcases InsertionMap.mem_set.mp he with rfl | ⟨-, he⟩
    · rfl
    · exact hk.ids e he
  distinct := by
    rw [set_eq]
    exact InsertionMap.nodup_keys_set hk.distinct

theorem upsert (hk : map.Keyed) (messages : List Message) :
    (upsertMessages map messages).Keyed := by
  induction messages generalizing map with
  | nil => exact hk
  | cons m messages ih => exact ih (hk.set m)

theorem applyDeleted (hk : map.Keyed) (payload : MessageDeletedPayload) :
    (applyDeleted map payload).Keyed :=
  hk.set (tombstone (map.get payload.id) payload)

/-- What is listed under an id is what the map has there. -/
theorem mem_sortedMessages (hk : map.Keyed) :
    message ∈ sortedMessages map ∧ message.id = id ↔ map.get id = some message := by
  unfold sortedMessages
  rw [get_eq, List.mem_insertionSort, InsertionMap.get_eq_some hk.distinct, List.mem_map]
  constructor
  · intro h
    obtain ⟨⟨e, he, rfl⟩, hid⟩ := h
    rw [← hid, hk.ids e he]
    exact he
  · intro h
    exact ⟨⟨(id, message), h, rfl⟩, hk.ids _ h⟩

/-- The last of the listed messages under an id is what the map has there. -/
theorem getLast?_sortedMessages (hk : map.Keyed) :
    ((sortedMessages map).filter fun m => m.id = id).getLast? = map.get id := by
  cases hlast : ((sortedMessages map).filter fun m => m.id = id).getLast? with
  | some m =>
    have hm := List.mem_filter.mp (List.mem_of_getLast? hlast)
    exact (hk.mem_sortedMessages.mp ⟨hm.1, of_decide_eq_true hm.2⟩).symm
  | none =>
    rw [List.getLast?_eq_none_iff, List.filter_eq_nil_iff] at hlast
    cases hget : map.get id with
    | none => rfl
    | some m =>
      obtain ⟨hm, hid⟩ := hk.mem_sortedMessages.mpr hget
      exact absurd (decide_eq_true hid) (hlast m hm)

end MessageMap.Keyed

end Chatspace.Frontend
