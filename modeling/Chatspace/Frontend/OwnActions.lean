import Chatspace.Reactive.Runs
import Chatspace.Frontend.StoreConvergence

/-!
# Does an author see an own edit?

`MessageList` shows the history of `useMessageHistory` and, over it, the live messages of
`useConversationSocket`.  An own edit or deletion is put into the history only.

* `mergedMessages` — what is shown;
* `ViewEvent` — what changes the two maps;
* `shown_iff` — the live copy of a message is shown, and that of the history where there is none;
* `UpToDate` — no older copy is live when the action completes, and none comes afterwards;
* `own_action_visible` — **the action stays visible exactly where this is so;**
* `stale_live_copy` — the message as it was created is live.
-/

namespace Chatspace.Frontend

open ConversationSocket

/-- `messages` of `MessageList`. -/
def mergedMessages (historyMessages liveMessages : List Message) : List Message :=
  if liveMessages = [] then historyMessages
  else
    sortedMessages
      (upsertMessages (upsertMessages emptyMessageMap historyMessages) liveMessages)

/-- The two maps of an open channel. -/
structure MessageListView where
  messageMap : MessageMap
  live : ConversationSocket.State

/-- What changes them. -/
inductive ViewEvent where
  | live (delivery : Delivery)
  | initialLoad (items : List Message)
  | loadOlder (items : List Message)
  | sendMessage (message : Message)
  | editMessage (updated : Message)
  | deleteMessage (messageId : Text) (current : ConversationTarget) (deletedAt : Text)

namespace MessageListView

variable (v : MessageListView)

def messages : List Message := mergedMessages (sortedMessages v.messageMap) v.live.messages

def handle : ViewEvent → MessageListView
  | .live delivery => { v with live := v.live.deliver delivery }
  | .initialLoad items => { v with messageMap := upsertMessages emptyMessageMap items }
  | .loadOlder items => { v with messageMap := upsertMessages v.messageMap items }
  | .sendMessage message => { v with messageMap := upsertMessages v.messageMap [message] }
  | .editMessage updated => { v with messageMap := upsertMessages v.messageMap [updated] }
  | .deleteMessage messageId current deletedAt =>
    { v with messageMap := applyDeleted v.messageMap ⟨messageId, current, deletedAt⟩ }

def step (e : ViewEvent) : Option MessageListView := some (v.handle e)

/-- Every message of the two maps is under its own id. -/
structure Keyed : Prop where
  messageMap : v.messageMap.Keyed
  live : v.live.messageMap.Keyed

/-- The copy of a message that is shown. -/
def copy (id : Text) : Option Message := (v.live.messageMap.get id).or (v.messageMap.get id)

end MessageListView

/-- A successful action of the author of a message. -/
inductive OwnAction (r : Record) where
  /-- The edit that made version `r.edits[i]`. -/
  | edited (i : Fin r.edits.length)
  | deleted (current : ConversationTarget) (deletedAt : Text)

namespace OwnAction

variable {r : Record} (a : OwnAction r)

/-- What the hook does when the call completes. -/
def completion : ViewEvent :=
  match a with
  | edited i => .editMessage r.edits[i]
  | deleted current deletedAt => .deleteMessage r.id current deletedAt

/-- This copy is the message as the action left it, or a newer one. -/
def NotOlder (m : Message) : Prop :=
  match a with
  | edited i => m ∈ r.edits.drop i ∨ m.deletedAt ≠ none
  | deleted _ _ => m.deletedAt ≠ none

/-- The message is shown, and not in an older version. -/
def Visible (v : MessageListView) : Prop :=
  (∃ m ∈ v.messages, m.id = r.id) ∧ ∀ m ∈ v.messages, m.id = r.id → a.NotOlder m

/-- The copies that these messages leave in a map are not older. -/
def Brings (items : List Message) : Prop :=
  ∀ m, (items.filter fun m => m.id = r.id).getLast? = some m → a.NotOlder m

/-- What comes is not older than the action: live always, in the history where no copy is live. -/
def UpToDate (v : MessageListView) : ViewEvent → Prop
  | .live delivery => a.Brings delivery.versions
  | .initialLoad items => v.live.messageMap.get r.id = none →
      (∃ m ∈ items, m.id = r.id) ∧ a.Brings items
  | .loadOlder items => v.live.messageMap.get r.id = none → a.Brings items
  | .sendMessage message => v.live.messageMap.get r.id = none → a.Brings [message]
  | .editMessage updated => v.live.messageMap.get r.id = none → a.Brings [updated]
  | .deleteMessage .. => True

end OwnAction

variable {v v' : MessageListView} {r : Record} {a : OwnAction r} {e : ViewEvent} {id : Text}
  {message : Message}

/-! ### What is shown -/

theorem MessageListView.Keyed.handle (hk : v.Keyed) (e : ViewEvent) : (v.handle e).Keyed := by
  cases e with
  | live delivery =>
    refine ⟨hk.messageMap, ?_⟩
    show (v.live.deliver delivery).messageMap.Keyed
    cases delivery with
    | frame frame =>
      cases frame with
      | messageCreated data => exact hk.live.upsert [data]
      | messageEdited data => exact hk.live.upsert [data]
      | messageDeleted data => exact hk.live.applyDeleted data
      | other => exact hk.live
    | caughtUp missed =>
      simp only [State.deliver, State.caughtUp]
      split
      · exact hk.live
      · exact hk.live.upsert missed
    | catchUpFailed message => exact hk.live
  | initialLoad items => exact ⟨MessageMap.Keyed.empty.upsert items, hk.live⟩
  | loadOlder items => exact ⟨hk.messageMap.upsert items, hk.live⟩
  | sendMessage message => exact ⟨hk.messageMap.upsert [message], hk.live⟩
  | editMessage updated => exact ⟨hk.messageMap.upsert [updated], hk.live⟩
  | deleteMessage messageId current deletedAt =>
    exact ⟨hk.messageMap.applyDeleted ⟨messageId, current, deletedAt⟩, hk.live⟩

/-- The live copy is shown, and that of the history where there is none. -/
theorem shown_iff (hk : v.Keyed) :
    message ∈ v.messages ∧ message.id = id ↔ v.copy id = some message := by
  unfold MessageListView.messages mergedMessages MessageListView.copy
  split
  · rename_i hempty
    have hlive : v.live.messageMap.get id = none := by
      rw [← hk.live.getLast?_sortedMessages]
      show ((v.live.messages.filter fun m => m.id = id).getLast?) = none
      rw [hempty]
      rfl
    rw [hlive, Option.none_or]
    exact hk.messageMap.mem_sortedMessages
  · rw [((MessageMap.Keyed.empty.upsert _).upsert _).mem_sortedMessages, get_upsertMessages,
      get_upsertMessages]
    show (Option.or (((sortedMessages v.live.messageMap).filter _).getLast?) _) = _ ↔ _
    rw [hk.live.getLast?_sortedMessages, hk.messageMap.getLast?_sortedMessages]
    show (_ : Option Message).or (Option.or _ none) = _ ↔ _
    rw [Option.or_none]

theorem visible_iff (hk : v.Keyed) : a.Visible v ↔ ∃ m, v.copy r.id = some m ∧ a.NotOlder m := by
  constructor
  · intro h
    obtain ⟨⟨m, hm, hid⟩, hall⟩ := h
    exact ⟨m, (shown_iff hk).mp ⟨hm, hid⟩, hall m hm hid⟩
  · intro h
    obtain ⟨m, hcopy, hnew⟩ := h
    obtain ⟨hm, hid⟩ := (shown_iff hk).mpr hcopy
    refine ⟨⟨m, hm, hid⟩, fun m' hm' hid' => ?_⟩
    have hsame := (shown_iff hk).mp ⟨hm', hid'⟩
    rw [hcopy] at hsame
    cases hsame
    exact hnew

/-! ### One step -/

/-- A new copy over a copy that is not older. -/
theorem or_iff {P : Message → Prop} {new old : Option Message} (hold : ∃ m, old = some m ∧ P m) :
    (∀ m, new = some m → P m) ↔ ∃ m, new.or old = some m ∧ P m := by
  cases new with
  | none =>
    rw [Option.none_or]
    exact iff_of_true nofun hold
  | some m => simp

theorem filter_eq_nil_iff {items : List Message} :
    (items.filter fun m => m.id = id).getLast? = none ↔ ¬ ∃ m ∈ items, m.id = id := by
  simp

/-- What a delivery does to the live copy. -/
theorem deliver_iff (hold : ∃ m, v.copy r.id = some m ∧ a.NotOlder m) (delivery : Delivery) :
    a.Brings delivery.versions ↔
      ∃ m, (v.handle (.live delivery)).copy r.id = some m ∧ a.NotOlder m := by
  have hcopy : (v.handle (.live delivery)).copy r.id =
      ((v.live.deliver delivery).messageMap.get r.id).or (v.messageMap.get r.id) := rfl
  rw [hcopy, get_deliver]
  cases hdel : delivery.deletion with
  | none =>
    show _ ↔ ∃ m, (Option.or _ _).or _ = some m ∧ _
    rw [Option.or_assoc]
    exact or_iff hold
  | some payload =>
    have hnone : a.Brings delivery.versions := by
      rw [versions_of_deletion hdel]
      exact nofun
    refine iff_of_true hnone ?_
    by_cases hid : payload.id = r.id
    · simp only [hid, if_true, Option.some_or, Option.some.injEq, exists_eq_left']
      cases a with
      | edited i => exact .inr nofun
      | deleted current deletedAt => exact nofun
    · simp only [hid, if_false]
      exact hold

/-- What messages that come into the history do. -/
theorem upsert_iff (hold : ∃ m, v.copy r.id = some m ∧ a.NotOlder m) (items : List Message) :
    (v.live.messageMap.get r.id = none → a.Brings items) ↔
      ∃ m, (v.live.messageMap.get r.id).or ((upsertMessages v.messageMap items).get r.id) = some m ∧
        a.NotOlder m := by
  rw [get_upsertMessages]
  unfold MessageListView.copy at hold
  cases hlive : v.live.messageMap.get r.id with
  | none =>
    rw [hlive, Option.none_or] at hold
    rw [Option.none_or, imp_iff_right rfl]
    exact or_iff hold
  | some m =>
    rw [hlive, Option.some_or] at hold
    rw [Option.some_or]
    exact iff_of_true nofun hold

theorem initialLoad_iff (hold : ∃ m, v.copy r.id = some m ∧ a.NotOlder m) (items : List Message) :
    a.UpToDate v (.initialLoad items) ↔
      ∃ m, (v.handle (.initialLoad items)).copy r.id = some m ∧ a.NotOlder m := by
  have hcopy : (v.handle (.initialLoad items)).copy r.id = (v.live.messageMap.get r.id).or
      ((upsertMessages emptyMessageMap items).get r.id) := rfl
  have hempty : (upsertMessages emptyMessageMap items).get r.id =
      (items.filter fun m => m.id = r.id).getLast? := by
    rw [get_upsertMessages]
    exact Option.or_none
  rw [hcopy, hempty, OwnAction.UpToDate, OwnAction.Brings]
  unfold MessageListView.copy at hold
  cases hlive : v.live.messageMap.get r.id with
  | none =>
    rw [Option.none_or, imp_iff_right rfl]
    cases hlast : (items.filter fun m => m.id = r.id).getLast? with
    | none => simp [filter_eq_nil_iff.mp hlast]
    | some m =>
      have hmem : ∃ m ∈ items, m.id = r.id := by
        by_contra h
        rw [filter_eq_nil_iff.mpr h] at hlast
        cases hlast
      simp [hmem]
  | some m =>
    rw [hlive, Option.some_or] at hold
    rw [Option.some_or]
    exact iff_of_true nofun hold

/-- An own deletion, of this message or of another one. -/
theorem delete_visible (hold : ∃ m, v.copy r.id = some m ∧ a.NotOlder m) (messageId : Text)
    (current : ConversationTarget) (deletedAt : Text) :
    ∃ m, (v.handle (.deleteMessage messageId current deletedAt)).copy r.id = some m ∧
      a.NotOlder m := by
  have hcopy : (v.handle (.deleteMessage messageId current deletedAt)).copy r.id =
      (v.live.messageMap.get r.id).or
        ((applyDeleted v.messageMap ⟨messageId, current, deletedAt⟩).get r.id) := rfl
  rw [hcopy, get_applyDeleted]
  unfold MessageListView.copy at hold
  cases hlive : v.live.messageMap.get r.id with
  | none =>
    rw [hlive, Option.none_or] at hold
    rw [Option.none_or]
    split
    · refine ⟨_, rfl, ?_⟩
      cases a with
      | edited i => exact .inr nofun
      | deleted current deletedAt => exact nofun
    · exact hold
  | some m =>
    rw [hlive, Option.some_or] at hold
    rw [Option.some_or]
    exact hold

/-- **A step keeps the action visible exactly where what it brings is up to date.** -/
theorem upToDate_iff (hk : v.Keyed) (hvisible : a.Visible v) (e : ViewEvent) :
    a.UpToDate v e ↔ a.Visible (v.handle e) := by
  rw [visible_iff hk] at hvisible
  rw [visible_iff (hk.handle e)]
  cases e with
  | live delivery => exact deliver_iff hvisible delivery
  | initialLoad items => exact initialLoad_iff hvisible items
  | loadOlder items => exact upsert_iff hvisible items
  | sendMessage message => exact upsert_iff hvisible [message]
  | editMessage updated => exact upsert_iff hvisible [updated]
  | deleteMessage messageId current deletedAt =>
    exact iff_of_true trivial (delete_visible hvisible messageId current deletedAt)

/-- The message as the action leaves it is in the history. -/
theorem get_completion (v : MessageListView) (a : OwnAction r) :
    ∃ m, (v.handle a.completion).messageMap.get r.id = some m ∧ a.NotOlder m := by
  cases a with
  | edited i =>
    have hid : (r.edits[(i : ℕ)]).id = r.id := r.sameId _ (List.getElem_mem i.isLt)
    refine ⟨r.edits[i], ?_, .inl ?_⟩
    · show (upsertMessages v.messageMap [r.edits[i]]).get r.id = _
      rw [get_upsertMessages]
      simp [hid]
    · rw [List.drop_eq_getElem_cons i.isLt]
      exact List.mem_cons_self
  | deleted current deletedAt =>
    refine ⟨tombstone (v.messageMap.get r.id) ⟨r.id, current, deletedAt⟩, ?_, nofun⟩
    show (applyDeleted v.messageMap ⟨r.id, current, deletedAt⟩).get r.id = _
    rw [get_applyDeleted]
    exact if_pos rfl

/-- The action is visible when it completes exactly where no older copy is live. -/
theorem completion_iff (hk : v.Keyed) :
    (∀ m, v.live.messageMap.get r.id = some m → a.NotOlder m) ↔
      a.Visible (v.handle a.completion) := by
  rw [visible_iff (hk.handle a.completion)]
  have hlive : (v.handle a.completion).live = v.live := by cases a <;> rfl
  unfold MessageListView.copy
  rw [hlive]
  exact or_iff (get_completion v a)

/-! ### Runs -/

/-- **For every live map and every history map and whatever happens afterwards, the author sees the
action from its completion on exactly where no older copy is live when it completes, and nothing
older comes afterwards.** -/
theorem own_action_visible (hk : v.Keyed) (a : OwnAction r) (es : List ViewEvent) :
    ((∀ m, v.live.messageMap.get r.id = some m → a.NotOlder m) ∧
      ∀ x ∈ Reactive.transitions MessageListView.step (v.handle a.completion) es,
        a.UpToDate x.1 x.2.1) ↔
    (a.Visible (v.handle a.completion) ∧
      ∀ x ∈ Reactive.transitions MessageListView.step (v.handle a.completion) es,
        a.Visible x.2.2) := by
  rw [completion_iff hk]
  apply and_congr_right
  intro hvisible
  refine Reactive.transitions_iff (I := fun v => v.Keyed ∧ a.Visible v) (C := a.UpToDate)
    (Q := fun _ _ v' => a.Visible v') ?_ ?_ ⟨hk.handle a.completion, hvisible⟩ es
  · intro v e v' hi hstep
    cases hstep
    exact upToDate_iff hi.1 hi.2 e
  · intro v e v' hi hnew hstep
    cases hstep
    exact ⟨hi.1.handle e, (upToDate_iff hi.1 hi.2 e).mp hnew⟩

/-- A channel just opened. -/
def openedView : MessageListView := ⟨emptyMessageMap, opened⟩

theorem keyed_openedView : openedView.Keyed := ⟨MessageMap.Keyed.empty, MessageMap.Keyed.empty⟩

/-- The history alone has the message when its edit is answered. -/
def onlyInHistory : MessageListView := openedView.handle (.initialLoad [edited.created])

/-- The author's own edit. -/
def ownEdit : OwnAction edited := .edited ⟨0, by decide⟩

/-- The live event of the edit comes after the answer. -/
theorem own_action_visible_late :
    ownEdit.Visible (onlyInHistory.handle ownEdit.completion) ∧
      ∀ x ∈ Reactive.transitions MessageListView.step (onlyInHistory.handle ownEdit.completion)
        [.live (.frame (.messageEdited edited.newest))], ownEdit.Visible x.2.2 := by
  refine (own_action_visible (keyed_openedView.handle _) ownEdit _).mp ⟨nofun, fun x hx => ?_⟩
  obtain rfl := List.mem_singleton.mp hx
  intro m hm
  cases hm
  exact .inl (by decide)

/-- **The message as it was created is live, and its own edit completes: it is shown unedited.** -/
theorem stale_live_copy :
    ((openedView.handle (.live (.frame (.messageCreated edited.created)))).handle
        ownEdit.completion).messages = [edited.created] ∧
    ¬ ownEdit.Visible ((openedView.handle (.live (.frame (.messageCreated edited.created)))).handle
        ownEdit.completion) := by
  have hmessages : ((openedView.handle (.live (.frame (.messageCreated edited.created)))).handle
      ownEdit.completion).messages = [edited.created] := by decide
  refine ⟨hmessages, fun h => ?_⟩
  have hold := h.2 edited.created (by rw [hmessages]; exact List.mem_cons_self) rfl
  rcases hold with hmem | hdel
  · exact absurd hmem (by decide)
  · exact hdel rfl

end Chatspace.Frontend
