import Chatspace.Reactive.Runs
import Chatspace.Frontend.MessageHistory
import Chatspace.Frontend.TypingRelay

/-!
# Does the history of a conversation stay its own?

Of the requests of `useMessageHistory` only the initial load is cancelled when the target changes.
Every other answer is put into the map of whatever target is current when it comes.

* `Reached` — a cursor that the loaded pages lead to, one after the other;
* `Isolated` — the map and the cursor are of the current target, and no page was skipped;
* `Confined` — an answer is for the current target, and an older page goes on from a loaded one;
* `history_isolation` — **where every answer is confined, the history stays its own;**
* `leaked_page` — an older page of one conversation is answered under another.
-/

namespace Chatspace.Frontend

/-- The cursors that the loaded pages of a target lead to, from the first page on. -/
inductive Reached (target : ConversationTarget) (loaded : List LoadedPage) : Option Text → Prop
  | initialLoad {page : CursorPage} : ⟨target, none, page⟩ ∈ loaded →
      Reached target loaded page.nextCursor
  | loadOlder {cursor : Text} {page : CursorPage} : Reached target loaded (some cursor) →
      ⟨target, some cursor, page⟩ ∈ loaded → Reached target loaded page.nextCursor

/-- The map and the cursor have the data of the current target, and every page before the cursor is
in the map. -/
structure Isolated (home : Text → ConversationTarget) (s : MessageHistory) : Prop where
  messages : ∀ id, s.messageMap.get id ≠ none → s.target = some (home id)
  cursor : s.loaded = [] ∧ s.nextCursor = none ∨
    ∃ target, s.target = some target ∧ Reached target s.loaded s.nextCursor
  pages : ∀ l ∈ s.loaded, ∀ m ∈ l.page.items, s.messageMap.get m.id ≠ none

/-- The answer is for the current target; an older page was asked for with the cursor of a page that
is loaded. -/
def Confined (home : Text → ConversationTarget) (s : MessageHistory) : Request → Answer → Prop
  | .loadOlder target cursor, .page _ =>
    s.target = some target ∧ ∃ l ∈ s.loaded, l.page.nextCursor = some cursor
  | .performSend target .., .message _ => s.target = some target
  | .editMessage messageId _, .message _ => s.target = some (home messageId)
  | .deleteMessage messageId, .deleted _ => s.target = none ∨ s.target = some (home messageId)
  | _, _ => True

instance decidableConfined (home : Text → ConversationTarget) (s : MessageHistory) :
    (request : Request) → (answer : Answer) → Decidable (Confined home s request answer)
  | .loadOlder target cursor, .page _ =>
    inferInstanceAs (Decidable (s.target = some target ∧
      ∃ l ∈ s.loaded, l.page.nextCursor = some cursor))
  | .performSend target .., .message _ => inferInstanceAs (Decidable (s.target = some target))
  | .editMessage messageId _, .message _ =>
    inferInstanceAs (Decidable (s.target = some (home messageId)))
  | .deleteMessage messageId, .deleted _ =>
    inferInstanceAs (Decidable (s.target = none ∨ s.target = some (home messageId)))
  | .initialLoad .., _ | .loadOlder .., .message _ | .loadOlder .., .deleted _
  | .loadOlder .., .failed .. | .performSend .., .page _ | .performSend .., .deleted _
  | .performSend .., .failed .. | .editMessage .., .page _ | .editMessage .., .deleted _
  | .editMessage .., .failed .. | .deleteMessage _, .page _ | .deleteMessage _, .message _
  | .deleteMessage _, .failed .. => isTrue trivial

/-- The answer of the event, if it is one, is confined. -/
def ConfinedEvent (home : Text → ConversationTarget) (s : MessageHistory) : HistoryEvent → Prop
  | .answer k answer => ∀ request ∈ s.requests[k]?, Confined home s request answer
  | _ => True

instance decidableConfinedEvent (home : Text → ConversationTarget) (s : MessageHistory) :
    (e : HistoryEvent) → Decidable (ConfinedEvent home s e)
  | .answer k answer =>
    inferInstanceAs (Decidable (∀ request ∈ s.requests[k]?, Confined home s request answer))
  | .setTarget _ | .render | .retryInitialLoad | .loadOlder | .sendMessage .. | .retrySend _
  | .discardFailedSend _ | .editMessage .. | .deleteMessage _ => isTrue trivial

variable {home : Text → ConversationTarget} {s s' : MessageHistory} {target : ConversationTarget}
  {loaded loaded' : List LoadedPage} {cursor : Option Text} {map : MessageMap} {id : Text}

theorem Reached.mono (h : Reached target loaded cursor) (hsub : ∀ l ∈ loaded, l ∈ loaded') :
    Reached target loaded' cursor := by
  induction h with
  | initialLoad hmem => exact .initialLoad (hsub _ hmem)
  | loadOlder _ hmem ih => exact .loadOlder ih (hsub _ hmem)

/-! ### What is known of the hook -/

/-- What a run keeps. -/
structure Kept (home : Text → ConversationTarget) (s : MessageHistory) : Prop where
  isolated : Isolated home s
  walked : ∀ l ∈ s.loaded, ∃ target, s.target = some target ∧
    Reached target s.loaded l.page.nextCursor
  /-- The initial load that is not cancelled is that of the current target. -/
  initialLoad : ∀ target, .initialLoad target false ∈ s.requests → s.target = some target

theorem kept_unmounted (currentUserId : Option Text) :
    Kept home (.unmounted currentUserId) where
  isolated := ⟨fun _ h => absurd rfl h, .inl ⟨rfl, rfl⟩, nofun⟩
  walked := nofun
  initialLoad := nofun

theorem kept_runEffect (s : MessageHistory) (target : Option ConversationTarget) :
    Kept home (s.runEffect target) where
  isolated := ⟨fun _ h => absurd rfl h, .inl ⟨rfl, rfl⟩, nofun⟩
  walked := nofun
  initialLoad target' hmem := by
    rcases List.mem_append.mp hmem with hmem | hmem
    · obtain ⟨request, -, hcancel⟩ := List.mem_map.mp hmem
      cases request <;> cases hcancel
    · obtain ⟨target'', htarget, heq⟩ := List.mem_map.mp hmem
      cases heq
      exact Option.mem_toList.mp htarget

/-- What changes neither the map nor the cursor, and starts no initial load. -/
theorem Kept.frame (hk : Kept home s) (htarget : s'.target = s.target)
    (hmap : s'.messageMap = s.messageMap) (hcursor : s'.nextCursor = s.nextCursor)
    (hloaded : s'.loaded = s.loaded)
    (hrequests : ∀ target, .initialLoad target false ∈ s'.requests →
      .initialLoad target false ∈ s.requests) : Kept home s' where
  isolated := by
    refine ⟨?_, ?_, ?_⟩
    · rw [hmap, htarget]
      exact hk.isolated.messages
    · rw [hloaded, hcursor, htarget]
      exact hk.isolated.cursor
    · rw [hloaded, hmap]
      exact hk.isolated.pages
  walked := by
    rw [hloaded, htarget]
    exact hk.walked
  initialLoad target hmem := htarget.trans (hk.initialLoad target (hrequests target hmem))

/-- A request other than an initial load is sent. -/
theorem mem_initialLoad_append {requests : List Request} {request : Request}
    (hne : ∀ target, request ≠ .initialLoad target false) (target : ConversationTarget)
    (hmem : .initialLoad target false ∈ requests ++ [request]) :
    .initialLoad target false ∈ requests := by
  rcases List.mem_append.mp hmem with hmem | hmem
  · exact hmem
  · exact absurd (List.mem_singleton.mp hmem).symm (hne target)

/-- Messages of the current target come into the map. -/
theorem Kept.stored (hk : Kept home s) (htarget : s'.target = s.target)
    (hcursor : s'.nextCursor = s.nextCursor) (hloaded : s'.loaded = s.loaded)
    (hrequests : s'.requests = s.requests)
    (hold : ∀ id, s.messageMap.get id ≠ none → s'.messageMap.get id ≠ none)
    (hnew : ∀ id, s'.messageMap.get id ≠ none →
      s.target = some (home id) ∨ s.messageMap.get id ≠ none) : Kept home s' where
  isolated := by
    refine ⟨fun id hid => ?_, ?_, fun l hl m hm => ?_⟩
    · rw [htarget]
      exact (hnew id hid).elim (fun h => h) (hk.isolated.messages id)
    · rw [hloaded, hcursor, htarget]
      exact hk.isolated.cursor
    · rw [hloaded] at hl
      exact hold _ (hk.isolated.pages l hl m hm)
  walked := by
    rw [hloaded, htarget]
    exact hk.walked
  initialLoad := by
    rw [hrequests, htarget]
    exact hk.initialLoad

theorem Kept.upserted (hk : Kept home s) (htarget : s'.target = s.target)
    (hcursor : s'.nextCursor = s.nextCursor) (hloaded : s'.loaded = s.loaded)
    (hrequests : s'.requests = s.requests) {message : Message}
    (hmap : s'.messageMap = upsertMessages s.messageMap [message])
    (hhome : s.target = some (home message.id)) : Kept home s' := by
  apply hk.stored htarget hcursor hloaded hrequests
  · intro id hid
    rw [hmap]
    exact get_upsert_ne_none.mpr (.inr hid)
  · intro id hid
    rw [hmap, get_upsert_ne_none] at hid
    rcases hid with ⟨m, hm, rfl⟩ | hid
    · rw [List.mem_singleton.mp hm]
      exact .inl hhome
    · exact .inr hid

/-! ### The callbacks -/

theorem targetKeyOf_inj {target target' : Option ConversationTarget} :
    targetKeyOf target = targetKeyOf target' ↔ target = target' :=
  (Option.map_injective fun _ _ h => topicKey_inj.mp h).eq_iff

theorem kept_setTarget (hk : Kept home s) (target : Option ConversationTarget) :
    Kept home (s.setTarget target) := by
  unfold MessageHistory.setTarget
  split
  · rename_i hkey
    exact hk.frame (targetKeyOf_inj.mp hkey) rfl rfl rfl fun _ => id
  · exact kept_runEffect s target

theorem kept_loadOlder (hk : Kept home s) : Kept home s.loadOlder := by
  unfold MessageHistory.loadOlder
  split
  · split
    · exact hk
    · exact hk.frame rfl rfl rfl rfl (mem_initialLoad_append fun _ h => by cases h)
  · exact hk

theorem kept_performSend (hk : Kept home s) (tempId content : Text) (mediaIds : List Text)
    (idempotencyKey : Text) :
    Kept home (s.performSend tempId content mediaIds idempotencyKey) := by
  unfold MessageHistory.performSend
  split
  · exact hk
  · exact hk.frame rfl rfl rfl rfl (mem_initialLoad_append fun _ h => by cases h)

theorem kept_sendMessage (hk : Kept home s) (content : Text) (mediaIds : List Text)
    (tempId idempotencyKey createdAt : Text) :
    Kept home (s.sendMessage content mediaIds tempId idempotencyKey createdAt) := by
  unfold MessageHistory.sendMessage
  split
  · exact hk.frame rfl rfl rfl rfl fun _ => id
  · show Kept home (if _ then _ else _)
    split
    · exact hk.frame rfl rfl rfl rfl fun _ => id
    · show Kept home (MessageHistory.performSend _ _ _ _ _)
      apply kept_performSend
      exact hk.frame rfl rfl rfl rfl fun _ => id

theorem kept_retrySend (hk : Kept home s) (tempId : Text) : Kept home (s.retrySend tempId) := by
  unfold MessageHistory.retrySend
  split
  · exact hk
  · show Kept home (MessageHistory.performSend _ _ _ _ _)
    apply kept_performSend
    exact hk.frame rfl rfl rfl rfl fun _ => id

theorem kept_editMessage (hk : Kept home s) (messageId content : Text) :
    Kept home (s.editMessage messageId content) := by
  unfold MessageHistory.editMessage
  split
  · exact hk.frame rfl rfl rfl rfl fun _ => id
  · exact hk.frame rfl rfl rfl rfl (mem_initialLoad_append fun _ h => by cases h)

/-! ### The answers -/

/-- The first page replaces the map. -/
theorem kept_initialLoad {page : CursorPage} (htarget : s.target = some target)
    (hserves : ∀ m ∈ page.items, home m.id = target)
    (hinitial : ∀ target, .initialLoad target false ∈ s.requests → s.target = some target) :
    Kept home (s.complete (.initialLoad target false) (.page page)) := by
  have hreached : Reached target [⟨target, none, page⟩] page.nextCursor :=
    .initialLoad List.mem_cons_self
  refine ⟨⟨fun id hid => ?_, .inr ⟨target, htarget, hreached⟩, fun l hl m hm => ?_⟩, fun l hl => ?_,
    hinitial⟩
  · rcases get_upsert_ne_none.mp hid with ⟨m, hm, rfl⟩ | hid
    · rw [hserves m hm]
      exact htarget
    · exact absurd rfl hid
  · rw [List.mem_singleton.mp hl] at hm
    exact get_upsert_ne_none.mpr (.inl ⟨m, hm, rfl⟩)
  · rw [List.mem_singleton.mp hl]
    exact ⟨target, htarget, hreached⟩

/-- A page that goes on from a loaded one. -/
theorem kept_older (hk : Kept home s) {cursor : Text} {page : CursorPage}
    (hserves : ∀ m ∈ page.items, home m.id = target)
    (hconfined : Confined home s (.loadOlder target cursor) (.page page)) :
    Kept home (s.complete (.loadOlder target cursor) (.page page)) := by
  obtain ⟨htarget, l₀, hl₀, hcursor⟩ := hconfined
  obtain ⟨target', htarget', hwalked⟩ := hk.walked l₀ hl₀
  obtain rfl : target' = target := Option.some.inj (htarget'.symm.trans htarget)
  rw [hcursor] at hwalked
  have hsub : ∀ l ∈ s.loaded, l ∈ s.loaded ++ [⟨target', some cursor, page⟩] := fun l hl =>
    List.mem_append_left _ hl
  have hreached : Reached target' (s.loaded ++ [⟨target', some cursor, page⟩]) page.nextCursor :=
    .loadOlder (hwalked.mono hsub) (List.mem_append_right _ List.mem_cons_self)
  refine ⟨⟨fun id hid => ?_, .inr ⟨target', htarget, hreached⟩, fun l hl m hm => ?_⟩,
    fun l hl => ?_, hk.initialLoad⟩
  · rcases get_upsert_ne_none.mp hid with ⟨m, hm, rfl⟩ | hid
    · rw [hserves m hm]
      exact htarget
    · exact hk.isolated.messages id hid
  · apply get_upsert_ne_none.mpr
    rcases List.mem_append.mp hl with hl | hl
    · exact .inr (hk.isolated.pages l hl m hm)
    · rw [List.mem_singleton.mp hl] at hm
      exact .inl ⟨m, hm, rfl⟩
  · rcases List.mem_append.mp hl with hl | hl
    · obtain ⟨target, htarget'', hl⟩ := hk.walked l hl
      exact ⟨target, htarget'', hl.mono hsub⟩
    · rw [List.mem_singleton.mp hl]
      exact ⟨target', htarget, hreached⟩

theorem kept_deleted (hk : Kept home s) {messageId now : Text}
    (hconfined : Confined home s (.deleteMessage messageId) (.deleted now)) :
    Kept home (s.complete (.deleteMessage messageId) (.deleted now)) := by
  cases htarget : s.target with
  | none =>
    have hcomplete : s.complete (.deleteMessage messageId) (.deleted now) = s := by
      simp only [MessageHistory.complete, htarget]
    rw [hcomplete]
    exact hk
  | some current =>
    have hcomplete : s.complete (.deleteMessage messageId) (.deleted now) =
        { s with messageMap := applyDeleted s.messageMap ⟨messageId, current, now⟩ } := by
      simp only [MessageHistory.complete, htarget]
    rw [hcomplete]
    have hhome : s.target = some (home messageId) := by
      rcases hconfined with hnone | hhome
      · rw [htarget] at hnone
        cases hnone
      · exact hhome
    refine hk.stored rfl rfl rfl rfl ?_ ?_
    · intro id hid
      exact get_applyDeleted_ne_none.mpr (.inr hid)
    · intro id hid
      rcases get_applyDeleted_ne_none.mp hid with rfl | hid
      · exact .inl hhome
      · exact .inr hid

/-- **A confined answer keeps the history the current target's own.** -/
theorem kept_complete (hk : Kept home s) {request : Request} {answer : Answer}
    (hinitial : ∀ target, request = .initialLoad target false → s.target = some target)
    (hserves : serves home request answer = true) (hconfined : Confined home s request answer) :
    Kept home (s.complete request answer) := by
  cases request with
  | initialLoad target cancelled =>
    cases cancelled with
    | true =>
      cases answer with
      | page page => exact hk
      | failed detail retryAfterSeconds => exact hk
      | message message => cases hserves
      | deleted now => cases hserves
    | false =>
      cases answer with
      | page page =>
        have hhome : ∀ m ∈ page.items, home m.id = target := by
          simpa [serves] using hserves
        exact kept_initialLoad (hinitial target rfl) hhome hk.initialLoad
      | failed detail retryAfterSeconds => exact hk.frame rfl rfl rfl rfl fun _ => id
      | message message => cases hserves
      | deleted now => cases hserves
  | loadOlder target cursor =>
    cases answer with
    | page page =>
      have hhome : ∀ m ∈ page.items, home m.id = target := by
        simpa [serves] using hserves
      exact kept_older hk hhome hconfined
    | failed detail retryAfterSeconds => exact hk.frame rfl rfl rfl rfl fun _ => id
    | message message => cases hserves
    | deleted now => cases hserves
  | performSend target tempId content mediaIds idempotencyKey =>
    cases answer with
    | message message =>
      have hhome : home message.id = target := of_decide_eq_true hserves
      refine hk.upserted rfl rfl rfl rfl rfl ?_
      rw [hhome]
      exact hconfined
    | failed detail retryAfterSeconds => exact hk.frame rfl rfl rfl rfl fun _ => id
    | page page => cases hserves
    | deleted now => cases hserves
  | editMessage messageId content =>
    cases answer with
    | message updated =>
      have hid : updated.id = messageId := of_decide_eq_true hserves
      refine hk.upserted rfl rfl rfl rfl rfl ?_
      rw [hid]
      exact hconfined
    | failed detail retryAfterSeconds => exact hk.frame rfl rfl rfl rfl fun _ => id
    | page page => cases hserves
    | deleted now => cases hserves
  | deleteMessage messageId =>
    cases answer with
    | deleted now => exact kept_deleted hk hconfined
    | failed detail retryAfterSeconds => exact hk.frame rfl rfl rfl rfl fun _ => id
    | page page => cases hserves
    | message message => cases hserves

/-! ### Runs -/

theorem kept_step (hk : Kept home s) {e : HistoryEvent} (hconfined : ConfinedEvent home s e)
    (hstep : s.step home e = some s') : Kept home s' := by
  cases e with
  | setTarget target =>
    cases hstep
    exact kept_setTarget hk target
  | render =>
    cases hstep
    exact hk.frame rfl rfl rfl rfl fun _ => id
  | retryInitialLoad =>
    cases hstep
    exact kept_runEffect s s.target
  | loadOlder =>
    cases hstep
    exact kept_loadOlder hk
  | sendMessage content mediaIds tempId idempotencyKey createdAt =>
    cases hstep
    exact kept_sendMessage hk content mediaIds tempId idempotencyKey createdAt
  | retrySend tempId =>
    cases hstep
    exact kept_retrySend hk tempId
  | discardFailedSend tempId =>
    cases hstep
    exact hk.frame rfl rfl rfl rfl fun _ => id
  | editMessage messageId content =>
    cases hstep
    exact kept_editMessage hk messageId content
  | deleteMessage messageId =>
    cases hstep
    exact hk.frame rfl rfl rfl rfl (mem_initialLoad_append fun _ h => by cases h)
  | answer k answer =>
    simp only [MessageHistory.step] at hstep
    cases hrequest : s.requests[k]? with
    | none =>
      rw [hrequest] at hstep
      cases hstep
    | some request =>
      simp only [hrequest] at hstep
      split at hstep
      · rename_i hserves
        cases hstep
        have hrest : Kept home { s with requests := s.requests.eraseIdx k } :=
          hk.frame rfl rfl rfl rfl fun _ => List.mem_of_mem_eraseIdx
        refine kept_complete hrest (fun target heq => ?_) hserves
          (hconfined request hrequest)
        subst heq
        exact hk.initialLoad target (List.mem_of_getElem? hrequest)
      · cases hstep

/-- **In every run whose answers are all confined, whatever their order, the map and the cursor have
the data of the current target, and no older page of it is skipped.** -/
theorem history_isolation (home : Text → ConversationTarget) (currentUserId : Option Text)
    (es : List HistoryEvent)
    (hconfined : ∀ x ∈ Reactive.transitions (MessageHistory.step home) (.unmounted currentUserId) es,
      ConfinedEvent home x.1 x.2.1) :
    ∀ x ∈ Reactive.transitions (MessageHistory.step home) (.unmounted currentUserId) es,
      Isolated home x.2.2 := by
  refine Reactive.transitions_of_inv (I := Kept home) (C := ConfinedEvent home)
    (Q := fun _ _ s' => Isolated home s') ?_ (kept_unmounted currentUserId) es hconfined
  intro s e s' hk hc hstep
  have hkept := kept_step hk hc hstep
  exact ⟨hkept, hkept.isolated⟩

/-! ### Two conversations -/

/-- Message `a` was posted in channel `x`, every other one in channel `y`. -/
def twoChannels (id : Text) : ConversationTarget :=
  if id = ['a'] then .channel ['x'] else .channel ['y']

/-- The first load of `x` is answered after the switch to `y`, and `y` is then read to its end. -/
def switchEarly : List HistoryEvent :=
  [.setTarget (some (.channel ['x'])), .setTarget (some (.channel ['y'])),
    .answer 0 (.page ⟨[bare ['a']], some ['c']⟩), .answer 0 (.page ⟨[bare ['b']], some ['d']⟩),
    .render, .loadOlder, .answer 0 (.page ⟨[bare ['e']], none⟩)]

theorem history_isolation_switchEarly :
    (Reactive.last (MessageHistory.step twoChannels) (.unmounted none) switchEarly).target =
        some (.channel ['y']) ∧
      ∀ x ∈ Reactive.transitions (MessageHistory.step twoChannels) (.unmounted none) switchEarly,
        Isolated twoChannels x.2.2 :=
  ⟨by decide, history_isolation twoChannels none switchEarly (by decide)⟩

/-- An older page of `x` is asked for before the switch to `y`, and answered after the first page
of `y`. -/
def switchLate : List HistoryEvent :=
  [.setTarget (some (.channel ['x'])), .answer 0 (.page ⟨[], some ['c']⟩), .render, .loadOlder,
    .setTarget (some (.channel ['y'])), .answer 1 (.page ⟨[bare ['b']], some ['d']⟩),
    .answer 0 (.page ⟨[bare ['a']], some ['e']⟩)]

/-- **The map of `y` has the message of `x`, and the next page asked for is the one after that of `x`
and not the second one of `y`.** -/
theorem leaked_page :
    (Reactive.last (MessageHistory.step twoChannels) (.unmounted none) switchLate).target =
        some (.channel ['y']) ∧
      (Reactive.last (MessageHistory.step twoChannels) (.unmounted none) switchLate).messageMap =
        [(['b'], bare ['b']), (['a'], bare ['a'])] ∧
      (Reactive.last (MessageHistory.step twoChannels) (.unmounted none) switchLate).nextCursor =
        some ['e'] ∧
      ¬ Isolated twoChannels
        (Reactive.last (MessageHistory.step twoChannels) (.unmounted none) switchLate) := by
  refine ⟨by decide, by decide, by decide, fun h => ?_⟩
  have hleak := h.messages ['a'] (by decide)
  exact absurd hleak (by decide)

end Chatspace.Frontend
