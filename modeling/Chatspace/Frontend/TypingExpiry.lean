import Chatspace.Frontend.PresenceAndTyping

/-!
# When a typing indicator goes away

A timer is set when a frame comes, the stamp it is compared with when the updater of the frame is
evaluated.

* `Expectation` — what the participants should see of one user;
* `Watched` — the hook, with what is expected of it;
* `Timely` — a prune is evaluated less than 5 s after the updater of a user whose timer is running,
  and no less than 5 s after the updater of the user whose timer queued it;
* `typing_expiry` — **the user is seen as expected exactly where every prune is timely;**
* `never_expires` — an updater that is evaluated one millisecond late.
-/

namespace Chatspace.Frontend

open Codec Store Fanout

/-- The user whose typing a frame reports to the hook. -/
def PresenceAndTyping.typist (h : PresenceAndTyping) (frame : Json) : Option Text :=
  if h.cancelled then none
  else if parseServerFrame frame = some typingEventType then
    match typingPayload (frame.field? dataKey) with
    | none => none
    | some userId =>
      if conversationTopicKey (frame.field? Fanout.conversationKey) = some h.conversationKey then
        some userId
      else none
  else none

/-- What is expected of the indicator of one user. -/
inductive Expectation where
  /-- The user has sent no frame, or the update of the last timer has been applied. -/
  | hidden
  /-- A frame has come whose updater is not evaluated. -/
  | unsettled
  /-- The updater of a frame has been evaluated, and no timer has fired since. -/
  | shown
  /-- The last timer has fired, and `before` updaters are to be evaluated before its own. -/
  | clearing (before : ℕ)
deriving DecidableEq

/-- What is expected when one more updater has been evaluated. -/
def Expectation.next : Expectation → Expectation
  | .clearing 0 => .hidden
  | .clearing (before + 1) => .clearing before
  | expectation => expectation

/-- The hook and one user. -/
structure Watched where
  hook : PresenceAndTyping
  expectation : Expectation
  /-- When an updater of a frame of the user was evaluated last. -/
  applied : Option Time
deriving DecidableEq

namespace Watched

variable (userId : Text) (w : Watched)

/-- What is expected after an event. -/
def expect : HookEvent → Expectation
  | .tick _ => w.expectation
  | .frame frame =>
    if w.hook.typist frame = some userId ∧ w.expectation ≠ .shown then .unsettled
    else w.expectation
  | .timer userId' =>
    if userId' = userId then .clearing w.hook.updates.length else w.expectation
  | .evaluate =>
    if w.hook.updates.head? = some (.typing userId) ∧ userId ∈ w.hook.timers.keys then .shown
    else w.expectation.next
  -- the next run of the effect starts with an empty map
  | .cleanup => .unsettled

def apply : HookEvent → Option Time
  | .evaluate =>
    if w.hook.updates.head? = some (.typing userId) then some w.hook.clock else w.applied
  | _ => w.applied

def step (e : HookEvent) : Option Watched :=
  (w.hook.step e).map fun hook => ⟨hook, w.expect userId e, w.apply userId e⟩

/-- The user is seen as expected. -/
def Meets : Prop :=
  match w.expectation with
  | .shown => userId ∈ activeTypingUserIds w.hook.typingMap
  | .hidden => userId ∉ activeTypingUserIds w.hook.typingMap
  | _ => True

/-- A prune that is evaluated now comes before 5 s have passed since the updater of a user who is to
stay, and after that where the user is to go. -/
def Timely : HookEvent → Prop
  | .evaluate => w.hook.updates.head? = some .prune → ∀ t ∈ w.applied,
    match w.expectation with
    | .shown => w.hook.clock < t + typingExpiryMs
    | .clearing 0 => t + typingExpiryMs ≤ w.hook.clock
    | _ => True
  | _ => True

end Watched

/-- The hook is mounted. -/
def watch (clock : Time) (conversation : ConversationTarget) : Watched :=
  ⟨.mount clock conversation, .hidden, none⟩

variable {h : PresenceAndTyping} {userId : Text} {w w' : Watched} {e : HookEvent}

theorem onFrame_eq (h : PresenceAndTyping) (frame : Json) :
    (∃ v, h.typist frame = some v ∧ h.cancelled = false ∧
      h.onFrame frame = (h.queue (.typing v)).scheduleExpiry v) ∨
    h.typist frame = none ∧
      (h.onFrame frame = h ∨ ∃ v s l, h.onFrame frame = h.queue (.presence v s l)) := by
  unfold PresenceAndTyping.typist PresenceAndTyping.onFrame PresenceAndTyping.applyFrame
  cases hc : h.cancelled with
  | true => exact .inr ⟨rfl, .inl rfl⟩
  | false =>
    simp only [Bool.false_eq_true, if_false]
    split
    · cases typingPayload (frame.field? dataKey) with
      | none => exact .inr ⟨rfl, .inl rfl⟩
      | some v =>
        by_cases hkey : conversationTopicKey (frame.field? Fanout.conversationKey) =
            some h.conversationKey
        · simp [hkey]
        · simp [hkey]
    · refine .inr ⟨rfl, ?_⟩
      split
      · cases presencePayload (frame.field? dataKey) with
        | none => exact .inl rfl
        | some data => exact .inr ⟨data.1, data.2.1, data.2.2, rfl⟩
      · exact .inl rfl

theorem mem_pruneExpired {map : TypingMap} {now : Time} {x : Text × Time} :
    x ∈ pruneExpired map now ↔ x ∈ map ∧ now < x.2 := by
  simp [pruneExpired]

theorem mem_active {map : TypingMap} :
    userId ∈ activeTypingUserIds map ↔ ∃ x, (userId, x) ∈ map := by
  simp [activeTypingUserIds, InsertionMap.keys]

/-! ### What is known of the hook -/

/-- What the hook keeps of the user. -/
structure Tracked (userId : Text) (w : Watched) : Prop where
  cancelled : w.hook.cancelled = true → w.hook.timers = []
  stamp : ∀ x, (userId, x) ∈ w.hook.typingMap → ∃ t ∈ w.applied, x = t + typingExpiryMs
  applied : ∀ t ∈ w.applied,
    (userId, t + typingExpiryMs) ∈ w.hook.typingMap ∨ t + typingExpiryMs ≤ w.hook.clock
  shown : w.expectation = .shown → w.applied ≠ none
  hidden : w.expectation = .hidden → .typing userId ∉ w.hook.updates
  clearing : ∀ before, w.expectation = .clearing before →
    w.hook.updates[before]? = some .prune ∧ .typing userId ∉ w.hook.updates.drop before

theorem tracked_watch (clock : Time) (conversation : ConversationTarget) :
    Tracked userId (watch clock conversation) where
  cancelled := nofun
  stamp := nofun
  applied := nofun
  shown := nofun
  hidden _ := List.not_mem_nil
  clearing := nofun

theorem getElem?_append_of_some {α : Type} {l l' : List α} {n : ℕ} {a : α} (h : l[n]? = some a) :
    (l ++ l')[n]? = some a := by
  rw [List.getElem?_append_left (List.getElem?_eq_some_iff.mp h).1]
  exact h

/-- Updaters of other frames are queued. -/
theorem Tracked.queued (ht : Tracked userId w) (hook : PresenceAndTyping) (updates : List Update)
    (hclock : hook.clock = w.hook.clock) (hmap : hook.typingMap = w.hook.typingMap)
    (hcancelled : hook.cancelled = true → hook.timers = [])
    (hupdates : hook.updates = w.hook.updates ++ updates) (hno : .typing userId ∉ updates) :
    Tracked userId { w with hook } where
  cancelled := hcancelled
  stamp := by
    simp only [hmap]
    exact ht.stamp
  applied := by
    simp only [hmap, hclock]
    exact ht.applied
  shown := ht.shown
  hidden hhidden := by
    rw [hupdates, List.mem_append, not_or]
    exact ⟨ht.hidden hhidden, hno⟩
  clearing before hbefore := by
    obtain ⟨hprune, hrest⟩ := ht.clearing before hbefore
    have hlt : before < w.hook.updates.length := (List.getElem?_eq_some_iff.mp hprune).1
    rw [hupdates, List.drop_append_of_le_length (Nat.le_of_lt hlt), List.mem_append, not_or]
    exact ⟨getElem?_append_of_some hprune, hrest, hno⟩

/-- What is known of the queue when its first updater has been evaluated. -/
theorem Tracked.next (ht : Tracked userId w) {update : Update} {rest : List Update}
    (hupdates : w.hook.updates = update :: rest) :
    (w.expectation.next = .hidden → .typing userId ∉ rest) ∧
    ∀ before, w.expectation.next = .clearing before →
      rest[before]? = some .prune ∧ .typing userId ∉ rest.drop before := by
  have hhidden := ht.hidden
  have hclearing := ht.clearing
  rw [hupdates] at hhidden hclearing
  cases hexp : w.expectation with
  | hidden =>
    have hno := hhidden hexp
    rw [List.mem_cons, not_or] at hno
    exact ⟨fun _ => hno.2, nofun⟩
  | unsettled => exact ⟨nofun, nofun⟩
  | shown => exact ⟨nofun, nofun⟩
  | clearing before =>
    obtain ⟨hprune, hno⟩ := hclearing before hexp
    cases before with
    | zero =>
      rw [List.drop_zero, List.mem_cons, not_or] at hno
      exact ⟨fun _ => hno.2, nofun⟩
    | succ before =>
      refine ⟨nofun, fun n hn => ?_⟩
      cases hn
      exact ⟨hprune, hno⟩

/-- An updater of another user, of presence or a prune is evaluated: what is left to be seen is the
map. -/
theorem Tracked.evaluated (ht : Tracked userId w) {update : Update} {rest : List Update}
    (hupdates : w.hook.updates = update :: rest) (map : TypingMap)
    (hstamp : ∀ x, (userId, x) ∈ map → (userId, x) ∈ w.hook.typingMap)
    (hkept : ∀ x, (userId, x) ∈ w.hook.typingMap → (userId, x) ∈ map ∨ x ≤ w.hook.clock)
    (hook : PresenceAndTyping) (hclock : hook.clock = w.hook.clock) (hmap : hook.typingMap = map)
    (hcancelled : hook.cancelled = w.hook.cancelled) (htimers : hook.timers = w.hook.timers)
    (hrest : hook.updates = rest) :
    Tracked userId ⟨hook, w.expectation.next, w.applied⟩ where
  cancelled := by
    simp only [hcancelled, htimers]
    exact ht.cancelled
  stamp x hx := by
    simp only [hmap] at hx
    exact ht.stamp x (hstamp x hx)
  applied t hat := by
    simp only [hmap, hclock]
    rcases ht.applied t hat with hmem | hle
    · exact hkept _ hmem
    · exact .inr hle
  shown hshown := by
    refine ht.shown ?_
    cases hexp : w.expectation with
    | shown => rfl
    | hidden => rw [hexp] at hshown; cases hshown
    | unsettled => rw [hexp] at hshown; cases hshown
    | clearing before => rw [hexp] at hshown; cases before <;> cases hshown
  hidden hhidden := by
    rw [hrest]
    exact (ht.next hupdates).1 hhidden
  clearing before hbefore := by
    rw [hrest]
    exact (ht.next hupdates).2 before hbefore

/-! ### One step -/

theorem step_frame (ht : Tracked userId w) (hm : w.Meets userId) (frame : Json) :
    Tracked userId ⟨w.hook.onFrame frame, w.expect userId (.frame frame), w.applied⟩ ∧
      Watched.Meets userId ⟨w.hook.onFrame frame, w.expect userId (.frame frame), w.applied⟩ := by
  rcases onFrame_eq w.hook frame with ⟨v, htypist, hlive, hframe⟩ | ⟨htypist, hframe⟩
  · have hcancelled : ∀ hook : PresenceAndTyping, hook.cancelled = w.hook.cancelled →
        hook.cancelled = true → hook.timers = [] := by
      intro hook hsame hc
      rw [hsame, hlive] at hc
      cases hc
    rw [hframe]
    by_cases hv : v = userId
    · -- the user's own frame: what was expected is kept only where the user is shown
      subst hv
      by_cases hshown : w.expectation = .shown
      · have hexp : w.expect v (.frame frame) = .shown := by simp [Watched.expect, hshown]
        rw [hexp]
        refine ⟨⟨hcancelled _ rfl, ht.stamp, ht.applied, fun _ => ht.shown hshown, nofun, nofun⟩, ?_⟩
        rw [Watched.Meets, hshown] at hm
        exact hm
      · have hexp : w.expect v (.frame frame) = .unsettled := by
          simp [Watched.expect, hshown, htypist]
        rw [hexp]
        exact ⟨⟨hcancelled _ rfl, ht.stamp, ht.applied, nofun, nofun, nofun⟩, trivial⟩
    · have hexp : w.expect userId (.frame frame) = w.expectation := by
        simp [Watched.expect, htypist, hv]
      rw [hexp]
      have hno : Update.typing userId ∉ [Update.typing v] := by simp [Ne.symm hv]
      exact ⟨ht.queued _ [.typing v] rfl rfl (hcancelled _ rfl) rfl hno, hm⟩
  · have hexp : w.expect userId (.frame frame) = w.expectation := by
      simp [Watched.expect, htypist]
    rw [hexp]
    rcases hframe with hframe | ⟨v, s, l, hframe⟩
    · rw [hframe]
      exact ⟨ht, hm⟩
    · rw [hframe]
      exact ⟨ht.queued _ [.presence v s l] rfl rfl ht.cancelled rfl (by simp), hm⟩

theorem step_timer (ht : Tracked userId w) (hm : w.Meets userId) {v : Text} {due : Time}
    (hdue : w.hook.timers.get v = some due) :
    Tracked userId ⟨w.hook.onTimer v, w.expect userId (.timer v), w.applied⟩ ∧
      Watched.Meets userId ⟨w.hook.onTimer v, w.expect userId (.timer v), w.applied⟩ := by
  have hlive : w.hook.cancelled = false := by
    cases hc : w.hook.cancelled with
    | false => rfl
    | true =>
      rw [ht.cancelled hc] at hdue
      cases hdue
  have hhook : w.hook.onTimer v =
      { w.hook with timers := w.hook.timers.delete v, updates := w.hook.updates ++ [.prune] } := by
    simp [PresenceAndTyping.onTimer, PresenceAndTyping.queue, hlive]
  have hcancelled : ∀ timers, w.hook.cancelled = true → timers = ([] : InsertionMap Text Time) := by
    intro timers hc
    rw [hlive] at hc
    cases hc
  rw [hhook]
  by_cases hv : v = userId
  · have hexp : w.expect userId (.timer v) = .clearing w.hook.updates.length := if_pos hv
    rw [hexp]
    refine ⟨⟨hcancelled _, ht.stamp, ht.applied, nofun, nofun, fun before hbefore => ?_⟩, trivial⟩
    -- its prune is the last in the queue
    cases hbefore
    simp
  · have hexp : w.expect userId (.timer v) = w.expectation := if_neg hv
    rw [hexp]
    exact ⟨ht.queued _ [.prune] rfl rfl (hcancelled _) rfl (by simp), hm⟩

/-- The updater of a frame of the user is evaluated. -/
theorem step_own (ht : Tracked userId w) {rest : List Update}
    (hupdates : w.hook.updates = .typing userId :: rest) (expectation : Expectation)
    (hexp : expectation = .shown ∨ expectation = w.expectation.next) :
    Tracked userId ⟨({ w.hook with updates := rest }).apply (.typing userId), expectation,
        some w.hook.clock⟩ ∧
      Watched.Meets userId ⟨({ w.hook with updates := rest }).apply (.typing userId), expectation,
        some w.hook.clock⟩ := by
  have hmem : (userId, w.hook.clock + typingExpiryMs) ∈
      upsertTyping w.hook.typingMap userId (w.hook.clock + typingExpiryMs) :=
    InsertionMap.mem_set.mpr (.inl rfl)
  have hnext := ht.next hupdates
  refine ⟨⟨ht.cancelled, fun x hx => ?_, fun t hat => ?_, nofun, fun hhidden => ?_, ?_⟩, ?_⟩
  · rcases InsertionMap.mem_set.mp hx with heq | ⟨hne, -⟩
    · exact ⟨w.hook.clock, rfl, congrArg Prod.snd heq⟩
    · exact absurd rfl hne
  · cases hat
    exact .inl hmem
  · rcases hexp with rfl | rfl
    · cases hhidden
    · exact hnext.1 hhidden
  · intro before hbefore
    rcases hexp with rfl | rfl
    · cases hbefore
    · exact hnext.2 before hbefore
  · have hactive := mem_active.mpr ⟨_, hmem⟩
    unfold Watched.Meets
    rcases hexp with rfl | rfl
    · exact hactive
    · cases hwas : w.expectation with
      | shown => exact hactive
      | unsettled => trivial
      | hidden =>
        have hno := ht.hidden hwas
        rw [hupdates] at hno
        exact absurd List.mem_cons_self hno
      | clearing before =>
        cases before with
        | zero =>
          have hprune := (ht.clearing 0 hwas).1
          rw [hupdates] at hprune
          cases hprune
        | succ before => trivial

/-- Another updater that leaves the user alone is evaluated. -/
theorem meets_next (ht : Tracked userId w) {update : Update} {rest : List Update}
    (hupdates : w.hook.updates = update :: rest) (hne : update ≠ .prune) (hm : w.Meets userId)
    (hook : PresenceAndTyping)
    (hmap : userId ∈ activeTypingUserIds hook.typingMap ↔
      userId ∈ activeTypingUserIds w.hook.typingMap) :
    Watched.Meets userId ⟨hook, w.expectation.next, w.applied⟩ := by
  unfold Watched.Meets at hm ⊢
  cases hwas : w.expectation with
  | shown =>
    rw [hwas] at hm
    exact hmap.mpr hm
  | hidden =>
    rw [hwas] at hm
    exact fun h => hm (hmap.mp h)
  | unsettled => trivial
  | clearing before =>
    cases before with
    | zero =>
      have hprune := (ht.clearing 0 hwas).1
      rw [hupdates] at hprune
      exact absurd (Option.some.inj hprune) hne
    | succ before => trivial

/-- A prune is evaluated. -/
theorem step_prune (ht : Tracked userId w) {rest : List Update}
    (hupdates : w.hook.updates = .prune :: rest) (hm : w.Meets userId) :
    Tracked userId ⟨({ w.hook with updates := rest }).apply .prune, w.expectation.next,
        w.applied⟩ ∧
      (w.Timely .evaluate ↔ Watched.Meets userId
        ⟨({ w.hook with updates := rest }).apply .prune, w.expectation.next, w.applied⟩) := by
  have hmem : ∀ x, (userId, x) ∈ pruneExpired w.hook.typingMap w.hook.clock ↔
      (userId, x) ∈ w.hook.typingMap ∧ w.hook.clock < x := fun x => mem_pruneExpired
  constructor
  · refine ht.evaluated hupdates _ (fun x hx => ((hmem x).mp hx).1) (fun x hx => ?_) _ rfl rfl rfl
      rfl rfl
    by_cases hlt : w.hook.clock < x
    · exact .inl ((hmem x).mpr ⟨hx, hlt⟩)
    · exact .inr (Nat.le_of_not_lt hlt)
  · have hactive : userId ∈ activeTypingUserIds (pruneExpired w.hook.typingMap w.hook.clock) ↔
        ∃ t ∈ w.applied, w.hook.clock < t + typingExpiryMs := by
      rw [mem_active]
      constructor
      · intro h
        obtain ⟨x, hx⟩ := h
        obtain ⟨hx, hlt⟩ := (hmem x).mp hx
        obtain ⟨t, hat, rfl⟩ := ht.stamp x hx
        exact ⟨t, hat, hlt⟩
      · intro h
        obtain ⟨t, hat, hlt⟩ := h
        rcases ht.applied t hat with hx | hle
        · exact ⟨_, (hmem _).mpr ⟨hx, hlt⟩⟩
        · exact absurd hlt (Nat.not_lt.mpr hle)
    have hhead : w.hook.updates.head? = some .prune := by rw [hupdates]; rfl
    simp only [Watched.Timely, hhead, forall_const]
    unfold Watched.Meets
    cases hwas : w.expectation with
    | shown =>
      show (∀ t ∈ w.applied, w.hook.clock < t + typingExpiryMs) ↔ userId ∈ activeTypingUserIds
        (pruneExpired w.hook.typingMap w.hook.clock)
      obtain ⟨t, hat⟩ := Option.ne_none_iff_exists'.mp (ht.shown hwas)
      rw [hactive, hat]
      simp
    | unsettled => simp [Expectation.next]
    | hidden =>
      rw [Watched.Meets, hwas] at hm
      show (∀ t ∈ w.applied, True) ↔ userId ∉ activeTypingUserIds
        (pruneExpired w.hook.typingMap w.hook.clock)
      refine ⟨fun _ h => hm ?_, fun _ _ _ => trivial⟩
      obtain ⟨x, hx⟩ := mem_active.mp h
      exact mem_active.mpr ⟨x, ((hmem x).mp hx).1⟩
    | clearing before =>
      cases before with
      | zero =>
        show (∀ t ∈ w.applied, t + typingExpiryMs ≤ w.hook.clock) ↔ userId ∉ activeTypingUserIds
          (pruneExpired w.hook.typingMap w.hook.clock)
        rw [hactive]
        simp
      | succ before => simp [Expectation.next]

theorem step_evaluate (ht : Tracked userId w) (hm : w.Meets userId)
    (hstep : w.step userId .evaluate = some w') :
    Tracked userId w' ∧ (w.Timely .evaluate ↔ w'.Meets userId) := by
  simp only [Watched.step, PresenceAndTyping.step] at hstep
  cases hupdates : w.hook.updates with
  | nil =>
    rw [hupdates] at hstep
    cases hstep
  | cons update rest =>
    simp only [hupdates, Option.map_some, Option.some.injEq, Watched.expect, Watched.apply,
      List.head?_cons] at hstep
    have htimely : update ≠ .prune → w.Timely .evaluate := by
      intro hne hhead
      rw [hupdates] at hhead
      exact absurd (Option.some.inj hhead) hne
    cases update with
    | typing v =>
      have htimely := htimely (by simp)
      by_cases hv : v = userId
      · subst hv
        rw [← hstep, if_pos rfl]
        obtain ⟨htracked, hmeets⟩ := step_own ht hupdates
          (if Update.typing v = .typing v ∧ v ∈ w.hook.timers.keys then .shown
            else w.expectation.next) (by split <;> simp)
        exact ⟨htracked, iff_of_true htimely hmeets⟩
      · have hother : ∀ x, (userId, x) ∈
            upsertTyping w.hook.typingMap v (w.hook.clock + typingExpiryMs) ↔
              (userId, x) ∈ w.hook.typingMap := by
          intro x
          rw [upsertTyping, InsertionMap.mem_set]
          simp [Ne.symm hv]
        simp only [Update.typing.injEq, hv, false_and, if_false] at hstep
        rw [← hstep]
        refine ⟨ht.evaluated hupdates _ (fun x => (hother x).mp)
          (fun x hx => .inl ((hother x).mpr hx)) _ rfl rfl rfl rfl rfl, iff_of_true htimely ?_⟩
        apply meets_next ht hupdates (by simp) hm
        simp only [mem_active]
        exact exists_congr hother
    | prune =>
      simp only [reduceCtorEq, false_and, if_false] at hstep
      rw [← hstep]
      exact step_prune ht hupdates hm
    | presence v s l =>
      simp only [reduceCtorEq, false_and, if_false] at hstep
      rw [← hstep]
      refine ⟨ht.evaluated hupdates _ (fun x => id) (fun x => .inl) _ rfl rfl rfl rfl rfl,
        iff_of_true (htimely (by simp)) ?_⟩
      exact meets_next ht hupdates (by simp) hm _ Iff.rfl

/-- One step: what is known is kept, and the user is seen as expected just after a timely step. -/
theorem step_watched (ht : Tracked userId w) (hm : w.Meets userId)
    (hstep : w.step userId e = some w') : Tracked userId w' ∧ (w.Timely e ↔ w'.Meets userId) := by
  cases e with
  | tick ms =>
    cases hstep
    refine ⟨⟨ht.cancelled, ht.stamp, fun t hat => ?_, ht.shown, ht.hidden, ht.clearing⟩,
      iff_of_true trivial hm⟩
    rcases ht.applied t hat with hmem | hle
    · exact .inl hmem
    · exact .inr (Nat.le_trans hle (Nat.le_add_right _ _))
  | frame frame =>
    cases hstep
    obtain ⟨htracked, hmeets⟩ := step_frame ht hm frame
    exact ⟨htracked, iff_of_true trivial hmeets⟩
  | timer v =>
    simp only [Watched.step, PresenceAndTyping.step] at hstep
    cases hdue : w.hook.timers.get v with
    | none =>
      rw [hdue] at hstep
      cases hstep
    | some due =>
      simp only [hdue] at hstep
      split at hstep
      · cases hstep
        obtain ⟨htracked, hmeets⟩ := step_timer ht hm hdue
        exact ⟨htracked, iff_of_true trivial hmeets⟩
      · cases hstep
  | evaluate => exact step_evaluate ht hm hstep
  | cleanup =>
    cases hstep
    refine ⟨⟨fun _ => rfl, ht.stamp, ht.applied, fun h => ?_, fun h => ?_, fun _ h => ?_⟩,
      iff_of_true trivial trivial⟩
    · cases h
    · cases h
    · cases h

/-- **In every run a user is shown from each frame of theirs until their timer fires, and is not
shown once the update of that timer has been applied, exactly where every prune is timely.** -/
theorem typing_expiry (clock : Time) (conversation : ConversationTarget) (userId : Text)
    (es : List HookEvent) :
    (∀ x ∈ Reactive.transitions (Watched.step userId) (watch clock conversation) es,
        x.1.Timely x.2.1) ↔
      ∀ x ∈ Reactive.transitions (Watched.step userId) (watch clock conversation) es,
        x.2.2.Meets userId := by
  refine Reactive.transitions_iff (I := fun w => Tracked userId w ∧ w.Meets userId)
    (C := Watched.Timely) (Q := fun _ _ w' => w'.Meets userId) ?_ ?_ ?_ es
  · intro w e w' hi hstep
    exact (step_watched hi.1 hi.2 hstep).2
  · intro w e w' hi htimely hstep
    obtain ⟨htracked, hiff⟩ := step_watched hi.1 hi.2 hstep
    exact ⟨htracked, hiff.mp htimely⟩
  · exact ⟨tracked_watch clock conversation, List.not_mem_nil⟩

/-! ### An updater that is late -/

/-- A frame that says `userId` is typing in channel `c`. -/
def typingFrame (userId : Text) : Json :=
  .object [(typeKey, .string typingEventType),
    (Fanout.conversationKey, .object [(kindKey, .string channelKind), (channelIdKey, .string ['c'])]),
    (dataKey, .object [(userIdKey, .string userId)])]

/-- The updater of the frame is evaluated a millisecond after the frame has come, the timer fires
when it is due, and its prune is evaluated at once. -/
def lateByOne : List HookEvent :=
  [.frame (typingFrame ['u']), .tick 1, .evaluate, .tick 4999, .timer ['u'], .evaluate]

/-- The hook when all that is past. -/
def leftOver : PresenceAndTyping :=
  { PresenceAndTyping.mount 5000 (.channel ['c']) with typingMap := [(['u'], 5001)] }

/-- Without a timer and without an update only a frame can change the map. -/
theorem typingMap_idle (htimers : h.timers = []) (hupdates : h.updates = []) (es : List HookEvent)
    (hframe : ∀ frame, .frame frame ∉ es) :
    (Reactive.last PresenceAndTyping.step h es).typingMap = h.typingMap := by
  induction es generalizing h with
  | nil => rfl
  | cons e es ih =>
    have hrest : ∀ frame, .frame frame ∉ es := fun frame hmem =>
      hframe frame (List.mem_cons_of_mem _ hmem)
    cases e with
    | tick ms => exact ih htimers hupdates hrest
    | frame frame => exact absurd List.mem_cons_self (hframe frame)
    | timer userId =>
      simp only [Reactive.last, PresenceAndTyping.step, htimers]
      exact ih htimers hupdates hrest
    | evaluate =>
      simp only [Reactive.last, PresenceAndTyping.step, hupdates]
      exact ih htimers hupdates hrest
    | cleanup => exact ih rfl hupdates hrest

/-- **The timer has fired and its update is applied, and the user is still shown, and stays so until
another frame comes.** -/
theorem never_expires :
    Reactive.last (Watched.step ['u']) (watch 0 (.channel ['c'])) lateByOne =
        ⟨leftOver, .hidden, some 1⟩ ∧
      ¬ Watched.Meets ['u']
        (Reactive.last (Watched.step ['u']) (watch 0 (.channel ['c'])) lateByOne) ∧
      ∀ es : List HookEvent, (∀ frame, .frame frame ∉ es) →
        ['u'] ∈ activeTypingUserIds (Reactive.last PresenceAndTyping.step leftOver es).typingMap := by
  have hlast : Reactive.last (Watched.step ['u']) (watch 0 (.channel ['c'])) lateByOne =
      ⟨leftOver, .hidden, some 1⟩ := by decide
  refine ⟨hlast, fun h => ?_, fun es hes => ?_⟩
  · rw [hlast] at h
    exact h (by decide)
  · rw [typingMap_idle rfl rfl es hes]
    decide

end Chatspace.Frontend
