import Chatspace.Core.Uuid
import Chatspace.Frontend.SocketClient
import Chatspace.Reactive.Runs
import Chatspace.Ws.Subscriptions

/-!
# What a client is subscribed to

`tracked` is what a server that starts with nothing makes of the frames of one connection.

* `line_…` — what each handler does to the current socket and to the joined conversations;
* `InStep` — **on an open socket the client has asked for what it tracks as joined;**
* `readFrame` — a frame as the server reads it;
* `mem_subscribedBy` — the topics of what was asked for;
* `resubscription` — **the server has subscribed the connection to what the client tracks;**
* `resubscription_respelt` — not where one conversation goes by two names.
-/

namespace Chatspace.SocketClient

open Frontend

/-- The conversations that the frames of a connection join and do not leave. -/
def tracked : List ClientFrame → List ConversationTarget :=
  List.foldl (fun joined frame =>
    match frame with
    | .join conversation => joined.insert conversation
    | .leave conversation => joined.filter (· ≠ conversation)
    | .typing _ | .ping => joined) []

/-- The conversation that is joined or left satisfies `N`. -/
def Names (N : ConversationTarget → Prop) : ClientFrame → Prop
  | .join conversation | .leave conversation => N conversation
  | .typing _ | .ping => True

/-- What the frames depend on. -/
structure Line where
  current : Option WebSocket
  joined : List ConversationTarget

def State.line (s : State) : Line := ⟨s.socket.bind fun i => s.sockets[i]?, s.joined⟩

variable {o : Options} {s s' : State} {token : Option AccessToken} {e : Event} {l : Line}
  {ws : WebSocket}
  {x y : ConversationTarget} {frames : List ClientFrame} {N : ConversationTarget → Prop}

/-! ### What frames ask for -/

theorem tracked_concat (frames : List ClientFrame) (frame : ClientFrame) :
    tracked (frames ++ [frame]) =
      match frame with
      | .join conversation => (tracked frames).insert conversation
      | .leave conversation => (tracked frames).filter (· ≠ conversation)
      | .typing _ | .ping => tracked frames := by
  rw [tracked, List.foldl_append]
  rfl

theorem mem_tracked_join : x ∈ tracked (frames ++ [.join y]) ↔ x = y ∨ x ∈ tracked frames := by
  rw [tracked_concat]
  exact List.mem_insert_iff

theorem mem_tracked_leave : x ∈ tracked (frames ++ [.leave y]) ↔ x ∈ tracked frames ∧ x ≠ y := by
  simp [tracked_concat]

/-- Joining many conversations. -/
theorem mem_tracked_joins (joined : List ConversationTarget) :
    x ∈ tracked (frames ++ joined.map .join) ↔ x ∈ joined ∨ x ∈ tracked frames := by
  induction joined generalizing frames with
  | nil => simp
  | cons y joined ih =>
    rw [List.map_cons, List.append_cons, ih, mem_tracked_join, List.mem_cons]
    tauto

/-! ### What the handlers do -/

@[simp] theorem line_setStatus (status : WsStatus) : (s.setStatus status).line = s.line := by
  unfold State.setStatus
  split <;> rfl

@[simp] theorem line_onFatal (reason : StopReason) : (s.onFatal reason).line = s.line := rfl

@[simp] theorem line_clearTimers : s.clearTimers.line = s.line := rfl

@[simp] theorem line_scheduleReconnect : (s.scheduleReconnect o).line = s.line :=
  line_setStatus .reconnecting

theorem line_handleClose (code : ℕ) : (s.handleClose o code).line = s.line := by
  refine Eq.trans ?_ (line_clearTimers (s := s))
  unfold State.handleClose
  generalize s.clearTimers = s'
  simp only
  split
  · exact line_setStatus _
  · split
    · split
      · exact line_setStatus _
      · exact line_setStatus _
    · exact line_setStatus _
    · exact line_scheduleReconnect

/-- A new socket, on which nothing has been sent. -/
theorem line_openSocket (s : State) (token : Option AccessToken) :
    (s.openSocket token).line = s.line ∨
    ∃ bearer, (s.openSocket token).line = ⟨some ⟨bearer, .connecting, []⟩, s.joined⟩ := by
  cases token with
  | none => exact .inl (line_setStatus _)
  | some bearer =>
    refine .inr ⟨bearer, ?_⟩
    have hjoined := congrArg Line.joined
      (line_setStatus (s := s) (if 0 < s.reconnectAttempt then .reconnecting else .connecting))
    simp only [State.openSocket, State.line, Option.bind_some, Line.mk.injEq]
    refine ⟨?_, hjoined⟩
    generalize s.setStatus _ = s'
    simp

/-- A socket on which the frame is sent, if it is open. -/
def WebSocket.offer (ws : WebSocket) (frame : ClientFrame) : WebSocket :=
  if ws.readyState = .open then ws.write frame else ws

theorem line_send (frame : ClientFrame) :
    (s.send frame).line = ⟨s.line.current.map (·.offer frame), s.joined⟩ := by
  unfold State.send
  cases hs : s.socket with
  | none => simp [State.line, hs]
  | some i =>
    cases hi : s.sockets[i]? with
    | none => simp [State.line, hs, hi]
    | some ws =>
      by_cases hopen : ws.readyState = .open
      · simp [State.line, State.onSocket, WebSocket.offer, hs, hi, hopen]
      · simp [State.line, WebSocket.offer, hs, hi, hopen]

/-- A `join` frame for each conversation. -/
abbrev State.sendJoins (s : State) (joined : List ConversationTarget) : State :=
  joined.foldl (fun s conversation => s.send (.join conversation)) s

theorem line_sendJoins (joined : List ConversationTarget) :
    (s.sendJoins joined).line = ⟨s.line.current.map fun ws =>
      if ws.readyState = .open then { ws with sent := ws.sent ++ joined.map .join } else ws,
      s.joined⟩ := by
  induction joined generalizing s with
  | nil =>
    simp [State.line]
  | cons x joined ih =>
    have hline := line_send (s := s) (.join x)
    have hjoined : (s.send (.join x)).joined = s.joined := congrArg Line.joined hline
    rw [State.sendJoins, List.foldl_cons, ih, hjoined, congrArg Line.current hline, Option.map_map]
    congr 2
    funext ws
    by_cases hopen : ws.readyState = .open
    · simp [WebSocket.offer, WebSocket.write, hopen]
    · simp [WebSocket.offer, hopen]

/-- What happens to one socket may happen to the current one. -/
theorem line_onSocket (i : ℕ) (f : WebSocket → WebSocket) : (s.onSocket i f).line = s.line ∨
    (s.onSocket i f).line = ⟨s.line.current.map f, s.joined⟩ := by
  cases hs : s.socket with
  | none => exact .inl (by simp [State.line, State.onSocket, hs])
  | some j =>
    by_cases hij : i = j
    · exact .inr (by simp [State.line, State.onSocket, hs, hij])
    · exact .inl (by simp [State.line, State.onSocket, hs, hij, List.getElem?_modify])

theorem line_disconnect (s : State) : s.disconnect.line = s.line ∨
    s.disconnect.line = ⟨s.line.current.map WebSocket.startClosing, s.joined⟩ := by
  unfold State.disconnect
  simp only
  split
  · exact .inl rfl
  · exact line_onSocket (s := ({ s with manuallyClosed := true }).clearTimers) _ _

/-- **What the client has asked for**: nothing on a connection that is not established; on an open
one, the conversations it tracks as joined.  All of them satisfy `N`. -/
structure Line.InStep (N : ConversationTarget → Prop) (l : Line) : Prop where
  joined : ∀ x ∈ l.joined, N x
  sent : ∀ ws, l.current = some ws → ∀ frame ∈ ws.sent, Names N frame
  connecting : ∀ ws, l.current = some ws → ws.readyState = .connecting → ws.sent = []
  opened : ∀ ws, l.current = some ws → ws.readyState = .open →
    ∀ x, x ∈ tracked ws.sent ↔ x ∈ l.joined

/-- A socket that is neither connecting nor open asks for nothing. -/
theorem Line.InStep.shut {f : WebSocket → WebSocket} (h : l.InStep N)
    (hsent : ∀ ws, (f ws).sent = ws.sent)
    (hf : ∀ ws, (f ws).readyState = .connecting ∨ (f ws).readyState = .open → f ws = ws) :
    Line.InStep N ⟨l.current.map f, l.joined⟩ := by
  refine ⟨h.joined, fun ws hws => ?_, ?_, ?_⟩
  · obtain ⟨ws', hws', rfl⟩ := Option.map_eq_some_iff.mp hws
    rw [hsent]
    exact h.sent ws' hws'
  · intro ws hws hconnecting
    obtain ⟨ws', hws', rfl⟩ := Option.map_eq_some_iff.mp hws
    have hsame := hf ws' (.inl hconnecting)
    rw [hsame] at hconnecting ⊢
    exact h.connecting ws' hws' hconnecting
  · intro ws hws hopen x
    obtain ⟨ws', hws', rfl⟩ := Option.map_eq_some_iff.mp hws
    have hsame := hf ws' (.inr hopen)
    rw [hsame] at hopen ⊢
    exact h.opened ws' hws' hopen x

/-- A frame that changes the conversations asked for as the joined ones change. -/
theorem Line.InStep.offer {frame : ClientFrame} {joined : List ConversationTarget}
    (h : l.InStep N) (hjoined : ∀ x ∈ joined, N x) (hnames : Names N frame)
    (hframe : ∀ sent, (∀ x, x ∈ tracked sent ↔ x ∈ l.joined) →
      ∀ x, x ∈ tracked (sent ++ [frame]) ↔ x ∈ joined) :
    Line.InStep N ⟨l.current.map (·.offer frame), joined⟩ := by
  refine ⟨hjoined, fun ws hws => ?_, ?_, ?_⟩
  · obtain ⟨ws', hws', rfl⟩ := Option.map_eq_some_iff.mp hws
    have hold := h.sent ws' hws'
    unfold WebSocket.offer
    split
    · exact List.forall_mem_append.mpr ⟨hold, List.forall_mem_singleton.mpr hnames⟩
    · exact hold
  · intro ws hws hconnecting
    obtain ⟨ws', hws', rfl⟩ := Option.map_eq_some_iff.mp hws
    unfold WebSocket.offer at hconnecting ⊢
    split at hconnecting
    · rename_i hopen
      rw [WebSocket.write, hopen] at hconnecting
      cases hconnecting
    · rename_i hopen
      rw [if_neg hopen]
      exact h.connecting ws' hws' hconnecting
  · intro ws hws hopen
    obtain ⟨ws', hws', rfl⟩ := Option.map_eq_some_iff.mp hws
    unfold WebSocket.offer at hopen ⊢
    split at hopen
    · rename_i hopen'
      rw [if_pos hopen']
      exact hframe ws'.sent (h.opened ws' hws' hopen')
    · contradiction

theorem inStep_join (conversation : ConversationTarget) (h : s.line.InStep N)
    (hN : N conversation) : (s.join conversation).line.InStep N := by
  unfold State.join
  rw [line_send]
  refine h.offer (fun x hx => ?_) hN fun sent hsent x => ?_
  · simp only at hx
    split at hx
    · exact h.joined x hx
    · rcases List.mem_append.mp hx with hx | hx
      · exact h.joined x hx
      · rw [List.mem_singleton.mp hx]
        exact hN
  rw [mem_tracked_join, hsent x]
  show x = conversation ∨ x ∈ s.joined ↔ x ∈ if conversation ∈ s.joined then _ else _
  split
  · rename_i hmem
    exact ⟨fun hx => hx.elim (fun hx => hx ▸ hmem) id, .inr⟩
  · rw [List.mem_append, List.mem_singleton, or_comm]

theorem inStep_leave (conversation : ConversationTarget) (h : s.line.InStep N)
    (hN : N conversation) : (s.leave conversation).line.InStep N := by
  unfold State.leave
  rw [line_send]
  refine h.offer (fun x hx => h.joined x (List.mem_of_mem_filter hx)) hN fun sent hsent x => ?_
  rw [mem_tracked_leave, hsent x]
  show x ∈ s.joined ∧ x ≠ conversation ↔ x ∈ s.joined.filter _
  simp

/-- A frame that joins and leaves nothing. -/
theorem inStep_send {frame : ClientFrame} (h : s.line.InStep N) (hN : Names N frame)
    (hframe : ∀ sent, tracked (sent ++ [frame]) = tracked sent) :
    (s.send frame).line.InStep N := by
  rw [line_send]
  refine h.offer h.joined hN fun sent hsent x => ?_
  rw [hframe, hsent x]
  rfl

/-- Every joined conversation is asked for, once more where it was already. -/
theorem inStep_sendJoins (hjoined : ∀ x ∈ s.joined, N x)
    (hsent : ∀ ws, s.line.current = some ws → ∀ frame ∈ ws.sent, Names N frame)
    (hconnecting : ∀ ws, s.line.current = some ws → ws.readyState = .connecting → ws.sent = [])
    (hopened : ∀ ws, s.line.current = some ws → ws.readyState = .open →
      ∀ x ∈ tracked ws.sent, x ∈ s.joined) :
    (s.sendJoins s.joined).line.InStep N := by
  rw [line_sendJoins]
  refine ⟨hjoined, fun ws hws => ?_, ?_, ?_⟩
  · obtain ⟨ws', hws', rfl⟩ := Option.map_eq_some_iff.mp hws
    have hold := hsent ws' hws'
    split
    · refine List.forall_mem_append.mpr ⟨hold, fun frame hframe => ?_⟩
      obtain ⟨x, hx, rfl⟩ := List.mem_map.mp hframe
      exact hjoined x hx
    · exact hold
  · intro ws hws hstate
    obtain ⟨ws', hws', rfl⟩ := Option.map_eq_some_iff.mp hws
    split at hstate
    · rename_i hopen
      rw [hopen] at hstate
      cases hstate
    · rename_i hopen
      rw [if_neg hopen]
      exact hconnecting ws' hws' hstate
  · intro ws hws hstate x
    obtain ⟨ws', hws', rfl⟩ := Option.map_eq_some_iff.mp hws
    split at hstate
    · rename_i hopen
      rw [if_pos hopen]
      show x ∈ tracked (ws'.sent ++ s.joined.map .join) ↔ x ∈ s.joined
      rw [mem_tracked_joins]
      exact ⟨fun hx => hx.elim id (hopened ws' hws' hopen x), .inl⟩
    · contradiction

/-- The heartbeat and the timer of a stable connection are set. -/
theorem line_timersSet (s : State) (delayMs : ℕ) (stableTimer : Option ℕ) :
    ({ (s.startHeartbeat o).setTimer .stable delayMs with stableTimer } : State).line = s.line :=
  rfl

theorem line_handleOpen (s : State) : ∃ s₁ : State, s₁.line = s.line ∧
    (s.handleOpen o).line = (s₁.sendJoins s₁.joined).line := by
  refine ⟨({ s with reconnectAttempt := 0, openedThisAttempt := true }).setStatus .open,
    line_setStatus _, ?_⟩
  unfold State.handleOpen
  exact line_timersSet _ _ _

/-- **A connection that is established asks for the joined conversations.** -/
theorem inStep_handleOpen (h : s.line.InStep N) (i : ℕ) :
    ((s.onSocket i WebSocket.establish).handleOpen o).line.InStep N := by
  obtain ⟨s₁, hline, hopened⟩ := line_handleOpen (o := o) (s.onSocket i WebSocket.establish)
  rw [hopened]
  have hjoined : s₁.joined = s.joined := by
    have hs₁ : s₁.joined = (s.onSocket i WebSocket.establish).joined := congrArg Line.joined hline
    rw [hs₁]
    rfl
  refine inStep_sendJoins (fun x hx => ?_) (fun ws hws => ?_) (fun ws hws hstate => ?_)
    fun ws hws hstate x hx => ?_
  · rw [hjoined] at hx
    exact h.joined x hx
  · rw [hline] at hws
    rcases line_onSocket (s := s) i WebSocket.establish with hsame | hmap
    · rw [hsame] at hws
      exact h.sent ws hws
    · rw [hmap] at hws
      obtain ⟨ws', hws', rfl⟩ := Option.map_eq_some_iff.mp hws
      have hold := h.sent ws' hws'
      unfold WebSocket.establish
      split
      · exact hold
      · exact hold
  · rw [hline] at hws
    rcases line_onSocket (s := s) i WebSocket.establish with hsame | hmap
    · rw [hsame] at hws
      exact h.connecting ws hws hstate
    · rw [hmap] at hws
      obtain ⟨ws', -, rfl⟩ := Option.map_eq_some_iff.mp hws
      unfold WebSocket.establish at hstate
      split at hstate
      · cases hstate
      · contradiction
  · rw [hline] at hws
    rw [hjoined]
    rcases line_onSocket (s := s) i WebSocket.establish with hsame | hmap
    · rw [hsame] at hws
      exact (h.opened ws hws hstate x).mp hx
    · rw [hmap] at hws
      obtain ⟨ws', hws', rfl⟩ := Option.map_eq_some_iff.mp hws
      unfold WebSocket.establish at hstate hx
      split at hstate
      · -- nothing had been sent on it
        rename_i hconnecting
        rw [if_pos hconnecting] at hx
        rw [show tracked ws'.sent = [] from congrArg tracked (h.connecting ws' hws' hconnecting)] at hx
        cases hx
      · rename_i hne
        rw [if_neg hne] at hx
        exact (h.opened ws' hws' hstate x).mp hx

theorem inStep_openSocket (h : s.line.InStep N) (token : Option AccessToken) :
    (s.openSocket token).line.InStep N := by
  rcases line_openSocket s token with hsame | ⟨bearer, hnew⟩
  · rw [hsame]
    exact h
  · rw [hnew]
    refine ⟨h.joined, fun ws hws frame hframe => ?_, ?_, ?_⟩
    · cases hws
      cases hframe
    · intro ws hws _
      cases hws
      rfl
    · intro ws hws hopen
      cases hws
      cases hopen

theorem inStep_disconnect (h : s.line.InStep N) : s.disconnect.line.InStep N := by
  rcases line_disconnect s with hsame | hclosing
  · rw [hsame]
    exact h
  · rw [hclosing]
    refine h.shut (fun ws => ?_) fun ws hws => ?_
    · unfold WebSocket.startClosing
      split <;> rfl
    unfold WebSocket.startClosing at hws ⊢
    split
    · rename_i hstate
      rw [if_pos hstate] at hws
      simp at hws
    · rfl

theorem inStep_handleClose (h : s.line.InStep N) (i code : ℕ) :
    ((s.onSocket i WebSocket.finish).handleClose o code).line.InStep N := by
  rw [line_handleClose]
  rcases line_onSocket (s := s) i WebSocket.finish with hsame | hclosed
  · rw [hsame]
    exact h
  · rw [hclosed]
    refine h.shut (fun _ => rfl) fun ws hws => ?_
    rcases hws with hws | hws
    · cases hws
    · cases hws

theorem inStep_refreshed (h : s.line.InStep N) (outcome : State.RefreshOutcome) :
    (s.refreshed o token outcome).line.InStep N := by
  cases outcome with
  | rejected =>
    unfold State.refreshed
    simp only
    split
    · exact h
    · rw [line_onFatal, line_setStatus]
      exact h
  | transientFailure =>
    unfold State.refreshed
    simp only
    split
    · exact h
    · rw [line_scheduleReconnect]
      exact h
  | success =>
    unfold State.refreshed
    simp only
    split
    · exact h
    · split
      · rw [line_onFatal, line_setStatus, line_clearTimers]
        exact h
      · split
        · exact inStep_openSocket (s := { s with
            refreshCycleCount := s.refreshCycleCount + 1, reconnectAttempt := 0 }) h token
        · exact h

/-- The conversation of a `join` or `leave` call satisfies `N`. -/
def Event.Names (N : ConversationTarget → Prop) : Event → Prop
  | .join conversation | .leave conversation => N conversation
  | _ => True

/-- **Every event keeps the client in step.** -/
theorem inStep_step (h : s.line.InStep N) (hN : e.Names N) (hs : step o s e = some s') :
    s'.line.InStep N := by
  cases e with
  | join conversation =>
    cases hs
    exact inStep_join conversation h hN
  | leave conversation =>
    cases hs
    exact inStep_leave conversation h hN
  | sendTyping conversation =>
    cases hs
    exact inStep_send h trivial fun sent => tracked_concat sent _
  | disconnect =>
    cases hs
    exact inStep_disconnect h
  | destroy =>
    cases hs
    exact inStep_disconnect (s := { s with destroyed := true }) h
  | socketOpen i =>
    simp only [step, Option.ite_none_right_eq_some, Option.some.injEq] at hs
    obtain ⟨-, rfl⟩ := hs
    exact inStep_handleOpen h i
  | socketError i =>
    simp only [step, Option.ite_none_right_eq_some, Option.some.injEq] at hs
    obtain ⟨-, rfl⟩ := hs
    exact h
  | socketClose i code =>
    simp only [step, Option.ite_none_right_eq_some, Option.some.injEq] at hs
    obtain ⟨-, rfl⟩ := hs
    exact inStep_handleClose h i code
  | fire n token =>
    simp only [step] at hs
    split at hs
    · cases hs
    · split at hs
      · cases hs
        exact inStep_send h trivial fun sent => tracked_concat sent _
      · cases hs
        exact inStep_openSocket (s := s.clear (some n)) h token
      · cases hs
        exact h
  | refreshed outcome token =>
    simp only [step, Option.ite_none_right_eq_some, Option.some.injEq] at hs
    obtain ⟨-, rfl⟩ := hs
    exact inStep_refreshed (s := { s with refreshes := s.refreshes - 1 }) h outcome

theorem inStep_run (h : s.line.InStep N) (es : List Event) (hN : ∀ e ∈ es, e.Names N) :
    (Reactive.last (step o) s es).line.InStep N := by
  induction es generalizing s with
  | nil => exact h
  | cons e es ih =>
    rw [List.forall_mem_cons] at hN
    cases hs : step o s e with
    | none =>
      simp only [Reactive.last, hs]
      exact ih h hN.2
    | some s' =>
      simp only [Reactive.last, hs]
      exact ih (inStep_step h hN.1 hs) hN.2

/-- What happens before `connect()` and after it. -/
def session (o : Options) (before : List Event) (token : Option AccessToken)
    (after : List Event) : State :=
  Reactive.last (step o) ((Reactive.last (step o) fresh before).connect token) after

theorem inStep_session (before after : List Event) (token : Option AccessToken)
    (hN : ∀ e ∈ before ++ after, e.Names N) : (session o before token after).line.InStep N := by
  rw [List.forall_mem_append] at hN
  have hfresh : fresh.line.InStep N := by
    refine ⟨fun x hx => ?_, fun ws hws => ?_, fun ws hws => ?_, fun ws hws => ?_⟩
    · cases hx
    · cases hws
    · cases hws
    · cases hws
  have hbefore := inStep_run (o := o) hfresh before hN.1
  refine inStep_run ?_ after hN.2
  exact inStep_openSocket (s := { Reactive.last (step o) fresh before with
    manuallyClosed := false, destroyed := false }) hbefore token

/-! ### What the server reads -/

/-- The conversation that a frame names; `readUuid` is how pydantic reads an id. -/
def readConversation (readUuid : Text → Option ℕ) : ConversationTarget → Option ConversationRef
  | .channel channelId => (readUuid channelId).map .channel
  | .dm userId => (readUuid userId).map .dm

/-- A frame as `client_frame_adapter` reads it; `none` if it is rejected. -/
def readFrame (readUuid : Text → Option ℕ) : ClientFrame → Option Ws.ClientFrame
  | .join conversation => (readConversation readUuid conversation).map .join
  | .leave conversation => (readConversation readUuid conversation).map .leave
  | .typing conversation => (readConversation readUuid conversation).map .typing
  | .ping => some .ping

variable {readUuid : Text → Option ℕ} {u : UserId} {topic : Topic} {c c' : ConversationRef}

theorem topicFor_inj (h : Ws.topicFor c u = Ws.topicFor c' u) : c = c' := by
  cases c with
  | channel channelId =>
    cases c' with
    | channel channelId' =>
      cases h
      rfl
    | dm userId => cases h
  | dm userId =>
    cases c' with
    | channel channelId => cases h
    | dm userId' =>
      simp only [Ws.topicFor, Messages.dmTopic, Topic.dm.injEq] at h
      have hother : ∀ a b b' : ℕ, min a b = min a b' → max a b = max a b' → b = b' := by
        omega
      rw [hother u userId userId' h.1 h.2]

/-- The topics of the conversations in a list. -/
def TopicOf (readUuid : Text → Option ℕ) (u : UserId) (joined : List ConversationTarget)
    (topic : Topic) : Prop :=
  ∃ x ∈ joined, ∃ c, readConversation readUuid x = some c ∧ Ws.topicFor c u = topic

/-- No conversation that is joined or left goes by two names. -/
def OneName (readUuid : Text → Option ℕ) (N : ConversationTarget → Prop) : Prop :=
  ∀ x y c, N x → N y → readConversation readUuid x = some c → readConversation readUuid y = some c →
    x = y

theorem names_of_tracked (hN : ∀ frame ∈ frames, Names N frame) : ∀ x ∈ tracked frames, N x := by
  induction frames using List.reverseRecOn with
  | nil => exact nofun
  | append_singleton frames frame ih =>
    rw [List.forall_mem_append, List.forall_mem_singleton] at hN
    have hold := ih hN.1
    intro x hx
    cases frame with
    | join y =>
      rcases mem_tracked_join.mp hx with rfl | hx
      · exact hN.2
      · exact hold x hx
    | leave y => exact hold x (mem_tracked_leave.mp hx).1
    | typing y =>
      rw [tracked_concat] at hx
      exact hold x hx
    | ping =>
      rw [tracked_concat] at hx
      exact hold x hx

/-- **The server subscribes the connection to the conversations asked for.** -/
theorem mem_subscribedBy (hname : OneName readUuid N) (hN : ∀ frame ∈ frames, Names N frame) :
    topic ∈ Ws.subscribedBy u (frames.map (readFrame readUuid)) ↔
      topic = .user u ∨ TopicOf readUuid u (tracked frames) topic := by
  induction frames using List.reverseRecOn with
  | nil => simp [Ws.subscribedBy, TopicOf, tracked]
  | append_singleton frames frame ih =>
    rw [List.forall_mem_append, List.forall_mem_singleton] at hN
    have hold := ih hN.1
    have htracked := names_of_tracked hN.1
    rw [List.map_append, List.map_singleton, Ws.subscribedBy_concat]
    cases frame with
    | join y =>
      cases hy : readConversation readUuid y with
      | none =>
        -- the server rejects the frame, and the name is of no conversation
        simp only [readFrame, hy, Option.map_none, Ws.askFor, ih hN.1, TopicOf]
        refine or_congr_right (exists_congr fun x => ?_)
        rw [mem_tracked_join]
        constructor
        · exact fun hx => ⟨.inr hx.1, hx.2⟩
        · rintro ⟨rfl | hx, c, hc, htopic⟩
          · rw [hy] at hc
            cases hc
          · exact ⟨hx, c, hc, htopic⟩
      | some c =>
        simp only [readFrame, hy, Option.map_some, Ws.askFor, List.mem_insert_iff, ih hN.1, TopicOf,
          mem_tracked_join]
        constructor
        · rintro (rfl | rfl | ⟨x, hx, hrest⟩)
          · exact .inr ⟨y, .inl rfl, c, hy, rfl⟩
          · exact .inl rfl
          · exact .inr ⟨x, .inr hx, hrest⟩
        · rintro (rfl | ⟨x, rfl | hx, c', hc', htopic⟩)
          · exact .inr (.inl rfl)
          · rw [hy] at hc'
            cases hc'
            exact .inl htopic.symm
          · exact .inr (.inr ⟨x, hx, c', hc', htopic⟩)
    | leave y =>
      cases hy : readConversation readUuid y with
      | none =>
        simp only [readFrame, hy, Option.map_none, Ws.askFor, ih hN.1, TopicOf]
        refine or_congr_right (exists_congr fun x => ?_)
        rw [mem_tracked_leave]
        constructor
        · rintro ⟨hx, c, hc, htopic⟩
          refine ⟨⟨hx, ?_⟩, c, hc, htopic⟩
          rintro rfl
          rw [hy] at hc
          cases hc
        · exact fun hx => ⟨hx.1.1, hx.2⟩
      | some c =>
        simp only [readFrame, hy, Option.map_some, Ws.askFor, List.mem_filter, decide_eq_true_eq,
          ih hN.1, TopicOf, mem_tracked_leave]
        constructor
        · rintro ⟨rfl | ⟨x, hx, c', hc', rfl⟩, hne⟩
          · exact .inl rfl
          · refine .inr ⟨x, ⟨hx, ?_⟩, c', hc', rfl⟩
            rintro rfl
            rw [hy] at hc'
            cases hc'
            exact hne rfl
        · rintro (rfl | ⟨x, ⟨hx, hxy⟩, c', hc', rfl⟩)
          · refine ⟨.inl rfl, ?_⟩
            cases c <;> simp [Ws.topicFor, Messages.dmTopic]
          · refine ⟨.inr ⟨x, hx, c', hc', rfl⟩, fun htopic => hxy ?_⟩
            -- the same conversation, so the same name
            rw [topicFor_inj htopic] at hc'
            exact hname x y c (htracked x hx) hN.2 hc' hy
    | typing y =>
      rw [tracked_concat]
      cases hy : readConversation readUuid y <;> simpa [readFrame, hy, Ws.askFor] using ih hN.1
    | ping =>
      rw [tracked_concat]
      simpa [readFrame, Ws.askFor] using ih hN.1

/-! ### Resubscription -/

/-- The conversations of the `join` and `leave` calls. -/
def Called (es : List Event) (x : ConversationTarget) : Prop := .join x ∈ es ∨ .leave x ∈ es

theorem names_called (es : List Event) : ∀ e ∈ es, e.Names (Called es) := by
  intro e he
  cases e with
  | join x => exact .inl he
  | leave x => exact .inr he
  | _ => trivial

variable {T I : Type} [DecidableEq T] [DecidableEq I] {inst : T → I} {settings : Ws.Settings}
  {task : T → Ws.Task} {p q : Interleave.Pool T Ws.Op Ws.Op.Res Exc (Option Bool) (Ws.State T I)}
  {ls : List (Interleave.Label T Ws.Choice (Ws.WsEvent I))}

/-- **Resubscription.** Whatever calls, opens, closes, timers and refreshes a client has gone
through, and whatever the other connections do: when its socket is open and the process that serves
it has received every frame sent on it, has acted on them and waits for the next one, every join
authorised, then the connection is subscribed to the topic of its user and to those of the
conversations that the client tracks as joined, and to nothing else. -/
theorem resubscription {before after : List Event} {token : Option AccessToken} {i : ℕ}
    (hname : OneName readUuid (Called (before ++ after)))
    (hi : (session o before token after).socket = some i)
    (hws : (session o before token after).sockets[i]? = some ws)
    (hopen : ws.readyState = .open)
    (hp : Ws.Start settings task p) (hrun : (Ws.machine inst).run p ls = some q) {t : T}
    {deadline : Time} (hwaits : (q.prog t).next = some (.receive deadline))
    (hreceived : Ws.framesOf (q.world.own t) = ws.sent.map (readFrame readUuid))
    (hjoins : Ws.JoinsAuthorised (q.world.own t)) {cs : Ws.ConnectionState}
    (hcs : q.world.state.connections t = some cs) :
    ∀ topic, topic ∈ cs.subscribedTopics ↔ topic = .user cs.userId ∨
      TopicOf readUuid cs.userId (session o before token after).joined topic := by
  intro topic
  have hin := inStep_session (o := o) before after token (names_called (before ++ after))
  have hcurrent : (session o before token after).line.current = some ws := by
    show (session o before token after).socket.bind _ = some ws
    rw [hi]
    exact hws
  rw [Ws.subscribed_of_waiting hp hrun hwaits hjoins hcs, hreceived,
    mem_subscribedBy hname (hin.sent ws hcurrent)]
  unfold TopicOf
  simp only [hin.opened ws hcurrent hopen]
  rfl

/-! ### A client that changes channels while its socket is closed -/

/-- The name of a channel. -/
def channelCalled (n : Uuid) : ConversationTarget := .channel n.str

/-- The ids of two channels, as they are read. -/
def readTwo (id : Text) : Option ℕ :=
  if id = Uuid.str 1 then some 1 else if id = Uuid.str 2 then some 2 else none

/-- The socket closes, the client goes from the first channel to the second, and reconnects. -/
def movedOn : List Event :=
  [.socketOpen 0, .socketClose 0 1006, .leave (channelCalled 1), .join (channelCalled 2),
    .fire 3 (some (letter 't')), .socketOpen 1]

/-- The second connection: it is accepted, receives one `join`, and waits. -/
def joinSecond : List (Interleave.Label ℕ Ws.Choice (Ws.WsEvent ℕ)) :=
  .proc 0 (.authenticated 7) :: List.replicate 9 (.proc 0 .ok) ++
    [.proc 0 (.received (.frame (some (.join (.channel 2))))), .proc 0 .ok,
      .proc 0 (.authorized (.ok (.chan 2)))] ++ List.replicate 4 (.proc 0 .ok)

theorem oneName_movedOn :
    OneName readTwo (Called ([.join (channelCalled 1)] ++ movedOn)) := by
  have hcalled : ∀ x, Called ([.join (channelCalled 1)] ++ movedOn) x →
      x = channelCalled 1 ∨ x = channelCalled 2 := by
    intro x hx
    simp [Called, movedOn] at hx
    tauto
  have hone : readConversation readTwo (channelCalled 1) = some (.channel 1) := by decide
  have htwo : readConversation readTwo (channelCalled 2) = some (.channel 2) := by decide
  intro x y c hx hy hcx hcy
  rcases hcalled x hx with rfl | rfl <;> rcases hcalled y hy with rfl | rfl
  · rfl
  · rw [hone] at hcx
    rw [htwo, ← hcx] at hcy
    cases hcy
  · rw [htwo] at hcx
    rw [hone, ← hcx] at hcy
    cases hcy
  · rfl

theorem resubscription_movedOn : ∃ q cs, (Ws.machine (I := ℕ) id).run Ws.oneTab joinSecond = some q ∧
    q.world.state.connections 0 = some cs ∧
    ∀ topic, topic ∈ cs.subscribedTopics ↔ topic = .user cs.userId ∨
      TopicOf readTwo cs.userId (session defaultOptions [.join (channelCalled 1)] (some (letter 't'))
        movedOn).joined topic := by
  obtain ⟨q, hq⟩ : ∃ q, (Ws.machine (I := ℕ) id).run Ws.oneTab joinSecond = some q :=
    Option.isSome_iff_exists.mp (by decide +kernel)
  have hserver : ((Ws.machine (I := ℕ) id).run Ws.oneTab joinSecond).all (fun q =>
      decide ((q.prog 0).next = some (.receive 45000)) &&
      decide (Ws.framesOf (q.world.own 0) = [some (.join (.channel 2))]) &&
      decide (Ws.JoinsAuthorised (q.world.own 0)) &&
      decide (q.world.state.connections 0 = some ⟨7, [.chan 2, .user 7]⟩)) = true := by
    decide +kernel
  rw [hq, Option.all_some] at hserver
  simp only [Bool.and_eq_true, decide_eq_true_eq] at hserver
  obtain ⟨⟨⟨hwaits, hframes⟩, hjoins⟩, hcs⟩ := hserver
  have hp : Ws.Start {} (fun _ => Ws.Task.connection 2) Ws.oneTab :=
    ⟨⟨0, fun _ => none, rfl⟩, rfl, fun _ => rfl⟩
  have hreceived : Ws.framesOf (q.world.own 0) =
      [ClientFrame.join (channelCalled 2)].map (readFrame readTwo) :=
    hframes.trans (by decide)
  have hws : (session defaultOptions [.join (channelCalled 1)] (some (letter 't'))
      movedOn).sockets[1]? =
      some ⟨letter 't', .open, [.join (channelCalled 2)]⟩ := by decide
  exact ⟨q, _, hq, hcs, resubscription (i := 1) oneName_movedOn (by decide) hws rfl hp hq hwaits
    hreceived hjoins hcs⟩

/-! ### A client that spells one id in two ways -/

/-- An id is read as `UUID(s)` reads it. -/
def readUuidStr (id : Text) : Option ℕ := (Uuid.ofStr id).map Fin.val

/-- The name of a channel in capital letters. -/
def channelInCapitals (n : Uuid) : ConversationTarget := .channel (n.str.map Char.toUpper)

/-- The client joins a channel under one spelling of its id and leaves it under another. -/
def respelt : List Event :=
  [.socketOpen 0, .join (channelInCapitals 10), .leave (channelCalled 10)]

/-- One connection, which reads at most three frames. -/
def longTab : Interleave.Pool ℕ Ws.Op Ws.Op.Res Exc (Option Bool) (Ws.State ℕ ℕ) where
  world := ⟨.initial 0 fun _ => none, []⟩
  prog _ := (Ws.Task.connection 3).program Ws.defaults

/-- The connection is accepted, receives the `join` and the `leave` of one channel, and waits. -/
def joinThenLeave : List (Interleave.Label ℕ Ws.Choice (Ws.WsEvent ℕ)) :=
  .proc 0 (.authenticated 7) :: List.replicate 9 (.proc 0 .ok) ++
    [.proc 0 (.received (.frame (some (.join (.channel 10))))), .proc 0 .ok,
      .proc 0 (.authorized (.ok (.chan 10)))] ++ List.replicate 4 (.proc 0 .ok) ++
    .proc 0 (.received (.frame (some (.leave (.channel 10))))) :: List.replicate 3 (.proc 0 .ok)

/-- The client goes on tracking the channel, and the server has unsubscribed the connection. -/
theorem resubscription_respelt : ∃ ws q cs,
    (session defaultOptions [] (some (letter 't')) respelt).socket = some 0 ∧
    (session defaultOptions [] (some (letter 't')) respelt).sockets[0]? = some ws ∧
    ws.readyState = .open ∧ Ws.Start {} (fun _ => Ws.Task.connection 3) longTab ∧
    (Ws.machine (I := ℕ) id).run longTab joinThenLeave = some q ∧
    (q.prog 0).next = some (.receive 45000) ∧
    Ws.framesOf (q.world.own 0) = ws.sent.map (readFrame readUuidStr) ∧
    Ws.JoinsAuthorised (q.world.own 0) ∧ q.world.state.connections 0 = some cs ∧
    ¬∀ topic, topic ∈ cs.subscribedTopics ↔ topic = .user cs.userId ∨
      TopicOf readUuidStr cs.userId (session defaultOptions [] (some (letter 't')) respelt).joined
        topic := by
  obtain ⟨q, hq⟩ : ∃ q, (Ws.machine (I := ℕ) id).run longTab joinThenLeave = some q :=
    Option.isSome_iff_exists.mp (by decide +kernel)
  have hserver : ((Ws.machine (I := ℕ) id).run longTab joinThenLeave).all (fun q =>
      decide ((q.prog 0).next = some (.receive 45000)) &&
      decide (Ws.framesOf (q.world.own 0) =
        [some (.join (.channel 10)), some (.leave (.channel 10))]) &&
      decide (Ws.JoinsAuthorised (q.world.own 0)) &&
      decide (q.world.state.connections 0 = some ⟨7, [.user 7]⟩)) = true := by
    decide +kernel
  rw [hq, Option.all_some] at hserver
  simp only [Bool.and_eq_true, decide_eq_true_eq] at hserver
  obtain ⟨⟨⟨hwaits, hframes⟩, hjoins⟩, hcs⟩ := hserver
  have hp : Ws.Start {} (fun _ => Ws.Task.connection 3) longTab :=
    ⟨⟨0, fun _ => none, rfl⟩, rfl, fun _ => rfl⟩
  have hreceived : Ws.framesOf (q.world.own 0) = [ClientFrame.join (channelInCapitals 10),
      .leave (channelCalled 10)].map (readFrame readUuidStr) :=
    hframes.trans (by decide +kernel)
  have hws : (session defaultOptions [] (some (letter 't')) respelt).sockets[0]? =
      some ⟨letter 't', .open,
      [.join (channelInCapitals 10), .leave (channelCalled 10)]⟩ := by decide +kernel
  have hjoined : (session defaultOptions [] (some (letter 't')) respelt).joined =
      [channelInCapitals 10] := by decide +kernel
  refine ⟨_, q, _, by decide +kernel, hws, rfl, hp, hq, hwaits, hreceived, hjoins, hcs,
    fun hequal => ?_⟩
  have htracked : TopicOf readUuidStr 7 [channelInCapitals 10] (.chan 10) :=
    ⟨_, List.mem_singleton_self _, .channel 10, by decide +kernel, rfl⟩
  rw [hjoined] at hequal
  have hsubscribed := (hequal (.chan 10)).mpr (.inr htracked)
  simp at hsubscribed

end Chatspace.SocketClient
