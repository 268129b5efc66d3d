import Chatspace.Frontend.SocketClient
import Chatspace.Reactive.Runs

/-!
# One connection attempt at a time

A client is busy with a socket that has not closed, with a reconnect timer, or with a refresh.
`View` is what of its state this depends on; every handler is described by what it does to the view.

* `busy_le_one` — in every run, at most one of the three exists;
* `Orderly` — after `disconnect()`, a close event is not one the client would reconnect after, and a
  refresh in flight does not fail transiently;
* `socket_exclusion` — **a disconnected client stays so just in the runs that are orderly.**
-/

namespace Chatspace.SocketClient

open Frontend

/-- What the client is busy with. -/
structure View where
  created : ℕ
  unclosed : ℕ
  /-- The reconnect timers that are set. -/
  reopens : List ℕ
  reconnectTimer : Option ℕ
  refreshes : ℕ
  manuallyClosed : Bool
  destroyed : Bool

namespace State

variable (s : State)

/-- The sockets that have not closed. -/
def unclosed : ℕ := s.sockets.countP fun ws => ws.readyState ≠ .closed

/-- The reconnect timers that are set. -/
def reopens : List ℕ := (s.timers.filter fun t => t.callback = .reopen).map Timer.id

def view : View where
  created := s.sockets.length
  unclosed := s.unclosed
  reopens := s.reopens
  reconnectTimer := s.reconnectTimer
  refreshes := s.refreshes
  manuallyClosed := s.manuallyClosed
  destroyed := s.destroyed

end State

/-- Sockets that have not closed, pending reconnect timers and refreshes in flight. -/
def View.busy (v : View) : ℕ := v.unclosed + v.reopens.length + v.refreshes

/-! ### What the handlers do to the view -/

section Modify

variable {α : Type} {p : α → Bool} {f : α → α}

theorem countP_modify_of_iff (hf : ∀ x, p (f x) = p x) (l : List α) (i : ℕ) :
    (l.modify i f).countP p = l.countP p := by
  induction l generalizing i with
  | nil => simp
  | cons x l ih =>
    cases i with
    | zero => simp [List.countP_cons, hf]
    | succ i => simp [List.countP_cons, ih]

theorem countP_modify_of_not (hf : ∀ x, p (f x) = false) {l : List α} {i : ℕ} {x : α}
    (hx : l[i]? = some x) (hp : p x = true) : (l.modify i f).countP p + 1 = l.countP p := by
  induction l generalizing i with
  | nil => simp at hx
  | cons y l ih =>
    cases i with
    | zero =>
      simp only [List.getElem?_cons_zero, Option.some.injEq] at hx
      subst hx
      simp [hf, hp]
    | succ i =>
      have := ih (i := i) (by simpa using hx)
      simp only [List.modify_succ_cons, List.countP_cons]
      omega

end Modify

variable {o : Options} {s s' : State} {token : Option AccessToken}

@[simp] theorem view_setStatus (status : WsStatus) : (s.setStatus status).view = s.view := by
  unfold State.setStatus
  split <;> rfl

@[simp] theorem view_onFatal (reason : StopReason) : (s.onFatal reason).view = s.view := rfl

theorem view_onSocket {f : WebSocket → WebSocket} (i : ℕ)
    (hf : ∀ ws, (f ws).readyState = .closed ↔ ws.readyState = .closed) :
    (s.onSocket i f).view = s.view := by
  have hcount : (s.onSocket i f).unclosed = s.unclosed :=
    countP_modify_of_iff (fun ws => by simp [hf]) s.sockets i
  simp only [State.view, hcount]
  simp [State.onSocket, State.reopens]

@[simp] theorem view_send (frame : ClientFrame) : (s.send frame).view = s.view := by
  unfold State.send
  split
  · rfl
  · split
    · exact view_onSocket _ fun ws => Iff.rfl
    · rfl

@[simp] theorem view_join (conversation : ConversationTarget) :
    (s.join conversation).view = s.view := by
  unfold State.join
  rw [view_send]
  rfl

@[simp] theorem view_leave (conversation : ConversationTarget) :
    (s.leave conversation).view = s.view := by
  unfold State.leave
  rw [view_send]
  rfl

@[simp] theorem view_sendTyping (conversation : ConversationTarget) :
    (s.sendTyping conversation).view = s.view := view_send _

theorem view_foldl_send (l : List ConversationTarget) :
    (l.foldl (fun s conversation => s.send (.join conversation)) s).view = s.view := by
  induction l generalizing s with
  | nil => rfl
  | cons c l ih => rw [List.foldl_cons, ih, view_send]

/-- A timer for something else than a reconnect. -/
theorem view_setTimer {callback : TimerCallback} (h : callback ≠ .reopen) (delayMs : ℕ) :
    (s.setTimer callback delayMs).view = s.view := by
  simp [State.view, State.setTimer, State.reopens, State.unclosed, List.filter_append, h]

@[simp] theorem view_handleOpen : (s.handleOpen o).view = s.view := by
  unfold State.handleOpen State.startHeartbeat
  simp only
  have hstable : ∀ (s : State) (n : ℕ), ({ s.setTimer .stable n with
      stableTimer := some s.nextTimer } : State).view = s.view := by
    intro s n
    have hne : TimerCallback.stable ≠ .reopen := by decide
    exact view_setTimer (s := s) hne n
  have hheartbeat : ∀ (s : State) (n : ℕ), ({ s.setTimer .heartbeat n with
      heartbeatTimer := some s.nextTimer } : State).view = s.view := by
    intro s n
    have hne : TimerCallback.heartbeat ≠ .reopen := by decide
    exact view_setTimer (s := s) hne n
  rw [hstable, hheartbeat, view_foldl_send, view_setStatus]
  rfl

theorem view_openSocket (s : State) (token : Option AccessToken) :
    (s.openSocket token).view = s.view ∨
    (s.openSocket token).view =
      { s.view with created := s.view.created + 1, unclosed := s.view.unclosed + 1 } := by
  unfold State.openSocket
  split
  · exact .inl (view_setStatus _)
  · rename_i token
    have h := view_setStatus (s := s)
      (if 0 < s.reconnectAttempt then .reconnecting else .connecting)
    simp only [State.view, View.mk.injEq] at h
    obtain ⟨hc, hu, hr, ht, hf, hm, hd⟩ := h
    have hcount : (s.setStatus (if 0 < s.reconnectAttempt then .reconnecting else
        .connecting)).sockets.countP (fun ws => ws.readyState ≠ .closed) = s.unclosed := hu
    apply Or.inr
    simp only [State.view, View.mk.injEq]
    refine ⟨by simp [hc], ?_, hr, ht, hf, hm, hd⟩
    simp only [State.unclosed, List.countP_append, hcount]
    rfl

/-- A reconnect is scheduled. -/
theorem view_reopen (delayMs : ℕ) : ({ s.setTimer .reopen delayMs with
    reconnectTimer := some s.nextTimer } : State).view =
      { s.view with
        reopens := s.view.reopens ++ [s.nextTimer], reconnectTimer := some s.nextTimer } := by
  simp [State.view, State.setTimer, State.reopens, State.unclosed, List.filter_append]

theorem view_scheduleReconnect : ∃ id, (s.scheduleReconnect o).view =
    { s.view with reopens := s.view.reopens ++ [id], reconnectTimer := some id } := by
  refine ⟨(s.setStatus .reconnecting).nextTimer, ?_⟩
  unfold State.scheduleReconnect
  simp only
  rw [view_reopen (s := { s.setStatus .reconnecting with
    reconnectAttempt := (s.setStatus .reconnecting).reconnectAttempt + 1 })]
  have h : ({ s.setStatus .reconnecting with
      reconnectAttempt := (s.setStatus .reconnecting).reconnectAttempt + 1 } : State).view =
      s.view := view_setStatus .reconnecting
  rw [h]

theorem reopens_clear (timer : Option ℕ) :
    (s.clear timer).reopens = s.reopens.filter fun id => timer ≠ some id := by
  simp [State.reopens, State.clear, List.filter_map, List.filter_filter, Bool.and_comm,
    Function.comp_def]

theorem view_clear (timer : Option ℕ) : (s.clear timer).view =
    { s.view with reopens := s.view.reopens.filter fun id => timer ≠ some id } := by
  simp only [State.view, reopens_clear]
  rfl

/-- Every reconnect timer that is set is the one the client remembers. -/
def View.Armed (v : View) : Prop := ∀ id ∈ v.reopens, v.reconnectTimer = some id

theorem view_clearTimers (h : s.view.Armed) :
    s.clearTimers.view = { s.view with reopens := [], reconnectTimer := none } := by
  have hnone : (s.clear s.reconnectTimer).reopens = [] := by
    rw [reopens_clear, List.filter_eq_nil_iff]
    intro id hid
    have hid' : s.reconnectTimer = some id := h id hid
    simp [hid']
  have hreopens : s.clearTimers.reopens = [] := by
    change (((s.clear s.reconnectTimer).clear s.heartbeatTimer).clear s.stableTimer).reopens = []
    rw [reopens_clear, reopens_clear, hnone]
    rfl
  simp only [State.view, hreopens]
  rfl

/-- A socket that had not closed has closed. -/
theorem view_finish {i : ℕ} (h : s.Unclosed i) : ∃ n, s.view.unclosed = n + 1 ∧
    (s.onSocket i WebSocket.finish).view = { s.view with unclosed := n } := by
  obtain ⟨ws, hws, hne⟩ := h
  have hcount := countP_modify_of_not (p := fun ws : WebSocket => ws.readyState ≠ .closed)
    (f := WebSocket.finish) (fun ws => by simp [WebSocket.finish]) hws (by simpa using hne)
  refine ⟨(s.onSocket i WebSocket.finish).unclosed, hcount.symm, ?_⟩
  simp [State.view, State.onSocket, State.reopens]

/-- A close is followed by nothing, by a refresh, or by a reconnect; after `disconnect()` by a
reconnect just if the close code asks for one. -/
theorem view_handleClose (o : Options) (code : ℕ) (h : s.view.Armed) :
    ((s.handleClose o code).view = { s.view with reopens := [], reconnectTimer := none } ∧
      (s.manuallyClosed = true → s.destroyed = false → classifyCloseCode code true ≠ .reconnect)) ∨
    ((s.handleClose o code).view = { s.view with
        reopens := [], reconnectTimer := none, refreshes := s.view.refreshes + 1 } ∧
      (s.manuallyClosed = true → classifyCloseCode code true ≠ .reconnect)) ∨
    ∃ id, (s.handleClose o code).view =
        { s.view with reopens := [id], reconnectTimer := some id } ∧ s.destroyed = false ∧
      (s.manuallyClosed = true → classifyCloseCode code true = .reconnect) := by
  have hclear := view_clearTimers h
  have hmanual : s.clearTimers.manuallyClosed = s.manuallyClosed := rfl
  have hdestroyed : s.clearTimers.destroyed = s.destroyed := rfl
  unfold State.handleClose
  simp only [hmanual, hdestroyed]
  by_cases hd : s.destroyed = true
  · rw [if_pos hd, view_setStatus, hclear]
    exact .inl ⟨rfl, fun _ hnd => absurd (hd.symm.trans hnd) (by decide)⟩
  · rw [if_neg hd]
    generalize haction : (if (!s.manuallyClosed) = true ∧ (!s.clearTimers.openedThisAttempt) = true ∧
        classifyCloseCode code s.manuallyClosed = .reconnect then WsCloseAction.refreshAndReconnect
      else classifyCloseCode code s.manuallyClosed) = action
    have hclass : s.manuallyClosed = true → classifyCloseCode code true = action := by
      intro hm
      rw [← haction, hm]
      rfl
    cases action with
    | stop reason =>
      refine .inl ⟨?_, fun hm _ => by simp [hclass hm]⟩
      simp only
      split
      · rw [view_onFatal, view_setStatus, hclear]
      · rw [view_setStatus, hclear]
    | refreshAndReconnect =>
      refine .inr (.inl ⟨?_, fun hm => by simp [hclass hm]⟩)
      have hstatus := view_setStatus (s := s.clearTimers) .reconnecting
      rw [hclear] at hstatus
      simp only [State.view, View.mk.injEq] at hstatus ⊢
      obtain ⟨hc, hu, hr, ht, hf, hm, hd⟩ := hstatus
      exact ⟨hc, hu, hr, ht, congrArg (· + 1) hf, hm, hd⟩
    | reconnect =>
      obtain ⟨id, hid⟩ := view_scheduleReconnect (o := o) (s := s.clearTimers)
      rw [hclear] at hid
      exact .inr (.inr ⟨id, hid, by simpa using hd, hclass⟩)

/-- A refresh completes. -/
theorem view_refreshed (o : Options) (token : Option AccessToken) (outcome : State.RefreshOutcome)
    (h : s.view.Armed) :
    ((s.refreshed o token outcome).view = s.view ∧
      (outcome = .transientFailure → s.destroyed = true)) ∨
    ((s.refreshed o token outcome).view = { s.view with reopens := [], reconnectTimer := none } ∧
      s.manuallyClosed = false ∧ outcome ≠ .transientFailure) ∨
    (∃ id, (s.refreshed o token outcome).view =
        { s.view with reopens := s.view.reopens ++ [id], reconnectTimer := some id } ∧
      s.destroyed = false ∧ (s.manuallyClosed = true → outcome = .transientFailure)) ∨
    ((s.refreshed o token outcome).view =
        { s.view with created := s.view.created + 1, unclosed := s.view.unclosed + 1 } ∧
      s.manuallyClosed = false ∧ outcome ≠ .transientFailure) := by
  cases outcome with
  | rejected =>
    refine .inl ⟨?_, nofun⟩
    simp only [State.refreshed]
    split
    · rfl
    · rw [view_onFatal, view_setStatus]
  | transientFailure =>
    simp only [State.refreshed]
    split
    · rename_i hd
      exact .inl ⟨rfl, fun _ => hd⟩
    · rename_i hd
      obtain ⟨id, hid⟩ := view_scheduleReconnect (o := o) (s := s)
      exact .inr (.inr (.inl ⟨id, hid, by simpa using hd, fun _ => trivial⟩))
  | success =>
    simp only [State.refreshed]
    split
    · exact .inl ⟨rfl, nofun⟩
    · rename_i hrunning
      rw [not_or, Bool.not_eq_true, Bool.not_eq_true] at hrunning
      obtain ⟨hd, hm⟩ := hrunning
      split
      · refine .inr (.inl ⟨?_, hm, nofun⟩)
        rw [view_onFatal, view_setStatus]
        exact view_clearTimers (s := { s with refreshCycleCount := s.refreshCycleCount + 1 }) h
      · split
        · rcases view_openSocket { s with
            refreshCycleCount := s.refreshCycleCount + 1, reconnectAttempt := 0 } token with hv | hv
          · exact .inl ⟨hv, nofun⟩
          · exact .inr (.inr (.inr ⟨hv, hm, nofun⟩))
        · refine .inr (.inr (.inl ⟨s.nextTimer, ?_, hd, fun hm' => ?_⟩))
          · exact view_reopen (s := { s with
              refreshCycleCount := s.refreshCycleCount + 1, reconnectAttempt := 0 }) _
          · rw [hm] at hm'
            cases hm'

/-! ### One step -/

structure View.Inv (v : View) : Prop where
  busy : v.busy ≤ 1
  armed : v.Armed
  destroyed : v.destroyed = true → v.manuallyClosed = true

/-- After `disconnect()` and not `destroy()`, a close event is not one after which the client would
reconnect, and a refresh does not fail transiently. -/
def Orderly (s : State) (e : Event) : Prop :=
  s.manuallyClosed = true → s.destroyed = false →
    match e with
    | .socketClose _ code => classifyCloseCode code true ≠ .reconnect
    | .refreshed outcome _ => outcome ≠ .transientFailure
    | _ => True

/-- What a step does: at most one attempt is left; and after `disconnect()` nothing is created, and
no reconnect is pending just if the step was orderly. -/
structure Good (s : State) (e : Event) (s' : State) : Prop where
  inv : s'.view.Inv
  manual : s'.manuallyClosed = true ↔ s.manuallyClosed = true ∨ e = .disconnect ∨ e = .destroy
  created : s.manuallyClosed = true → s.reopens = [] → s'.sockets.length = s.sockets.length
  quiet : s.manuallyClosed = true → s.reopens = [] → (s'.reopens = [] ↔ Orderly s e)
  disconnected : s.manuallyClosed = false → s'.manuallyClosed = true → s'.reopens = []

variable {e : Event}

theorem orderly_of_running (h : s.manuallyClosed = false) : Orderly s e := by
  intro hm
  rw [h] at hm
  cases hm

/-- What a step does, read off the views. -/
theorem Good.of_view {v : View} (hv : s'.view = v) (hinv : v.Inv)
    (hmanual : v.manuallyClosed = true ↔
      s.manuallyClosed = true ∨ e = .disconnect ∨ e = .destroy)
    (hcreated : s.manuallyClosed = true → s.reopens = [] → v.created = s.sockets.length)
    (hquiet : s.manuallyClosed = true → s.reopens = [] → (v.reopens = [] ↔ Orderly s e))
    (hdisc : s.manuallyClosed = false → v.manuallyClosed = true → v.reopens = []) :
    Good s e s' := by
  subst hv
  exact ⟨hinv, hmanual, hcreated, hquiet, hdisc⟩

/-- A step that leaves the view as it is. -/
theorem Good.of_view_eq (hi : s.view.Inv) (hv : s'.view = s.view)
    (he : e ≠ .disconnect ∧ e ≠ .destroy) (ho : Orderly s e) : Good s e s' := by
  refine .of_view hv hi (by simp [he, State.view]) (fun _ _ => rfl) (fun _ hq => ?_)
    fun hm hm' => absurd (hm.symm.trans hm') (by decide)
  have hempty : s.view.reopens = [] := hq
  simp [hempty, ho]

theorem view_disconnect (h : s.view.Armed) : s.disconnect.view =
    { s.view with reopens := [], reconnectTimer := none, manuallyClosed := true } := by
  have hclear := view_clearTimers (s := { s with manuallyClosed := true }) h
  unfold State.disconnect
  simp only
  split
  · exact hclear
  · rw [view_onSocket _ fun ws => ?_]
    · exact hclear
    · unfold WebSocket.startClosing
      split
      · rename_i hopen
        rcases hopen with hopen | hopen <;> simp [hopen]
      · rfl

theorem good_disconnect (hi : s.view.Inv) : Good s .disconnect s.disconnect := by
  have hbusy := hi.busy
  refine .of_view (view_disconnect hi.armed) ⟨?_, nofun, fun _ => rfl⟩ (by simp)
    (fun _ _ => rfl) (fun _ _ => ?_) fun _ _ => rfl
  · simp only [View.busy, List.length_nil] at hbusy ⊢
    omega
  · simp [Orderly]

theorem good_destroy (hi : s.view.Inv) : Good s .destroy s.destroy := by
  have hbusy := hi.busy
  refine .of_view (view_disconnect (s := { s with destroyed := true }) hi.armed)
    ⟨?_, nofun, fun _ => rfl⟩ (by simp) (fun _ _ => rfl) (fun _ _ => ?_) fun _ _ => rfl
  · simp only [View.busy, List.length_nil] at hbusy ⊢
    exact Nat.le_trans (Nat.add_le_add_right (Nat.le_add_right _ _) _) hbusy
  · simp [Orderly]

theorem good_socketClose {i code : ℕ} (hi : s.view.Inv) (hu : s.Unclosed i) :
    Good s (.socketClose i code) ((s.onSocket i WebSocket.finish).handleClose o code) := by
  obtain ⟨n, hn, hview⟩ := view_finish hu
  -- the socket was the one attempt there was
  have hbusy := hi.busy
  rw [View.busy, hn] at hbusy
  have hreopens : s.view.reopens = [] := List.length_eq_zero_iff.mp (by omega)
  have hn0 : n = 0 := by omega
  have hf : s.view.refreshes = 0 := by omega
  subst hn0
  have harmed : (s.onSocket i WebSocket.finish).view.Armed := by
    rw [hview]
    exact hi.armed
  have hdm : s.destroyed = true → s.manuallyClosed = true := hi.destroyed
  rcases view_handleClose o code harmed with
    ⟨hv, hc⟩ | ⟨hv, hc⟩ | ⟨timer, hv, hd, hc⟩
  · rw [hview] at hv
    refine .of_view hv ⟨by simp [View.busy, hf], nofun, hdm⟩ (by simp [State.view]) (fun _ _ => rfl)
      (fun _ _ => ?_) fun _ _ => rfl
    simp only [Orderly, true_iff]
    exact hc
  · rw [hview] at hv
    refine .of_view hv ⟨by simp [View.busy, hf], nofun, hdm⟩ (by simp [State.view]) (fun _ _ => rfl)
      (fun _ _ => ?_) fun _ _ => rfl
    simp only [Orderly, true_iff]
    exact fun hm _ => hc hm
  · rw [hview] at hv
    refine .of_view hv ⟨by simp [View.busy, hf], ?_, hdm⟩ (by simp [State.view]) (fun _ _ => rfl)
      (fun hm _ => ?_) fun hm hm' => ?_
    · intro j hj
      rw [List.mem_singleton.mp hj]
    · have hreconnect := hc hm
      have hd' : s.destroyed = false := hd
      simp [Orderly, hm, hd', hreconnect]
    · exact absurd (hm.symm.trans hm') (by decide)

theorem good_fire {n : ℕ} {t : Timer} (hi : s.view.Inv)
    (ht : (s.timers.find? fun t => t.id = n) = some t) (hs : step o s (.fire n token) = some s') :
    Good s (.fire n token) s' := by
  have horderly : Orderly s (.fire n token) := fun _ _ => trivial
  simp only [step, ht] at hs
  have hid : t.id = n := by simpa using List.find?_some ht
  cases hcallback : t.callback with
  | heartbeat =>
    simp only [hcallback, Option.some.injEq] at hs
    subst hs
    exact .of_view_eq hi (view_send _) ⟨nofun, nofun⟩ horderly
  | stable =>
    simp only [hcallback, Option.some.injEq] at hs
    subst hs
    have hview := view_clear (s := s) (some n)
    have hbusy := hi.busy
    refine .of_view hview ⟨?_, ?_, hi.destroyed⟩ (by simp [State.view]) (fun _ _ => rfl) (fun _ hq => ?_)
      fun hm hm' => absurd (hm.symm.trans hm') (by decide)
    · have hlen := List.length_filter_le (fun id => decide (some n ≠ some id)) s.view.reopens
      simp only [View.busy] at hbusy ⊢
      omega
    · exact fun j hj => hi.armed j (List.mem_filter.mp hj).1
    · have hempty : s.view.reopens = [] := hq
      simp [hempty, horderly]
  | reopen =>
    simp only [hcallback, Option.some.injEq] at hs
    subst hs
    -- the timer was the one attempt there was
    have hmem : n ∈ s.view.reopens := by
      refine List.mem_map.mpr ⟨t, List.mem_filter.mpr ⟨List.mem_of_find?_eq_some ht, ?_⟩, hid⟩
      simpa using hcallback
    have hbusy := hi.busy
    have hpos := List.length_pos_of_mem hmem
    simp only [View.busy] at hbusy
    have hlen : s.view.reopens.length = 1 := by omega
    have hu : s.view.unclosed = 0 := by omega
    have hf : s.view.refreshes = 0 := by omega
    have hone : s.view.reopens = [n] := by
      obtain ⟨j, hj⟩ := List.length_eq_one_iff.mp hlen
      rw [hj, List.mem_singleton] at hmem
      rw [hj, hmem]
    have hclear : (s.clear (some n)).view = { s.view with reopens := [] } := by
      rw [view_clear, hone]
      simp
    have hnever : s.reopens ≠ [] := List.ne_nil_of_mem hmem
    rcases view_openSocket (s.clear (some n)) token with hv | hv
    · rw [hclear] at hv
      refine .of_view hv ⟨?_, nofun, hi.destroyed⟩ (by simp [State.view]) (fun _ hq => absurd hq hnever)
        (fun _ hq => absurd hq hnever) fun _ _ => rfl
      simp [View.busy, hu, hf]
    · rw [hclear] at hv
      refine .of_view hv ⟨?_, nofun, hi.destroyed⟩ (by simp [State.view]) (fun _ hq => absurd hq hnever)
        (fun _ hq => absurd hq hnever) fun _ _ => rfl
      simp [View.busy, hu, hf]

theorem good_refreshed {outcome : State.RefreshOutcome} (hi : s.view.Inv)
    (hpos : 0 < s.refreshes) : Good s (.refreshed outcome token)
      (({ s with refreshes := s.refreshes - 1 }).refreshed o token outcome) := by
  have hbusy := hi.busy
  have hpos' : 0 < s.view.refreshes := hpos
  simp only [View.busy] at hbusy
  -- the refresh was the one attempt there was
  have hreopens : s.view.reopens = [] := List.length_eq_zero_iff.mp (by omega)
  have hu : s.view.unclosed = 0 := by omega
  have hf : s.refreshes - 1 = 0 := by
    have hone : s.view.refreshes = 1 := by omega
    exact Nat.sub_eq_zero_of_le (Nat.le_of_eq hone)
  have hrest : ({ s with refreshes := s.refreshes - 1 } : State).view =
      { s.view with reopens := [], unclosed := 0, refreshes := 0 } := by
    exact (View.mk.injEq ..).mpr ⟨rfl, hu, hreopens, rfl, hf, rfl, rfl⟩
  have harmed : ({ s with refreshes := s.refreshes - 1 } : State).view.Armed := by
    rw [hrest]
    exact nofun
  have hdm : s.destroyed = true → s.manuallyClosed = true := hi.destroyed
  rcases view_refreshed o token outcome harmed with
    ⟨hv, hc⟩ | ⟨hv, hm, hc⟩ | ⟨timer, hv, hd, hc⟩ | ⟨hv, hm, hc⟩
  · rw [hrest] at hv
    refine .of_view hv ⟨by simp [View.busy], nofun, hdm⟩ (by simp [State.view]) (fun _ _ => rfl)
      (fun _ _ => ?_) fun _ _ => rfl
    simp only [Orderly, true_iff]
    intro _ hnd htransient
    exact absurd ((hc htransient).symm.trans hnd) (by decide)
  · rw [hrest] at hv
    have hrunning : s.manuallyClosed = false := hm
    refine .of_view hv ⟨by simp [View.busy], nofun, hdm⟩ (by simp [State.view]) (fun _ _ => rfl)
      (fun _ _ => ?_) fun _ _ => rfl
    simp [orderly_of_running hrunning]
  · rw [hrest] at hv
    refine .of_view hv ⟨by simp [View.busy], ?_, hdm⟩ (by simp [State.view]) (fun _ _ => rfl)
      (fun hm _ => ?_) fun hm hm' => ?_
    · intro j hj
      rw [List.nil_append, List.mem_singleton] at hj
      rw [hj]
    · have htransient := hc hm
      have hd' : s.destroyed = false := hd
      simp [Orderly, hm, hd', htransient]
    · exact absurd (hm.symm.trans hm') (by decide)
  · rw [hrest] at hv
    have hrunning : s.manuallyClosed = false := hm
    refine .of_view hv ⟨by simp [View.busy], nofun, hdm⟩ (by simp [State.view]) (fun hm' _ => ?_)
      (fun _ _ => ?_) fun _ _ => rfl
    · exact absurd (hrunning.symm.trans hm') (by decide)
    · simp [orderly_of_running hrunning]

/-- **What one step does.** -/
theorem step_good (hi : s.view.Inv) (hs : step o s e = some s') : Good s e s' := by
  cases e with
  | join conversation =>
    cases hs
    exact .of_view_eq hi (view_join conversation) ⟨nofun, nofun⟩ fun _ _ => trivial
  | leave conversation =>
    cases hs
    exact .of_view_eq hi (view_leave conversation) ⟨nofun, nofun⟩ fun _ _ => trivial
  | sendTyping conversation =>
    cases hs
    exact .of_view_eq hi (view_sendTyping conversation) ⟨nofun, nofun⟩ fun _ _ => trivial
  | disconnect =>
    cases hs
    exact good_disconnect hi
  | destroy =>
    cases hs
    exact good_destroy hi
  | socketOpen i =>
    simp only [step, Option.ite_none_right_eq_some, Option.some.injEq] at hs
    obtain ⟨-, rfl⟩ := hs
    refine .of_view_eq hi ?_ ⟨nofun, nofun⟩ fun _ _ => trivial
    rw [view_handleOpen, view_onSocket i fun ws => ?_]
    unfold WebSocket.establish
    split
    · rename_i h
      simp [h]
    · rfl
  | socketError i =>
    simp only [step, Option.ite_none_right_eq_some, Option.some.injEq] at hs
    obtain ⟨-, rfl⟩ := hs
    exact .of_view_eq hi rfl ⟨nofun, nofun⟩ fun _ _ => trivial
  | socketClose i code =>
    simp only [step, Option.ite_none_right_eq_some, Option.some.injEq] at hs
    obtain ⟨hu, rfl⟩ := hs
    exact good_socketClose hi hu
  | fire n token =>
    cases ht : s.timers.find? fun t => t.id = n with
    | none => simp [step, ht] at hs
    | some t => exact good_fire hi ht hs
  | refreshed outcome token =>
    simp only [step, Option.ite_none_right_eq_some, Option.some.injEq] at hs
    obtain ⟨hpos, rfl⟩ := hs
    exact good_refreshed hi hpos

/-! ### Runs -/

/-- The client after its `connect()`. -/
def connected (token : Option AccessToken) : State := fresh.connect token

theorem inv_connected (token : Option AccessToken) : (connected token).view.Inv := by
  rcases view_openSocket fresh token with h | h
  · have hview : (connected token).view = fresh.view := h
    rw [hview]
    exact ⟨by decide, nofun, nofun⟩
  · have hview : (connected token).view =
        { fresh.view with created := fresh.view.created + 1, unclosed := fresh.view.unclosed + 1 } := h
    rw [hview]
    exact ⟨by decide, nofun, nofun⟩

theorem manuallyClosed_connected (token : Option AccessToken) :
    (connected token).manuallyClosed = false := by
  rcases view_openSocket fresh token with h | h
  · exact congrArg View.manuallyClosed h
  · exact congrArg View.manuallyClosed h

/-- **At most one attempt exists, in every run.** -/
theorem busy_le_one (o : Options) (token : Option AccessToken) (es : List Event) :
    ∀ x ∈ Reactive.transitions (step o) (connected token) es, x.2.2.view.busy ≤ 1 := by
  refine Reactive.transitions_of_inv (I := fun s : State => s.view.Inv) (C := fun _ _ => True)
    (Q := fun _ _ s' => s'.view.busy ≤ 1) (fun s e s' hi _ hs => ?_) (inv_connected token) es
    fun _ _ => trivial
  exact ⟨(step_good hi hs).inv, (step_good hi hs).inv.busy⟩

/-- The flag says that `disconnect()` or `destroy()` has been called. -/
theorem manuallyClosed_iff (o : Options) (token : Option AccessToken) (es : List Event) :
    (Reactive.last (step o) (connected token) es).manuallyClosed = true ↔
      .disconnect ∈ es ∨ .destroy ∈ es := by
  have hrun : ∀ s : State, s.view.Inv → ((Reactive.last (step o) s es).manuallyClosed = true ↔
      s.manuallyClosed = true ∨ .disconnect ∈ es ∨ .destroy ∈ es) := by
    induction es with
    | nil =>
      intro s _
      simp [Reactive.last]
    | cons e es ih =>
      intro s hi
      cases hs : step o s e with
      | none =>
        have hne : e ≠ .disconnect ∧ e ≠ .destroy := by
          constructor <;> (rintro rfl; cases hs)
        simp only [Reactive.last, hs, ih s hi, List.mem_cons, hne.1.symm, hne.2.symm, false_or]
      | some s' =>
        have hgood := step_good hi hs
        simp only [Reactive.last, hs, ih s' hgood.inv, hgood.manual, List.mem_cons]
        rw [eq_comm (a := e), eq_comm (a := e)]
        tauto
  rw [hrun _ (inv_connected token), manuallyClosed_connected]
  simp

/-- What is claimed of a step from `s` to `s'`: at most one attempt exists; and once `disconnect()`
or `destroy()` has been called, no reconnect is pending and no socket is created. -/
structure Exclusive (s s' : State) : Prop where
  busy : s'.view.busy ≤ 1
  noReconnect : s'.manuallyClosed = true → s'.reopens = []
  noSocket : s.manuallyClosed = true → s'.sockets.length = s.sockets.length

/-- A run up to a step that is not orderly. -/
structure Quiet (s : State) : Prop where
  inv : s.view.Inv
  quiet : s.manuallyClosed = true → s.reopens = []

theorem orderly_iff_exclusive (hq : Quiet s) (hs : step o s e = some s') :
    Orderly s e ↔ Exclusive s s' := by
  have hgood := step_good hq.inv hs
  constructor
  · intro ho
    refine ⟨hgood.inv.busy, fun hm => ?_, fun hm => hgood.created hm (hq.quiet hm)⟩
    cases hm' : s.manuallyClosed with
    | false => exact hgood.disconnected hm' hm
    | true => exact (hgood.quiet hm' (hq.quiet hm')).mpr ho
  · intro he
    cases hm : s.manuallyClosed with
    | false => exact orderly_of_running hm
    | true =>
      exact (hgood.quiet hm (hq.quiet hm)).mp (he.noReconnect (hgood.manual.mpr (.inl hm)))

/-- **A client keeps to one attempt, and after `disconnect()` or `destroy()` to none, just in the
runs whose steps are all orderly.** -/
theorem socket_exclusion (o : Options) (token : Option AccessToken) (es : List Event) :
    (connected token).view.busy ≤ 1 ∧
    ((∀ x ∈ Reactive.transitions (step o) (connected token) es, Orderly x.1 x.2.1) ↔
      ∀ x ∈ Reactive.transitions (step o) (connected token) es, Exclusive x.1 x.2.2) := by
  refine ⟨(inv_connected token).busy, ?_⟩
  refine Reactive.transitions_iff (I := Quiet) (Q := fun s _ s' => Exclusive s s')
    (fun s e s' hq hs => orderly_iff_exclusive hq hs) (fun s e s' hq ho hs => ?_)
    ⟨inv_connected token, fun hm => ?_⟩ es
  · exact ⟨(step_good hq.inv hs).inv, ((orderly_iff_exclusive hq hs).mp ho).noReconnect⟩
  · exact absurd ((manuallyClosed_connected token).symm.trans hm) (by decide)

/-- A connection given up before it is established closes with code 1006; the client reconnects. -/
theorem reconnects_after_disconnect :
    (Reactive.last (step defaultOptions) (connected (some (letter 't')))
      [.disconnect, .socketClose 0 1006, .fire 1 (some (letter 't'))]).sockets.length = 2 ∧
    ¬ ∀ x ∈ Reactive.transitions (step defaultOptions) (connected (some (letter 't')))
        [.disconnect, .socketClose 0 1006, .fire 1 (some (letter 't'))], Exclusive x.1 x.2.2 := by
  refine ⟨by decide, fun h => ?_⟩
  have hfire := (h _ (List.mem_of_getElem? (i := 2) rfl)).noSocket rfl
  exact absurd hfire (by decide)

end Chatspace.SocketClient
