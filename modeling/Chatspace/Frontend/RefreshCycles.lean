import Chatspace.Frontend.SocketExclusion

/-!
# Refreshes without a stable connection

A client with a clock: timers fire when they are due, and a connection stays open from its `open`
event to its `close` event.

* `Cycles` — what of the state the count of refresh cycles depends on, and what each handler does
  to it;
* `Timed`, `timedStep` — runs in time;
* `refresh_cycles_bounded` — **while no connection becomes stable, one refresh more than the cap can
  succeed, and the last of them ends the client.**
-/

namespace Chatspace.SocketClient

open Frontend

/-- What the refresh cycles depend on. -/
structure Cycles where
  refreshCycleCount : ℕ
  fatals : List StopReason
  /-- The timers that reset the count. -/
  stables : List Timer
  stableTimer : Option ℕ
  nextTimer : ℕ

namespace State

variable (s : State)

def stables : List Timer := s.timers.filter fun t => t.callback = .stable

def cycles : Cycles where
  refreshCycleCount := s.refreshCycleCount
  fatals := s.fatals
  stables := s.stables
  stableTimer := s.stableTimer
  nextTimer := s.nextTimer

end State

/-! ### What the handlers do to the cycles -/

variable {o : Options} {s s' : State} {token : Option AccessToken} {e : Event}

@[simp] theorem cycles_setStatus (status : WsStatus) : (s.setStatus status).cycles = s.cycles := by
  unfold State.setStatus
  split <;> rfl

@[simp] theorem cycles_onSocket (i : ℕ) (f : WebSocket → WebSocket) :
    (s.onSocket i f).cycles = s.cycles := rfl

@[simp] theorem cycles_send (frame : ClientFrame) : (s.send frame).cycles = s.cycles := by
  unfold State.send
  split
  · rfl
  · split <;> rfl

theorem cycles_foldl_send (l : List ConversationTarget) :
    (l.foldl (fun s conversation => s.send (.join conversation)) s).cycles = s.cycles := by
  induction l generalizing s with
  | nil => rfl
  | cons c l ih => rw [List.foldl_cons, ih, cycles_send]

theorem cycles_join (conversation : ConversationTarget) :
    (s.join conversation).cycles = s.cycles := by
  unfold State.join
  rw [cycles_send]
  rfl

theorem cycles_leave (conversation : ConversationTarget) :
    (s.leave conversation).cycles = s.cycles := by
  unfold State.leave
  rw [cycles_send]
  rfl

@[simp] theorem cycles_openSocket (token : Option AccessToken) :
    (s.openSocket token).cycles = s.cycles := by
  unfold State.openSocket
  split
  · exact cycles_setStatus _
  · exact cycles_setStatus (s := s) _

theorem stables_setTimer (callback : TimerCallback) (delayMs : ℕ) :
    (s.setTimer callback delayMs).stables =
      s.stables ++ if callback = .stable then [⟨s.nextTimer, callback, delayMs⟩] else [] := by
  simp only [State.stables, State.setTimer, List.filter_append, List.filter_singleton,
    Bool.cond_decide]

/-- A reconnect is scheduled. -/
theorem cycles_reopen (delayMs : ℕ) : ({ s.setTimer .reopen delayMs with
    reconnectTimer := some s.nextTimer } : State).cycles =
      { s.cycles with nextTimer := s.cycles.nextTimer + 1 } := by
  have h := stables_setTimer (s := s) .reopen delayMs
  rw [if_neg (by decide), List.append_nil] at h
  simp only [State.cycles, Cycles.mk.injEq]
  exact ⟨rfl, rfl, h, rfl, rfl⟩

theorem cycles_scheduleReconnect : (s.scheduleReconnect o).cycles =
    { s.cycles with nextTimer := s.cycles.nextTimer + 1 } := by
  unfold State.scheduleReconnect
  simp only
  rw [cycles_reopen (s := { s.setStatus .reconnecting with
    reconnectAttempt := (s.setStatus .reconnecting).reconnectAttempt + 1 })]
  have h : ({ s.setStatus .reconnecting with
      reconnectAttempt := (s.setStatus .reconnecting).reconnectAttempt + 1 } : State).cycles =
      s.cycles := cycles_setStatus .reconnecting
  rw [h]

theorem stables_clear (timer : Option ℕ) :
    (s.clear timer).stables = s.stables.filter fun t => timer ≠ some t.id := by
  simp [State.stables, State.clear, List.filter_filter, Bool.and_comm]

/-- Every timer that resets the count is the one the client remembers. -/
def Cycles.Armed (c : Cycles) : Prop := ∀ t ∈ c.stables, c.stableTimer = some t.id

theorem cycles_clearTimers (h : s.cycles.Armed) :
    s.clearTimers.cycles = { s.cycles with stables := [], stableTimer := none } := by
  have hnone : s.clearTimers.stables = [] := by
    show (((s.clear s.reconnectTimer).clear s.heartbeatTimer).clear s.stableTimer).stables = []
    rw [stables_clear, List.filter_eq_nil_iff]
    intro t ht
    rw [stables_clear, stables_clear] at ht
    have hmem : t ∈ s.stables := (List.mem_filter.mp (List.mem_filter.mp ht).1).1
    have hid : s.stableTimer = some t.id := h t hmem
    simp [hid]
  simp only [State.cycles, hnone]
  rfl

/-- The timer that is set when a connection opens. -/
def stableTimerOf (o : Options) (s : State) : Timer :=
  ⟨s.nextTimer + 1, .stable, o.minStableConnectionMs⟩

theorem cycles_handleOpen (o : Options) (s : State) : (s.handleOpen o).cycles =
    { s.cycles with
      stables := s.stables ++ [stableTimerOf o s]
      stableTimer := some (s.nextTimer + 1)
      nextTimer := s.nextTimer + 2 } := by
  unfold State.handleOpen State.startHeartbeat
  simp only
  generalize hs₁ : (List.foldl (fun s conversation => s.send (.join conversation))
    (({ s with reconnectAttempt := 0, openedThisAttempt := true } : State).setStatus .open)
    (({ s with reconnectAttempt := 0, openedThisAttempt := true } : State).setStatus .open).joined)
      = s₁
  have h₁ : s₁.cycles = s.cycles := by
    rw [← hs₁, cycles_foldl_send, cycles_setStatus]
    rfl
  simp only [State.cycles, Cycles.mk.injEq] at h₁
  obtain ⟨hcount, hfatals, hstables, -, hnext⟩ := h₁
  have hheartbeat := stables_setTimer (s := s₁) .heartbeat o.heartbeatIntervalMs
  rw [if_neg (by decide), List.append_nil, hstables] at hheartbeat
  have hstable := stables_setTimer (s := ({ s₁.setTimer .heartbeat o.heartbeatIntervalMs with
    heartbeatTimer := some s₁.nextTimer } : State)) .stable o.minStableConnectionMs
  rw [if_pos rfl] at hstable
  have hold : ({ s₁.setTimer .heartbeat o.heartbeatIntervalMs with
      heartbeatTimer := some s₁.nextTimer } : State).stables = s.stables := hheartbeat
  rw [hold] at hstable
  have hid : (s₁.setTimer .heartbeat o.heartbeatIntervalMs).nextTimer = s.nextTimer + 1 :=
    congrArg (· + 1) hnext
  simp only [State.cycles, Cycles.mk.injEq]
  refine ⟨hcount, hfatals, ?_, congrArg some hid, congrArg (· + 1) hid⟩
  rw [stableTimerOf, ← hid]
  exact hstable

/-- A close ends no cycle; `onFatal` is called only by a client that is busy with nothing more. -/
theorem cycles_handleClose (o : Options) (code : ℕ) (hv : s.view.Armed) (hc : s.cycles.Armed) :
    (s.handleClose o code).stables = [] ∧
      (s.handleClose o code).refreshCycleCount = s.refreshCycleCount ∧
      ((s.handleClose o code).fatals = s.fatals ∨
        (∃ reason, (s.handleClose o code).fatals = s.fatals ++ [reason]) ∧
          (s.handleClose o code).view = { s.view with reopens := [], reconnectTimer := none }) := by
  have hview := view_clearTimers hv
  have hclear := cycles_clearTimers hc
  -- a state with the cycles of the one whose timers are cleared
  have hsame : ∀ s₁ : State, s₁.cycles = s.clearTimers.cycles →
      s₁.stables = [] ∧ s₁.refreshCycleCount = s.refreshCycleCount ∧ s₁.fatals = s.fatals := by
    intro s₁ h₁
    rw [hclear] at h₁
    exact ⟨congrArg Cycles.stables h₁, congrArg Cycles.refreshCycleCount h₁,
      congrArg Cycles.fatals h₁⟩
  unfold State.handleClose
  simp only
  split
  · obtain ⟨hstables, hcount, hfatals⟩ := hsame _ (cycles_setStatus .closed)
    exact ⟨hstables, hcount, .inl hfatals⟩
  · generalize (if (!s.clearTimers.manuallyClosed) = true ∧
        (!s.clearTimers.openedThisAttempt) = true ∧
        classifyCloseCode code s.clearTimers.manuallyClosed = .reconnect then
          WsCloseAction.refreshAndReconnect
      else classifyCloseCode code s.clearTimers.manuallyClosed) = action
    cases action with
    | stop reason =>
      obtain ⟨hstables, hcount, hfatals⟩ := hsame _ (cycles_setStatus .closed)
      simp only
      split
      · refine ⟨hstables, hcount, .inr ⟨⟨reason, ?_⟩, ?_⟩⟩
        · exact congrArg (· ++ [reason]) hfatals
        · rw [view_onFatal, view_setStatus, hview]
      · exact ⟨hstables, hcount, .inl hfatals⟩
    | refreshAndReconnect =>
      obtain ⟨hstables, hcount, hfatals⟩ := hsame _ (cycles_setStatus .reconnecting)
      exact ⟨hstables, hcount, .inl hfatals⟩
    | reconnect =>
      have h := cycles_scheduleReconnect (o := o) (s := s.clearTimers)
      rw [hclear] at h
      exact ⟨congrArg Cycles.stables h, congrArg Cycles.refreshCycleCount h,
        .inl (congrArg Cycles.fatals h)⟩

theorem stables_of_cycles {s₁ : State} (h : s₁.cycles = s.cycles) : s₁.stables = s.stables :=
  congrArg Cycles.stables h

/-- A success that the client acts on is counted, and one too many ends it. -/
theorem cycles_refreshed (o : Options) (token : Option AccessToken) (outcome : State.RefreshOutcome)
    (hv : s.view.Armed) (hstables : s.stables = []) (hd : s.destroyed = false)
    (hm : s.manuallyClosed = false) :
    (s.refreshed o token outcome).stables = [] ∧
      (s.refreshed o token outcome).refreshCycleCount =
        s.refreshCycleCount + (decide (outcome = .success)).toNat ∧
      (((s.refreshed o token outcome).fatals = s.fatals ∧
          (outcome = .success → s.refreshCycleCount < o.maxConsecutiveRefreshCycles)) ∨
        (∃ reason, (s.refreshed o token outcome).fatals = s.fatals ++ [reason]) ∧
          ((s.refreshed o token outcome).view = s.view ∨ (s.refreshed o token outcome).view =
            { s.view with reopens := [], reconnectTimer := none })) := by
  have hd' : ¬ s.destroyed = true := by rw [hd]; decide
  cases outcome with
  | rejected =>
    simp only [State.refreshed]
    rw [if_neg hd']
    have h := cycles_setStatus (s := s) .closed
    refine ⟨(stables_of_cycles h).trans hstables, congrArg Cycles.refreshCycleCount h,
      .inr ⟨⟨.authFailed, ?_⟩, ?_⟩⟩
    · exact congrArg (· ++ [StopReason.authFailed]) (congrArg Cycles.fatals h)
    · rw [view_onFatal, view_setStatus]
      exact .inl rfl
  | transientFailure =>
    simp only [State.refreshed]
    rw [if_neg hd']
    have h := cycles_scheduleReconnect (o := o) (s := s)
    exact ⟨(congrArg Cycles.stables h).trans hstables, congrArg Cycles.refreshCycleCount h,
      .inl ⟨congrArg Cycles.fatals h, by simp⟩⟩
  | success =>
    simp only [State.refreshed]
    rw [if_neg (by simp [hd, hm])]
    -- the counter has been increased
    generalize hs₁ : ({ s with refreshCycleCount := s.refreshCycleCount + 1 } : State) = s₁
    have hcount₁ : s₁.refreshCycleCount = s.refreshCycleCount + 1 := by rw [← hs₁]
    have hfatals₁ : s₁.fatals = s.fatals := by rw [← hs₁]
    have hstables₁ : s₁.stables = [] := by rw [← hs₁]; exact hstables
    have hview₁ : s₁.view = s.view := by rw [← hs₁]; rfl
    split
    · -- one refresh too many
      have harmed : s₁.cycles.Armed := by
        intro t ht
        have hnone : t ∈ s₁.stables := ht
        rw [hstables₁] at hnone
        cases hnone
      have h := cycles_setStatus (s := s₁.clearTimers) .closed
      rw [cycles_clearTimers harmed] at h
      refine ⟨congrArg Cycles.stables h, (congrArg Cycles.refreshCycleCount h).trans hcount₁,
        .inr ⟨⟨.authFailed, ?_⟩, .inr ?_⟩⟩
      · exact congrArg (· ++ [StopReason.authFailed]) ((congrArg Cycles.fatals h).trans hfatals₁)
      · rw [view_onFatal, view_setStatus, view_clearTimers (hview₁ ▸ hv), hview₁]
    · rename_i hle
      have hlt : s.refreshCycleCount < o.maxConsecutiveRefreshCycles := by omega
      subst hs₁
      split
      · have h := cycles_openSocket (s := { s with
          refreshCycleCount := s.refreshCycleCount + 1, reconnectAttempt := 0 }) token
        exact ⟨(congrArg Cycles.stables h).trans hstables₁,
          (congrArg Cycles.refreshCycleCount h).trans hcount₁,
          .inl ⟨(congrArg Cycles.fatals h).trans hfatals₁, fun _ => hlt⟩⟩
      · have h := cycles_reopen (s := { s with
          refreshCycleCount := s.refreshCycleCount + 1, reconnectAttempt := 0 })
          (min (o.initialMs * o.factor ^ (s.refreshCycleCount + 1 - 2)) o.maxMs)
        exact ⟨(congrArg Cycles.stables h).trans hstables₁,
          (congrArg Cycles.refreshCycleCount h).trans hcount₁,
          .inl ⟨(congrArg Cycles.fatals h).trans hfatals₁, fun _ => hlt⟩⟩

/-! ### Time -/

/-- A client, the time, when each timer was set, and when each connection was opened. -/
structure Timed where
  client : State
  now : ℕ
  setAt : ℕ → ℕ
  openedAt : ℕ → ℕ

inductive TimedEvent where
  | elapse (ms : ℕ)
  | happen (e : Event)
deriving DecidableEq

/-- A timer fires when it is due, and a connection opens that is being established. -/
def Timed.Due (τ : Timed) : Event → Prop
  | .fire id _ => ∀ t ∈ τ.client.timers, t.id = id → τ.setAt id + t.delayMs ≤ τ.now
  | .socketOpen i => τ.client.sockets[i]?.map WebSocket.readyState = some .connecting
  | _ => True

instance (τ : Timed) (e : Event) : Decidable (τ.Due e) := by
  cases e <;> (unfold Timed.Due; infer_instance)

/-- The client has reached `s` by an event. -/
def Timed.after (τ : Timed) (e : Event) (s : State) : Timed where
  client := s
  now := τ.now
  setAt id := if τ.client.nextTimer ≤ id then τ.now else τ.setAt id
  openedAt i := if e = .socketOpen i then τ.now else τ.openedAt i

def timedStep (o : Options) (τ : Timed) : TimedEvent → Option Timed
  | .elapse ms => some { τ with now := τ.now + ms }
  | .happen e => if τ.Due e then (step o τ.client e).map (τ.after e) else none

/-- The client after its `connect()` at time 0. -/
def connectedAt (token : Option AccessToken) : Timed := ⟨connected token, 0, fun _ => 0, fun _ => 0⟩

/-- No connection has been open for `minStableConnectionMs`. -/
def Timed.Unstable (o : Options) (τ : Timed) : Prop :=
  ∀ i ws, τ.client.sockets[i]? = some ws → ws.readyState = .open →
    τ.now < τ.openedAt i + o.minStableConnectionMs

theorem unstable_iff {τ : Timed} : τ.Unstable o ↔ ∀ i ∈ List.range τ.client.sockets.length,
    ∀ ws ∈ τ.client.sockets[i]?, ws.readyState = .open →
      τ.now < τ.openedAt i + o.minStableConnectionMs := by
  refine ⟨fun h i _ ws hi => h i ws hi, fun h i ws hi => h i (List.mem_range.mpr ?_) ws hi⟩
  exact (List.getElem?_eq_some_iff.mp hi).1

instance (o : Options) (τ : Timed) : Decidable (τ.Unstable o) :=
  decidable_of_iff _ unstable_iff.symm

/-- The client is neither disconnected nor destroyed. -/
def TimedEvent.Running : TimedEvent → Prop
  | .happen .disconnect | .happen .destroy => False
  | _ => True

instance (x : TimedEvent) : Decidable x.Running := by
  unfold TimedEvent.Running
  split <;> infer_instance

/-- A refresh succeeds. -/
def TimedEvent.succeeds : TimedEvent → Bool
  | .happen (.refreshed .success _) => true
  | _ => false

/-- The refreshes that succeed in a run. -/
def successes (o : Options) (τ : Timed) (es : List TimedEvent) : ℕ :=
  (Reactive.transitions (timedStep o) τ es).countP fun x => x.2.1.succeeds

/-! ### One step -/

/-- What holds while no connection is stable. -/
structure Cycling (o : Options) (τ : Timed) : Prop where
  view : τ.client.view.Inv
  running : τ.client.manuallyClosed = false
  armed : τ.client.cycles.Armed
  fresh : ∀ t ∈ τ.client.stables, t.id < τ.client.nextTimer
  /-- The timer that resets the count was set when a connection opened that is still open. -/
  stable : ∀ t ∈ τ.client.stables, t.delayMs = o.minStableConnectionMs ∧
    ∃ i ws, τ.client.sockets[i]? = some ws ∧ ws.readyState = .open ∧ τ.openedAt i ≤ τ.setAt t.id
  live : τ.client.fatals = [] → τ.client.refreshCycleCount ≤ o.maxConsecutiveRefreshCycles
  dead : τ.client.fatals ≠ [] → τ.client.fatals.length = 1 ∧ τ.client.view.busy = 0 ∧
    τ.client.refreshCycleCount ≤ o.maxConsecutiveRefreshCycles + 1

theorem Cycling.destroyed {τ : Timed} (h : Cycling o τ) : τ.client.destroyed = false := by
  cases hd : τ.client.destroyed with
  | false => rfl
  | true => exact absurd (h.running.symm.trans (h.view.destroyed hd)) (by decide)

/-- An open socket has not closed. -/
theorem unclosed_pos {i : ℕ} {ws : WebSocket} (hi : s.sockets[i]? = some ws)
    (hws : ws.readyState ≠ .closed) : 0 < s.view.unclosed := by
  refine List.countP_pos_iff.mpr ⟨ws, List.mem_of_getElem? hi, ?_⟩
  simpa using hws

/-- At most one socket has not closed. -/
theorem unclosed_unique (h : s.view.unclosed ≤ 1) {i j : ℕ} {ws ws' : WebSocket}
    (hi : s.sockets[i]? = some ws) (hws : ws.readyState ≠ .closed)
    (hj : s.sockets[j]? = some ws') (hws' : ws'.readyState ≠ .closed) : i = j := by
  by_contra hne
  obtain ⟨n, hn, hview⟩ := view_finish ⟨ws', hj, hws'⟩
  have hi' : (s.onSocket j WebSocket.finish).sockets[i]? = some ws := by
    simp [State.onSocket, hi, Ne.symm hne]
  have hpos := unclosed_pos hi' hws
  rw [hview] at hpos
  simp only at hpos
  omega

/-- Where no socket is open no timer is set that resets the count. -/
theorem Cycling.stables_nil {τ : Timed} (h : Cycling o τ) (hu : τ.client.view.unclosed = 0) :
    τ.client.stables = [] := by
  rw [List.eq_nil_iff_forall_not_mem]
  intro t ht
  obtain ⟨-, i, ws, hi, hopen, -⟩ := h.stable t ht
  have hpos := unclosed_pos hi (by rw [hopen]; decide)
  omega

/-- Open sockets stay open. -/
def StaysOpen (s s' : State) : Prop :=
  ∀ (i : ℕ) (ws : WebSocket), s.sockets[i]? = some ws → ws.readyState = .open →
    ∃ ws' : WebSocket, s'.sockets[i]? = some ws' ∧ ws'.readyState = .open

theorem staysOpen_refl (h : s'.sockets = s.sockets) : StaysOpen s s' := by
  intro i ws hi hws
  rw [h]
  exact ⟨ws, hi, hws⟩

theorem staysOpen_send (frame : ClientFrame) : StaysOpen s (s.send frame) := by
  unfold State.send
  split
  · exact staysOpen_refl rfl
  · rename_i j hj
    split
    · intro i ws hi hws
      simp only [State.onSocket, List.getElem?_modify, hi]
      refine ⟨_, rfl, ?_⟩
      split <;> exact hws
    · exact staysOpen_refl rfl

/-- An event that changes neither sets the client's invariant at risk. -/
theorem Cycling.keep {τ : Timed} (h : Cycling o τ) (hview : s'.view = τ.client.view)
    (hcycles : s'.cycles = τ.client.cycles) (hopen : StaysOpen τ.client s')
    (he : ∀ i, e ≠ .socketOpen i) : Cycling o (τ.after e s') := by
  simp only [State.cycles, Cycles.mk.injEq] at hcycles
  obtain ⟨hcount, hfatals, hstables, htimer, hnext⟩ := hcycles
  refine ⟨hview ▸ h.view, (congrArg View.manuallyClosed hview).trans h.running, ?_, ?_, ?_, ?_, ?_⟩
  · intro t ht
    have ht' : t ∈ s'.stables := ht
    rw [hstables] at ht'
    exact htimer.trans (h.armed t ht')
  · intro t ht
    have ht' : t ∈ s'.stables := ht
    rw [hstables] at ht'
    show t.id < s'.nextTimer
    rw [hnext]
    exact h.fresh t ht'
  · intro t ht
    have ht' : t ∈ s'.stables := ht
    rw [hstables] at ht'
    obtain ⟨hdelay, i, ws, hi, hws, hle⟩ := h.stable t ht'
    obtain ⟨ws', hi', hws'⟩ := hopen i ws hi hws
    refine ⟨hdelay, i, ws', hi', hws', ?_⟩
    have hfresh := h.fresh t ht'
    simp only [Timed.after, if_neg (he i), if_neg (Nat.not_le.mpr hfresh)]
    exact hle
  · intro hnil
    show s'.refreshCycleCount ≤ _
    rw [hcount]
    exact h.live (hfatals.symm.trans hnil)
  · intro hne
    show s'.fatals.length = 1 ∧ s'.view.busy = 0 ∧ s'.refreshCycleCount ≤ _
    rw [hfatals, hview, hcount]
    exact h.dead fun hnil => hne (hfatals.trans hnil)

/-- An event after which no timer is set that resets the count. -/
theorem Cycling.cleared {τ : Timed} (hview : s'.view.Inv) (hrunning : s'.manuallyClosed = false)
    (hstables : s'.stables = [])
    (hlive : s'.fatals = [] → s'.refreshCycleCount ≤ o.maxConsecutiveRefreshCycles)
    (hdead : s'.fatals ≠ [] → s'.fatals.length = 1 ∧ s'.view.busy = 0 ∧
      s'.refreshCycleCount ≤ o.maxConsecutiveRefreshCycles + 1) : Cycling o (τ.after e s') := by
  have hnone : ∀ t, t ∉ s'.stables := by
    intro t ht
    rw [hstables] at ht
    cases ht
  exact ⟨hview, hrunning, fun t ht => absurd ht (hnone t), fun t ht => absurd ht (hnone t),
    fun t ht => absurd ht (hnone t), hlive, hdead⟩

/-- A client that is busy with something has not called `onFatal`. -/
theorem Cycling.fatals_nil {τ : Timed} (h : Cycling o τ) (hbusy : 0 < τ.client.view.busy) :
    τ.client.fatals = [] := by
  by_contra hne
  have hzero := (h.dead hne).2.1
  omega

/-- The timer that is set when a connection opens is the only one. -/
theorem Cycling.socketOpen {τ : Timed} (h : Cycling o τ) {i : ℕ}
    (hdue : τ.Due (.socketOpen i)) (hview : s'.view.Inv) (hrunning : s'.manuallyClosed = false)
    (hs' : s' = (τ.client.onSocket i WebSocket.establish).handleOpen o)
    (hopened : ∃ ws : WebSocket, s'.sockets[i]? = some ws ∧ ws.readyState = .open) :
    Cycling o (τ.after (.socketOpen i) s') := by
  obtain ⟨ws, hws, hconnecting⟩ := Option.map_eq_some_iff.mp hdue
  have hne : ws.readyState ≠ .closed := by rw [hconnecting]; decide
  have hpos := unclosed_pos hws hne
  have hbusy := h.view.busy
  unfold View.busy at hbusy
  have hfatals : τ.client.fatals = [] := h.fatals_nil (by unfold View.busy; omega)
  -- the socket is the only one, so none was open before
  have hnil : τ.client.stables = [] := by
    rw [List.eq_nil_iff_forall_not_mem]
    intro t ht
    obtain ⟨-, j, ws', hj, hopen, -⟩ := h.stable t ht
    obtain rfl := unclosed_unique (by omega) hws hne hj (by rw [hopen]; decide)
    rw [hws] at hj
    cases hj
    rw [hconnecting] at hopen
    cases hopen
  have hcycles := cycles_handleOpen o (τ.client.onSocket i WebSocket.establish)
  rw [← hs', cycles_onSocket] at hcycles
  simp only [State.cycles, Cycles.mk.injEq] at hcycles
  obtain ⟨hcount, hfatals', hstables, htimer, hnext⟩ := hcycles
  have hold : (τ.client.onSocket i WebSocket.establish).stables = [] := hnil
  rw [hold, List.nil_append] at hstables
  have hmem : ∀ t ∈ s'.stables, t = stableTimerOf o (τ.client.onSocket i WebSocket.establish) := by
    intro t ht
    rw [hstables] at ht
    exact List.mem_singleton.mp ht
  refine ⟨hview, hrunning, fun t ht => ?_, fun t ht => ?_, fun t ht => ?_, fun _ => ?_,
    fun hne => absurd (hfatals'.trans hfatals) hne⟩
  · rw [hmem t ht]
    exact htimer
  · rw [hmem t ht]
    show τ.client.nextTimer + 1 < s'.nextTimer
    rw [hnext]
    exact Nat.lt_succ_self _
  · rw [hmem t ht]
    obtain ⟨ws', hi, hws'⟩ := hopened
    refine ⟨rfl, i, ws', hi, hws', ?_⟩
    have hle : τ.client.nextTimer ≤ τ.client.nextTimer + 1 := Nat.le_succ _
    simp only [Timed.after, stableTimerOf, State.onSocket, if_pos hle, if_pos]
    exact Nat.le_refl _
  · show s'.refreshCycleCount ≤ _
    rw [hcount]
    exact h.live hfatals

theorem staysOpen_join (conversation : ConversationTarget) :
    StaysOpen s (s.join conversation) := by
  intro i ws hi hws
  exact staysOpen_send _ i ws hi hws

theorem staysOpen_leave (conversation : ConversationTarget) :
    StaysOpen s (s.leave conversation) := by
  intro i ws hi hws
  exact staysOpen_send _ i ws hi hws

theorem staysOpen_trans {s₁ s₂ : State} (h : StaysOpen s s₁) (h' : StaysOpen s₁ s₂) :
    StaysOpen s s₂ := by
  intro i ws hi hws
  obtain ⟨ws₁, hi₁, hws₁⟩ := h i ws hi hws
  exact h' i ws₁ hi₁ hws₁

theorem staysOpen_setStatus (status : WsStatus) : StaysOpen s (s.setStatus status) := by
  unfold State.setStatus
  split <;> exact staysOpen_refl rfl

theorem staysOpen_foldl_send (l : List ConversationTarget) :
    StaysOpen s (l.foldl (fun s conversation => s.send (.join conversation)) s) := by
  induction l generalizing s with
  | nil => exact staysOpen_refl rfl
  | cons c l ih => exact staysOpen_trans (staysOpen_send _) ih

/-- The heartbeat and the timer of a stable connection are set. -/
theorem staysOpen_timersSet (o : Options) (s : State) (delayMs : ℕ) (stableTimer : Option ℕ) :
    StaysOpen s { (s.startHeartbeat o).setTimer .stable delayMs with stableTimer } :=
  staysOpen_refl rfl

theorem staysOpen_handleOpen (o : Options) (s : State) : StaysOpen s (s.handleOpen o) := by
  have hstatus : StaysOpen s
      (({ s with reconnectAttempt := 0, openedThisAttempt := true } : State).setStatus .open) :=
    staysOpen_setStatus (s := { s with reconnectAttempt := 0, openedThisAttempt := true }) .open
  unfold State.handleOpen
  exact staysOpen_trans hstatus
    (staysOpen_trans (staysOpen_foldl_send _) (staysOpen_timersSet o _ _ _))

/-- The connection that was being established is open. -/
theorem open_of_handleOpen {i : ℕ}
    (h : s.sockets[i]?.map WebSocket.readyState = some .connecting) :
    ∃ ws : WebSocket, ((s.onSocket i WebSocket.establish).handleOpen o).sockets[i]? = some ws ∧
      ws.readyState = .open := by
  obtain ⟨ws, hws, hconnecting⟩ := Option.map_eq_some_iff.mp h
  refine staysOpen_handleOpen o _ i { ws with readyState := .open } ?_ rfl
  simp [State.onSocket, hws, WebSocket.establish, hconnecting]

/-- A close, of the socket that there was. -/
theorem Cycling.socketClose {τ : Timed} (h : Cycling o τ) {i code : ℕ}
    (hu : τ.client.Unclosed i)
    (hview : ((τ.client.onSocket i WebSocket.finish).handleClose o code).view.Inv)
    (hrunning : ((τ.client.onSocket i WebSocket.finish).handleClose o code).manuallyClosed =
      false) :
    Cycling o (τ.after (.socketClose i code)
        ((τ.client.onSocket i WebSocket.finish).handleClose o code)) ∧
      ((τ.client.onSocket i WebSocket.finish).handleClose o code).refreshCycleCount =
        τ.client.refreshCycleCount := by
  obtain ⟨n, hn, hfinish⟩ := view_finish hu
  have hbusy := h.view.busy
  unfold View.busy at hbusy
  have hfatals : τ.client.fatals = [] := h.fatals_nil (by unfold View.busy; omega)
  have hlive := h.live hfatals
  obtain ⟨hstables, hcount, hends⟩ := cycles_handleClose o code
    (s := τ.client.onSocket i WebSocket.finish) (by rw [hfinish]; exact h.view.armed) h.armed
  refine ⟨.cleared hview hrunning hstables (fun _ => ?_) fun hne => ?_, hcount⟩
  · rw [hcount]
    exact hlive
  · cases hends with
    | inl hsame => exact absurd (hsame.trans hfatals) hne
    | inr hfatal =>
      obtain ⟨⟨reason, hreason⟩, hdead⟩ := hfatal
      refine ⟨?_, ?_, ?_⟩
      · rw [hreason]
        show (τ.client.fatals ++ [reason]).length = 1
        rw [hfatals]
        rfl
      · rw [hdead, hfinish]
        simp only [View.busy, List.length_nil]
        omega
      · rw [hcount]
        exact Nat.le_succ_of_le hlive

/-- A timer fires: not the one that resets the count, since no connection has been open that
long. -/
theorem Cycling.fire {τ : Timed} {n : ℕ} {t : Timer} (h : Cycling o τ) (hu : τ.Unstable o)
    (hdue : τ.Due (.fire n token)) (ht : (τ.client.timers.find? fun t => t.id = n) = some t)
    (hs : step o τ.client (.fire n token) = some s') (hview : s'.view.Inv)
    (hrunning : s'.manuallyClosed = false) :
    Cycling o (τ.after (.fire n token) s') ∧
      s'.refreshCycleCount = τ.client.refreshCycleCount := by
  have hmem := List.mem_of_find?_eq_some ht
  have hid : t.id = n := by simpa using List.find?_some ht
  simp only [step, ht] at hs
  cases hcallback : t.callback with
  | heartbeat =>
    simp only [hcallback, Option.some.injEq] at hs
    subst hs
    exact ⟨h.keep (view_send _) (cycles_send _) (staysOpen_send _) (by simp),
      congrArg Cycles.refreshCycleCount (cycles_send .ping)⟩
  | stable =>
    have hstable : t ∈ τ.client.stables := List.mem_filter.mpr ⟨hmem, by simpa using hcallback⟩
    obtain ⟨hdelay, i, ws, hi, hopen, hle⟩ := h.stable t hstable
    have hlong := hdue t hmem hid
    have hshort := hu i ws hi hopen
    rw [hid] at hle
    omega
  | reopen =>
    simp only [hcallback, Option.some.injEq] at hs
    subst hs
    have hpos : 0 < τ.client.view.reopens.length := by
      refine List.length_pos_of_mem (a := t.id) (List.mem_map.mpr ⟨t, ?_, rfl⟩)
      exact List.mem_filter.mpr ⟨hmem, by simpa using hcallback⟩
    have hbusy := h.view.busy
    unfold View.busy at hbusy
    have hnil := h.stables_nil (by omega)
    have hfatals := h.fatals_nil (by unfold View.busy; omega)
    have hcycles := cycles_openSocket (s := τ.client.clear (some n)) token
    have hstables : ((τ.client.clear (some n)).openSocket token).stables = [] := by
      rw [stables_of_cycles hcycles, stables_clear, hnil]
      rfl
    have hcount := congrArg Cycles.refreshCycleCount hcycles
    refine ⟨.cleared hview hrunning hstables (fun _ => ?_) fun hne => ?_, hcount⟩
    · exact Nat.le_trans (Nat.le_of_eq hcount) (h.live hfatals)
    · exact absurd ((congrArg Cycles.fatals hcycles).trans hfatals) hne

/-- A refresh completes. -/
theorem Cycling.refreshed {τ : Timed} {outcome : State.RefreshOutcome} (h : Cycling o τ)
    (hpos : 0 < τ.client.refreshes)
    (hview : (({ τ.client with refreshes := τ.client.refreshes - 1 }).refreshed o token
      outcome).view.Inv)
    (hrunning : (({ τ.client with refreshes := τ.client.refreshes - 1 }).refreshed o token
      outcome).manuallyClosed = false) :
    Cycling o (τ.after (.refreshed outcome token)
        (({ τ.client with refreshes := τ.client.refreshes - 1 }).refreshed o token outcome)) ∧
      (({ τ.client with refreshes := τ.client.refreshes - 1 }).refreshed o token
          outcome).refreshCycleCount =
        τ.client.refreshCycleCount + (decide (outcome = .success)).toNat := by
  have hpos' : 0 < τ.client.view.refreshes := hpos
  have hbusy := h.view.busy
  unfold View.busy at hbusy
  have hfatals := h.fatals_nil (by unfold View.busy; omega)
  have hnil := h.stables_nil (by omega)
  have hlive := h.live hfatals
  obtain ⟨hstables, hcount, hends⟩ := cycles_refreshed o token outcome
    (s := { τ.client with refreshes := τ.client.refreshes - 1 }) h.view.armed hnil h.destroyed
    h.running
  refine ⟨.cleared hview hrunning hstables (fun hnone => ?_) fun hne => ?_, hcount⟩
  · rw [hcount]
    cases hends with
    | inl hsame =>
      cases outcome with
      | success => exact hsame.2 rfl
      | rejected => exact hlive
      | transientFailure => exact hlive
    | inr hfatal =>
      obtain ⟨⟨reason, hreason⟩, -⟩ := hfatal
      rw [hreason] at hnone
      simp at hnone
  · cases hends with
    | inl hsame => exact absurd (hsame.1.trans hfatals) hne
    | inr hfatal =>
      obtain ⟨⟨reason, hreason⟩, hdead⟩ := hfatal
      refine ⟨?_, ?_, ?_⟩
      · rw [hreason]
        show (τ.client.fatals ++ [reason]).length = 1
        rw [hfatals]
        rfl
      · have hreopens : τ.client.view.reopens.length = 0 := by omega
        have hrest : τ.client.refreshes - 1 = 0 := by
          have hle : τ.client.view.refreshes ≤ 1 := by omega
          exact Nat.sub_eq_zero_of_le hle
        have hunclosed : τ.client.view.unclosed = 0 := by omega
        rcases hdead with hdead | hdead
        · rw [hdead]
          show τ.client.view.unclosed + τ.client.view.reopens.length + (τ.client.refreshes - 1) = 0
          omega
        · rw [hdead]
          show τ.client.view.unclosed + 0 + (τ.client.refreshes - 1) = 0
          omega
      · rw [hcount]
        exact Nat.add_le_add hlive (Bool.toNat_le _)

/-- **One step**: the invariant is kept, and a refresh that succeeds is counted. -/
theorem cycling_step {τ τ' : Timed} {x : TimedEvent} (h : Cycling o τ) (hu : τ.Unstable o)
    (hx : x.Running) (hs : timedStep o τ x = some τ') : Cycling o τ' ∧
      τ'.client.refreshCycleCount = τ.client.refreshCycleCount + x.succeeds.toNat := by
  cases x with
  | elapse ms =>
    cases hs
    exact ⟨⟨h.view, h.running, h.armed, h.fresh, h.stable, h.live, h.dead⟩, rfl⟩
  | happen e =>
    simp only [timedStep, Option.ite_none_right_eq_some] at hs
    obtain ⟨hdue, hs⟩ := hs
    obtain ⟨s', hstep, rfl⟩ := Option.map_eq_some_iff.mp hs
    have hgood := step_good h.view hstep
    have hrunning : s'.manuallyClosed = false := by
      rw [← Bool.not_eq_true, hgood.manual, h.running]
      rintro (hm | rfl | rfl)
      · cases hm
      · exact hx
      · exact hx
    cases e with
    | join conversation =>
      cases hstep
      exact ⟨h.keep (view_join conversation) (cycles_join conversation) (staysOpen_join conversation)
        (by simp), congrArg Cycles.refreshCycleCount (cycles_join conversation)⟩
    | leave conversation =>
      cases hstep
      exact ⟨h.keep (view_leave conversation) (cycles_leave conversation)
        (staysOpen_leave conversation) (by simp),
        congrArg Cycles.refreshCycleCount (cycles_leave conversation)⟩
    | sendTyping conversation =>
      cases hstep
      exact ⟨h.keep (view_sendTyping conversation) (cycles_send (.typing conversation))
        (staysOpen_send _) (by simp),
        congrArg Cycles.refreshCycleCount (cycles_send (.typing conversation))⟩
    | disconnect => exact hx.elim
    | destroy => exact hx.elim
    | socketOpen i =>
      simp only [step, Option.ite_none_right_eq_some, Option.some.injEq] at hstep
      obtain ⟨-, rfl⟩ := hstep
      have hcycles := cycles_handleOpen o (τ.client.onSocket i WebSocket.establish)
      exact ⟨h.socketOpen hdue hgood.inv hrunning rfl (open_of_handleOpen hdue),
        congrArg Cycles.refreshCycleCount hcycles⟩
    | socketError i =>
      simp only [step, Option.ite_none_right_eq_some, Option.some.injEq] at hstep
      obtain ⟨-, rfl⟩ := hstep
      exact ⟨h.keep rfl rfl (staysOpen_refl rfl) (by simp), rfl⟩
    | socketClose i code =>
      simp only [step, Option.ite_none_right_eq_some, Option.some.injEq] at hstep
      obtain ⟨hunclosed, rfl⟩ := hstep
      exact h.socketClose hunclosed hgood.inv hrunning
    | fire n token =>
      cases ht : τ.client.timers.find? fun t => t.id = n with
      | none => simp [step, ht] at hstep
      | some t => exact h.fire hu hdue ht hstep hgood.inv hrunning
    | refreshed outcome token =>
      simp only [step, Option.ite_none_right_eq_some, Option.some.injEq] at hstep
      obtain ⟨hpos, rfl⟩ := hstep
      obtain ⟨hcycling, hcount⟩ := h.refreshed hpos hgood.inv hrunning
      refine ⟨hcycling, ?_⟩
      cases outcome <;> exact hcount

/-- A client that is busy with nothing creates no socket and calls nothing back. -/
theorem idle_step (hbusy : s.view.busy = 0) (he : TimedEvent.Running (.happen e))
    (hs : step o s e = some s') :
    s'.fatals = s.fatals ∧ s'.sockets.length = s.sockets.length := by
  unfold View.busy at hbusy
  have hsame : ∀ s₁ : State, s₁.view = s.view → s₁.cycles = s.cycles →
      s₁.fatals = s.fatals ∧ s₁.sockets.length = s.sockets.length := by
    intro s₁ hview hcycles
    exact ⟨congrArg Cycles.fatals hcycles, congrArg View.created hview⟩
  have hclosed : ∀ i, ¬ s.Unclosed i := by
    intro i ⟨ws, hi, hws⟩
    have hpos := unclosed_pos hi hws
    omega
  cases e with
  | join conversation =>
    cases hs
    exact hsame _ (view_join conversation) (cycles_join conversation)
  | leave conversation =>
    cases hs
    exact hsame _ (view_leave conversation) (cycles_leave conversation)
  | sendTyping conversation =>
    cases hs
    exact hsame _ (view_sendTyping conversation) (cycles_send _)
  | disconnect => exact he.elim
  | destroy => exact he.elim
  | socketOpen i =>
    simp only [step, if_neg (hclosed i)] at hs
    cases hs
  | socketError i =>
    simp only [step, if_neg (hclosed i)] at hs
    cases hs
  | socketClose i code =>
    simp only [step, if_neg (hclosed i)] at hs
    cases hs
  | fire n token =>
    cases ht : s.timers.find? fun t => t.id = n with
    | none => simp [step, ht] at hs
    | some t =>
      simp only [step, ht] at hs
      cases hcallback : t.callback with
      | heartbeat =>
        simp only [hcallback, Option.some.injEq] at hs
        subst hs
        exact hsame _ (view_send _) (cycles_send _)
      | stable =>
        simp only [hcallback, Option.some.injEq] at hs
        subst hs
        exact ⟨rfl, rfl⟩
      | reopen =>
        have hpos : 0 < s.view.reopens.length := by
          refine List.length_pos_of_mem (a := t.id) (List.mem_map.mpr ⟨t, ?_, rfl⟩)
          exact List.mem_filter.mpr ⟨List.mem_of_find?_eq_some ht, by simpa using hcallback⟩
        omega
  | refreshed outcome token =>
    have hnone : s.refreshes = 0 := by
      have hview : s.view.refreshes = 0 := by omega
      exact hview
    simp only [step, hnone, Nat.lt_irrefl, if_false] at hs
    cases hs

/-! ### Runs -/

theorem cycling_connectedAt (o : Options) (token : Option AccessToken) :
    Cycling o (connectedAt token) := by
  have hcycles : (connected token).cycles = fresh.cycles := cycles_openSocket _
  have hnone : ∀ t, t ∉ (connected token).stables := by
    intro t ht
    rw [stables_of_cycles hcycles] at ht
    cases ht
  have hfatals : (connected token).fatals = [] := congrArg Cycles.fatals hcycles
  have hcount : (connected token).refreshCycleCount = 0 := congrArg Cycles.refreshCycleCount hcycles
  refine ⟨inv_connected token, manuallyClosed_connected token, fun t ht => absurd ht (hnone t),
    fun t ht => absurd ht (hnone t), fun t ht => absurd ht (hnone t), fun _ => ?_,
    fun hne => absurd hfatals hne⟩
  show (connected token).refreshCycleCount ≤ _
  rw [hcount]
  exact Nat.zero_le _

variable {τ : Timed} {es es' : List TimedEvent}

/-- The invariant and the condition, on the steps of a run. -/
theorem running_of_mem (hrunning : ∀ x ∈ es, x.Running) :
    ∀ x ∈ Reactive.transitions (timedStep o) τ es, x.2.1.Running := by
  induction es generalizing τ with
  | nil => exact fun x hx => nomatch hx
  | cons e es ih =>
    rw [List.forall_mem_cons] at hrunning
    cases hs : timedStep o τ e with
    | none =>
      simp only [Reactive.transitions, hs]
      exact ih hrunning.2
    | some τ' =>
      simp only [Reactive.transitions, hs, List.forall_mem_cons]
      exact ⟨hrunning.1, ih hrunning.2⟩

/-- A client that has called `onFatal` keeps still. -/
theorem keeps_still (h : Cycling o τ) (hfatal : τ.client.fatals ≠ [])
    (hC : ∀ x ∈ Reactive.transitions (timedStep o) τ es, x.1.Unstable o ∧ x.2.1.Running) :
    (Reactive.last (timedStep o) τ es).client.fatals = τ.client.fatals ∧
      (Reactive.last (timedStep o) τ es).client.sockets.length = τ.client.sockets.length := by
  refine (Reactive.last_of_inv (I := fun τ' => Cycling o τ' ∧
    τ'.client.fatals = τ.client.fatals ∧ τ'.client.sockets.length = τ.client.sockets.length)
    (C := fun τ' x => τ'.Unstable o ∧ x.Running) (fun τ₁ x τ₂ hi hc hs => ?_) ⟨h, rfl, rfl⟩ es
    hC).2
  obtain ⟨hcycling, hfatals, hsockets⟩ := hi
  refine ⟨(cycling_step hcycling hc.1 hc.2 hs).1, ?_⟩
  cases x with
  | elapse ms =>
    cases hs
    exact ⟨hfatals, hsockets⟩
  | happen e =>
    simp only [timedStep, Option.ite_none_right_eq_some] at hs
    obtain ⟨-, hs⟩ := hs
    obtain ⟨s', hstep, rfl⟩ := Option.map_eq_some_iff.mp hs
    obtain ⟨-, hidle, -⟩ := hcycling.dead (hfatals ▸ hfatal)
    obtain ⟨hfatals', hsockets'⟩ := idle_step hidle hc.2 hstep
    exact ⟨hfatals'.trans hfatals, hsockets'.trans hsockets⟩

/-- The count of cycles is the number of refreshes that succeeded. -/
theorem count_of_run (h : Cycling o τ)
    (hC : ∀ x ∈ Reactive.transitions (timedStep o) τ es, x.1.Unstable o ∧ x.2.1.Running) :
    Cycling o (Reactive.last (timedStep o) τ es) ∧
      (Reactive.last (timedStep o) τ es).client.refreshCycleCount =
        τ.client.refreshCycleCount + successes o τ es :=
  ⟨Reactive.last_of_inv (C := fun τ' x => τ'.Unstable o ∧ x.Running)
      (fun _ _ _ hi hc hs => (cycling_step hi hc.1 hc.2 hs).1) h es hC,
    Reactive.last_count (f := fun τ : Timed => τ.client.refreshCycleCount)
      (p := TimedEvent.succeeds) (C := fun τ' x => τ'.Unstable o ∧ x.Running)
      (fun _ _ _ hi hc hs => cycling_step hi hc.1 hc.2 hs) h es hC⟩

/-- **The bound on refresh cycles.** In every run after one `connect()` in which the client is
neither disconnected nor destroyed and no connection stays open for `minStableConnectionMs`, at most
`maxConsecutiveRefreshCycles + 1` refreshes succeed; when that many have, `onFatal` has been called
once, and from then on it is not called again and no socket is opened. -/
theorem refresh_cycles_bounded (o : Options) (token : Option AccessToken) (es es' : List TimedEvent)
    (hrunning : ∀ x ∈ es ++ es', x.Running)
    (hunstable : ∀ x ∈ Reactive.transitions (timedStep o) (connectedAt token) (es ++ es'),
      x.1.Unstable o) :
    successes o (connectedAt token) (es ++ es') ≤ o.maxConsecutiveRefreshCycles + 1 ∧
    (successes o (connectedAt token) es = o.maxConsecutiveRefreshCycles + 1 →
      (Reactive.last (timedStep o) (connectedAt token) es).client.fatals.length = 1 ∧
      (Reactive.last (timedStep o) (connectedAt token) (es ++ es')).client.fatals =
        (Reactive.last (timedStep o) (connectedAt token) es).client.fatals ∧
      (Reactive.last (timedStep o) (connectedAt token) (es ++ es')).client.sockets.length =
        (Reactive.last (timedStep o) (connectedAt token) es).client.sockets.length) := by
  have hC : ∀ x ∈ Reactive.transitions (timedStep o) (connectedAt token) (es ++ es'),
      x.1.Unstable o ∧ x.2.1.Running := by
    intro x hx
    exact ⟨hunstable x hx, running_of_mem hrunning x hx⟩
  have hzero : (connectedAt token).client.refreshCycleCount = 0 :=
    congrArg Cycles.refreshCycleCount (cycles_openSocket (s := { fresh with
      manuallyClosed := false, destroyed := false }) token)
  -- the count never exceeds the cap by more than one
  have hbound : ∀ τ : Timed, Cycling o τ →
      τ.client.refreshCycleCount ≤ o.maxConsecutiveRefreshCycles + 1 := by
    intro τ h
    by_cases hnil : τ.client.fatals = []
    · exact Nat.le_succ_of_le (h.live hnil)
    · exact (h.dead hnil).2.2
  constructor
  · obtain ⟨hend, hcount⟩ := count_of_run (cycling_connectedAt o token) hC
    have hle := hbound _ hend
    omega
  · intro hall
    have hsplit := Reactive.transitions_append (timedStep o) (connectedAt token) es es'
    rw [hsplit, List.forall_mem_append] at hC
    obtain ⟨hmid, hcount⟩ := count_of_run (cycling_connectedAt o token) hC.1
    have hfatal : (Reactive.last (timedStep o) (connectedAt token) es).client.fatals ≠ [] := by
      intro hnil
      have hle := hmid.live hnil
      omega
    rw [Reactive.last_append]
    exact ⟨(hmid.dead hfatal).1, keeps_still hmid hfatal hC.2⟩

/-- Each refreshed token is rejected at once. -/
def rejectedTokens : List TimedEvent :=
  [.happen (.socketOpen 0), .happen (.socketClose 0 4402),
    .happen (.refreshed .success (some (letter 'a'))),
    .happen (.socketOpen 1), .happen (.socketClose 1 4402),
    .happen (.refreshed .success (some (letter 'b'))),
    .elapse 500, .happen (.fire 5 (some (letter 'b'))),
    .happen (.socketOpen 2), .happen (.socketClose 2 4402),
    .happen (.refreshed .success (some (letter 'c'))),
    .elapse 1000, .happen (.fire 8 (some (letter 'c'))),
    .happen (.socketOpen 3), .happen (.socketClose 3 4402),
    .happen (.refreshed .success (some (letter 'd')))]

/-- With the defaults the client gives up after the fourth refresh. -/
theorem refresh_cycles_bounded_rejected :
    successes defaultOptions (connectedAt (some (letter 't'))) rejectedTokens = 4 ∧
    (Reactive.last (timedStep defaultOptions) (connectedAt (some (letter 't')))
      rejectedTokens).client.fatals.length = 1 ∧
    (Reactive.last (timedStep defaultOptions) (connectedAt (some (letter 't')))
      (rejectedTokens ++ [.elapse 60000])).client.sockets.length = 4 := by
  have hsuccesses :
      successes defaultOptions (connectedAt (some (letter 't'))) rejectedTokens = 4 := by
    decide
  have hbounded := (refresh_cycles_bounded defaultOptions (some (letter 't')) rejectedTokens
    [.elapse 60000] (by decide) (by decide)).2 hsuccesses
  exact ⟨hsuccesses, hbounded.1, hbounded.2.2.trans (by decide)⟩

end Chatspace.SocketClient
