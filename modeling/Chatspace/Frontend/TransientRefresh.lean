import Chatspace.Frontend.HttpClient
import Chatspace.Frontend.RefreshCycles

/-!
# Refreshes that fail for a while

A `ReconnectingSocket` wired to `httpClient.refreshAccessToken` and to the store.

* `Gear`, `Sane` — the client remembers its socket, and no two of its timers are the same;
* `Wired`, `wiredStep` — the socket and the HTTP client together;
* `transient_refreshes` — **a client whose refreshes fail by network errors only keeps going until
  it is told to stop, or has refreshed too often.**
-/

namespace Chatspace.SocketClient

open Frontend

/-! ### Sockets and timers -/

/-- The sockets by their states, and the timers. -/
structure Gear where
  socket : Option ℕ
  states : List ReadyState
  timers : List Timer
  nextTimer : ℕ

def State.gear (s : State) : Gear := ⟨s.socket, s.sockets.map WebSocket.readyState, s.timers, s.nextTimer⟩

/-- The current socket is the only one that may not have closed; nobody has closed it; and timers
are told apart by their numbers. -/
structure Gear.Sane (g : Gear) : Prop where
  current : ∀ i state, g.states[i]? = some state → state ≠ .closed → g.socket = some i
  unclosing : .closing ∉ g.states
  distinct : ∀ t ∈ g.timers, ∀ t' ∈ g.timers, t.id = t'.id → t = t'
  fresh : ∀ t ∈ g.timers, t.id < g.nextTimer

variable {o : Options} {s s' : State} {token : Option AccessToken} {e : Event} {g : Gear}

/-! ### What the handlers do to them -/

@[simp] theorem gear_setStatus (status : WsStatus) : (s.setStatus status).gear = s.gear := by
  unfold State.setStatus
  split <;> rfl

@[simp] theorem gear_onFatal (reason : StopReason) : (s.onFatal reason).gear = s.gear := rfl

theorem gear_onSocket (i : ℕ) {f : WebSocket → WebSocket} {g : ReadyState → ReadyState}
    (hf : ∀ ws, (f ws).readyState = g ws.readyState) :
    (s.onSocket i f).gear = { s.gear with states := s.gear.states.modify i g } := by
  have hstates : (s.sockets.modify i f).map WebSocket.readyState =
      (s.sockets.map WebSocket.readyState).modify i g := by
    apply List.ext_getElem?
    intro j
    simp only [List.getElem?_map, List.getElem?_modify]
    cases s.sockets[j]? with
    | none => rfl
    | some ws =>
      by_cases hij : i = j
      · simp [hij, hf]
      · simp [hij]
  simp only [State.gear, State.onSocket, hstates]

@[simp] theorem gear_send (frame : ClientFrame) : (s.send frame).gear = s.gear := by
  unfold State.send
  split
  · rfl
  · split
    · rw [gear_onSocket _ (f := fun ws => ws.write frame) (g := id) fun _ => rfl]
      rw [List.modify_id]
    · rfl

@[simp] theorem gear_sendJoins (joined : List ConversationTarget) :
    (joined.foldl (fun s conversation => s.send (.join conversation)) s).gear = s.gear := by
  induction joined generalizing s with
  | nil => rfl
  | cons x joined ih => rw [List.foldl_cons, ih, gear_send]

theorem gear_join (conversation : ConversationTarget) : (s.join conversation).gear = s.gear := by
  unfold State.join
  rw [gear_send]
  rfl

theorem gear_leave (conversation : ConversationTarget) : (s.leave conversation).gear = s.gear := by
  unfold State.leave
  rw [gear_send]
  rfl

/-- A timer is set. -/
theorem Gear.Sane.setTimer (h : g.Sane) (callback : TimerCallback) (delayMs : ℕ) :
    Gear.Sane { g with
      timers := g.timers ++ [⟨g.nextTimer, callback, delayMs⟩], nextTimer := g.nextTimer + 1 } := by
  refine ⟨h.current, h.unclosing, fun t ht t' ht' hid => ?_, fun t ht => ?_⟩
  · rcases List.mem_append.mp ht with ht | ht <;> rcases List.mem_append.mp ht' with ht' | ht'
    · exact h.distinct t ht t' ht' hid
    · have hfresh := h.fresh t ht
      rw [List.mem_singleton.mp ht'] at hid
      exact absurd hid (Nat.ne_of_lt hfresh)
    · have hfresh := h.fresh t' ht'
      rw [List.mem_singleton.mp ht] at hid
      exact absurd hid.symm (Nat.ne_of_lt hfresh)
    · rw [List.mem_singleton.mp ht, List.mem_singleton.mp ht']
  · rcases List.mem_append.mp ht with ht | ht
    · exact Nat.lt_succ_of_lt (h.fresh t ht)
    · rw [List.mem_singleton.mp ht]
      exact Nat.lt_succ_self _

/-- Timers are cleared. -/
theorem Gear.Sane.filter (h : g.Sane) (p : Timer → Bool) :
    Gear.Sane { g with timers := g.timers.filter p } :=
  ⟨h.current, h.unclosing, fun t ht t' ht' =>
      h.distinct t (List.mem_of_mem_filter ht) t' (List.mem_of_mem_filter ht'),
    fun t ht => h.fresh t (List.mem_of_mem_filter ht)⟩

theorem sane_clearTimers (h : s.gear.Sane) : s.clearTimers.gear.Sane := by
  show Gear.Sane { s.gear with timers := ((s.timers.filter _).filter _).filter _ }
  exact ((h.filter _).filter _).filter _

theorem sane_scheduleReconnect (h : s.gear.Sane) : (s.scheduleReconnect o).gear.Sane := by
  have hstatus : (s.setStatus .reconnecting).gear.Sane := by
    rw [gear_setStatus]
    exact h
  exact hstatus.setTimer _ _

theorem sane_handleOpen (h : s.gear.Sane) : (s.handleOpen o).gear.Sane := by
  unfold State.handleOpen State.startHeartbeat
  simp only
  generalize hs₁ : (List.foldl (fun s conversation => s.send (.join conversation))
    (({ s with reconnectAttempt := 0, openedThisAttempt := true } : State).setStatus .open)
    (({ s with reconnectAttempt := 0, openedThisAttempt := true } : State).setStatus .open).joined)
      = s₁
  have h₁ : s₁.gear.Sane := by
    rw [← hs₁, gear_sendJoins, gear_setStatus]
    exact h
  exact (h₁.setTimer .heartbeat _).setTimer .stable _

/-- A socket is created when every other has closed. -/
theorem Gear.Sane.create (h : g.Sane) (hclosed : ∀ state ∈ g.states, state = .closed) :
    Gear.Sane { g with socket := some g.states.length, states := g.states ++ [.connecting] } := by
  refine ⟨fun i state hi hopen => ?_, fun hmem => ?_, h.distinct, h.fresh⟩
  · rw [List.getElem?_append] at hi
    split at hi
    · exact absurd (hclosed state (List.mem_of_getElem? hi)) hopen
    · obtain ⟨hlt, -⟩ := List.getElem?_eq_some_iff.mp hi
      rw [List.length_singleton] at hlt
      show some g.states.length = some i
      congr 1
      omega
  · rcases List.mem_append.mp hmem with hmem | hmem
    · exact h.unclosing hmem
    · cases List.mem_singleton.mp hmem

theorem sane_openSocket (h : s.gear.Sane) (hclosed : s.view.unclosed = 0)
    (token : Option AccessToken) :
    (s.openSocket token).gear.Sane := by
  cases token with
  | none =>
    show (s.setStatus .closed).gear.Sane
    rw [gear_setStatus]
    exact h
  | some bearer =>
    have hall : ∀ state ∈ s.gear.states, state = .closed := by
      intro state hstate
      obtain ⟨ws, hws, rfl⟩ := List.mem_map.mp hstate
      simpa using List.countP_eq_zero.mp hclosed ws hws
    have hgear := gear_setStatus (s := s)
      (if 0 < s.reconnectAttempt then .reconnecting else .connecting)
    have hcreated : (s.openSocket (some bearer)).gear =
        { s.gear with
          socket := some s.gear.states.length, states := s.gear.states ++ [.connecting] } := by
      simp only [State.openSocket]
      rw [← hgear]
      simp [State.gear]
    rw [hcreated]
    exact h.create hall

/-- One socket goes from a state to another one that is not closing. -/
theorem Gear.Sane.modify (h : g.Sane) (i : ℕ) {f : ReadyState → ReadyState}
    (hclosed : ∀ state, state = .closed → f state = .closed)
    (hclosing : ∀ state, state ≠ .closing → f state ≠ .closing) :
    Gear.Sane { g with states := g.states.modify i f } := by
  have hback : ∀ (j : ℕ) (state : ReadyState), (g.states.modify i f)[j]? = some state →
      ∃ old, g.states[j]? = some old ∧ (state = old ∨ state = f old) := by
    intro j state hj
    rw [List.getElem?_modify] at hj
    obtain ⟨old, hold, rfl⟩ := Option.map_eq_some_iff.mp hj
    refine ⟨old, hold, ?_⟩
    split
    · exact .inr rfl
    · exact .inl rfl
  refine ⟨fun j state hj hopen => ?_, fun hmem => ?_, h.distinct, h.fresh⟩
  · obtain ⟨old, hold, rfl | rfl⟩ := hback j state hj
    · exact h.current j state hold hopen
    · exact h.current j old hold fun hclosed' => hopen (hclosed old hclosed')
  · obtain ⟨j, hj⟩ := List.getElem?_of_mem hmem
    obtain ⟨old, hold, hsame | hf⟩ := hback j _ hj
    · exact h.unclosing (hsame ▸ List.mem_of_getElem? hold)
    · refine hclosing old (fun hold' => ?_) hf.symm
      exact h.unclosing (hold' ▸ List.mem_of_getElem? hold)

theorem sane_handleClose (h : s.gear.Sane) (code : ℕ) : (s.handleClose o code).gear.Sane := by
  have hcleared := sane_clearTimers h
  unfold State.handleClose
  simp only
  split
  · rw [gear_setStatus]
    exact hcleared
  · split
    · split
      · rw [gear_onFatal, gear_setStatus]
        exact hcleared
      · rw [gear_setStatus]
        exact hcleared
    · show (s.clearTimers.setStatus .reconnecting).gear.Sane
      rw [gear_setStatus]
      exact hcleared
    · exact sane_scheduleReconnect hcleared

theorem sane_refreshed (h : s.gear.Sane) (hclosed : s.view.unclosed = 0)
    (outcome : State.RefreshOutcome) : (s.refreshed o token outcome).gear.Sane := by
  cases outcome with
  | rejected =>
    simp only [State.refreshed]
    split
    · exact h
    · rw [gear_onFatal, gear_setStatus]
      exact h
  | transientFailure =>
    simp only [State.refreshed]
    split
    · exact h
    · exact sane_scheduleReconnect h
  | success =>
    simp only [State.refreshed]
    split
    · exact h
    · split
      · rw [gear_onFatal, gear_setStatus]
        exact sane_clearTimers (s := { s with refreshCycleCount := s.refreshCycleCount + 1 }) h
      · split
        · exact sane_openSocket (s := { s with
            refreshCycleCount := s.refreshCycleCount + 1, reconnectAttempt := 0 }) h hclosed token
        · exact h.setTimer .reopen _

/-- **Every event but `disconnect()` and `destroy()` leaves the client sane.** -/
theorem sane_step (h : s.gear.Sane) (hi : s.view.Inv) (he : e ≠ .disconnect ∧ e ≠ .destroy)
    (hs : step o s e = some s') : s'.gear.Sane := by
  have hbusy := hi.busy
  unfold View.busy at hbusy
  cases e with
  | join conversation =>
    cases hs
    rw [gear_join]
    exact h
  | leave conversation =>
    cases hs
    rw [gear_leave]
    exact h
  | sendTyping conversation =>
    cases hs
    show (s.send _).gear.Sane
    rw [gear_send]
    exact h
  | disconnect => exact absurd rfl he.1
  | destroy => exact absurd rfl he.2
  | socketOpen i =>
    simp only [step, Option.ite_none_right_eq_some, Option.some.injEq] at hs
    obtain ⟨-, rfl⟩ := hs
    refine sane_handleOpen ?_
    rw [gear_onSocket i (f := WebSocket.establish)
      (g := fun state => if state = .connecting then .open else state) fun ws => ?_]
    · refine h.modify i (fun state hstate => ?_) fun state hstate => ?_
      · simp [hstate]
      · show (if state = .connecting then ReadyState.open else state) ≠ .closing
        split
        · simp
        · exact hstate
    · unfold WebSocket.establish
      split
      · rfl
      · rfl
  | socketError i =>
    simp only [step, Option.ite_none_right_eq_some, Option.some.injEq] at hs
    obtain ⟨-, rfl⟩ := hs
    exact h
  | socketClose i code =>
    simp only [step, Option.ite_none_right_eq_some, Option.some.injEq] at hs
    obtain ⟨-, rfl⟩ := hs
    refine sane_handleClose ?_ code
    rw [gear_onSocket i (f := WebSocket.finish) (g := fun _ => .closed) fun _ => rfl]
    exact h.modify i (fun _ _ => rfl) fun _ _ => by simp
  | fire n token =>
    simp only [step] at hs
    split at hs
    · cases hs
    · rename_i t ht
      split at hs
      · cases hs
        rw [gear_send]
        exact h
      · rename_i hcallback
        cases hs
        -- the timer was what the client was busy with
        have hpos : 0 < s.view.reopens.length := by
          refine List.length_pos_of_mem (a := t.id) (List.mem_map.mpr ⟨t, ?_, rfl⟩)
          exact List.mem_filter.mpr ⟨List.mem_of_find?_eq_some ht, by simpa using hcallback⟩
        have hnone : s.view.unclosed = 0 := by omega
        exact sane_openSocket (s := s.clear (some n)) (h.filter _) hnone token
      · cases hs
        exact h.filter _
  | refreshed outcome token =>
    simp only [step, Option.ite_none_right_eq_some, Option.some.injEq] at hs
    obtain ⟨hpos, rfl⟩ := hs
    have hpos' : 0 < s.view.refreshes := hpos
    have hnone : s.view.unclosed = 0 := by omega
    exact sane_refreshed (s := { s with refreshes := s.refreshes - 1 }) h hnone outcome

/-! ### Who gives up -/

/-- The close says that the session has been ended, or the refreshes have succeeded too often. -/
def GivesUp (o : Options) (s : State) : Event → Prop
  | .socketClose _ code => code = 4403 ∨ code = 4404
  | .refreshed outcome _ => outcome = .success ∧ o.maxConsecutiveRefreshCycles ≤ s.refreshCycleCount
  | _ => False

theorem fatals_setStatus (status : WsStatus) : (s.setStatus status).fatals = s.fatals :=
  congrArg Cycles.fatals (cycles_setStatus status)

theorem fatals_openSocket (token : Option AccessToken) : (s.openSocket token).fatals = s.fatals :=
  congrArg Cycles.fatals (cycles_openSocket token)

/-- With a token a socket is opened. -/
theorem busy_openSocket (s : State) (bearer : AccessToken) :
    (s.openSocket (some bearer)).view.busy = s.view.busy + 1 := by
  have hcreated : (s.openSocket (some bearer)).view.created = s.view.created + 1 := by
    have hstatus := congrArg View.created (view_setStatus (s := s)
      (if 0 < s.reconnectAttempt then .reconnecting else .connecting))
    show (State.sockets _ ++ [_]).length = s.view.created + 1
    rw [List.length_append]
    exact congrArg (· + 1) hstatus
  rcases view_openSocket s (some bearer) with hsame | hopened
  · rw [hsame] at hcreated
    omega
  · rw [hopened]
    simp only [View.busy]
    omega

/-- A close is followed by a refresh or a reconnect, unless it says that the session has ended. -/
theorem handleClose_cases (o : Options) (code : ℕ) (hm : s.manuallyClosed = false)
    (hd : s.destroyed = false) (harmed : s.view.Armed) :
    ((s.handleClose o code).fatals = s.fatals ∧
      s.view.unclosed + s.view.refreshes + 1 = (s.handleClose o code).view.busy) ∨
    ((s.handleClose o code).fatals ≠ [] ∧ (code = 4403 ∨ code = 4404)) := by
  have hclear := view_clearTimers harmed
  unfold State.handleClose
  have hm' : s.clearTimers.manuallyClosed = false := hm
  have hd' : s.clearTimers.destroyed = false := hd
  simp only [hm', hd', Bool.false_eq_true, if_false]
  have hclass : ∀ reason, classifyCloseCode code false = .stop reason →
      reason ≠ .clientInitiated ∧ (code = 4403 ∨ code = 4404) := by
    intro reason hreason
    unfold classifyCloseCode at hreason
    split at hreason
    · rename_i hclient
      cases hclient.1
    · split at hreason <;> cases hreason
      · exact ⟨nofun, .inl rfl⟩
      · exact ⟨nofun, .inr rfl⟩
  generalize haction : (if (!false) = true ∧ (!s.clearTimers.openedThisAttempt) = true ∧
      classifyCloseCode code false = .reconnect then WsCloseAction.refreshAndReconnect
    else classifyCloseCode code false) = action
  cases action with
  | stop reason =>
    have hstop : classifyCloseCode code false = .stop reason := by
      split at haction
      · cases haction
      · exact haction
    obtain ⟨hreason, hcode⟩ := hclass reason hstop
    refine .inr ⟨?_, hcode⟩
    simp only [if_pos hreason]
    exact List.append_ne_nil_of_right_ne_nil _ nofun
  | refreshAndReconnect =>
    have hstatus := view_setStatus (s := s.clearTimers) .reconnecting
    rw [hclear] at hstatus
    refine .inl ⟨fatals_setStatus (s := s.clearTimers) .reconnecting, ?_⟩
    have hunclosed := congrArg View.unclosed hstatus
    have hreopens := congrArg View.reopens hstatus
    have hrefreshes := congrArg View.refreshes hstatus
    show _ = (s.clearTimers.setStatus .reconnecting).view.unclosed +
      (s.clearTimers.setStatus .reconnecting).view.reopens.length +
        ((s.clearTimers.setStatus .reconnecting).view.refreshes + 1)
    rw [hunclosed, hreopens, hrefreshes]
    rfl
  | reconnect =>
    obtain ⟨id, hid⟩ := view_scheduleReconnect (o := o) (s := s.clearTimers)
    rw [hclear] at hid
    refine .inl ⟨fatals_setStatus (s := s.clearTimers) .reconnecting, ?_⟩
    simp only [hid, View.busy, List.nil_append, List.length_singleton]
    omega

/-- A refresh that is not rejected is followed by a socket or a reconnect, unless refreshes have
succeeded too often. -/
theorem refreshed_cases (o : Options) (bearer : AccessToken) {outcome : State.RefreshOutcome}
    (hm : s.manuallyClosed = false) (hd : s.destroyed = false) (hout : outcome ≠ .rejected) :
    ((s.refreshed o (some bearer) outcome).fatals = s.fatals ∧
      s.view.busy + 1 = (s.refreshed o (some bearer) outcome).view.busy) ∨
    ((s.refreshed o (some bearer) outcome).fatals ≠ [] ∧ outcome = .success ∧
      o.maxConsecutiveRefreshCycles ≤ s.refreshCycleCount) := by
  have hd' : ¬ s.destroyed = true := by simp [hd]
  cases outcome with
  | rejected => exact absurd rfl hout
  | transientFailure =>
    simp only [State.refreshed, if_neg hd']
    obtain ⟨id, hid⟩ := view_scheduleReconnect (o := o) (s := s)
    refine .inl ⟨fatals_setStatus (s := s) .reconnecting, ?_⟩
    simp only [hid, View.busy, List.length_append, List.length_singleton]
    omega
  | success =>
    simp only [State.refreshed]
    rw [if_neg (by simp [hd, hm])]
    split
    · rename_i hmany
      refine .inr ⟨?_, trivial, by omega⟩
      exact List.append_ne_nil_of_right_ne_nil _ (by simp)
    · split
      · have hopened := busy_openSocket { s with
          refreshCycleCount := s.refreshCycleCount + 1, reconnectAttempt := 0 } bearer
        exact .inl ⟨fatals_openSocket (some bearer), hopened.symm⟩
      · have hview := view_reopen (s := { s with
          refreshCycleCount := s.refreshCycleCount + 1, reconnectAttempt := 0 })
          (min (o.initialMs * o.factor ^ (s.refreshCycleCount + 1 - 2)) o.maxMs)
        refine .inl ⟨rfl, Eq.trans ?_ (congrArg View.busy hview).symm⟩
        show s.view.unclosed + s.view.reopens.length + s.view.refreshes + 1 =
          s.view.unclosed + (s.view.reopens ++ [s.nextTimer]).length + s.view.refreshes
        rw [List.length_append, List.length_singleton]
        omega

/-- An event of a client that is not disconnected: a token is there when it looks for one, and no
refresh is rejected. -/
def Goes : Event → Prop
  | .disconnect | .destroy => False
  | .fire _ token => token ≠ none
  | .refreshed outcome token => outcome ≠ .rejected ∧ token ≠ none
  | _ => True

/-- **A client goes on until it gives up.** -/
theorem goes_on (hi : s.view.Inv) (hsane : s.gear.Sane) (hm : s.manuallyClosed = false)
    (he : Goes e) (hs : step o s e = some s') :
    (s'.fatals = s.fatals ∧ (1 ≤ s.view.busy → 1 ≤ s'.view.busy)) ∨
      (s'.fatals ≠ [] ∧ GivesUp o s e) := by
  have hd : s.destroyed = false := by
    rw [← Bool.not_eq_true]
    intro hd
    exact absurd ((hi.destroyed hd).symm.trans hm) (by decide)
  have hbusy := hi.busy
  unfold View.busy at hbusy
  cases e with
  | join conversation =>
    cases hs
    rw [view_join]
    exact .inl ⟨congrArg Cycles.fatals (cycles_join conversation), id⟩
  | leave conversation =>
    cases hs
    rw [view_leave]
    exact .inl ⟨congrArg Cycles.fatals (cycles_leave conversation), id⟩
  | sendTyping conversation =>
    cases hs
    rw [view_sendTyping]
    exact .inl ⟨congrArg Cycles.fatals (cycles_send _), id⟩
  | disconnect => exact he.elim
  | destroy => exact he.elim
  | socketOpen i =>
    simp only [step, Option.ite_none_right_eq_some, Option.some.injEq] at hs
    obtain ⟨-, rfl⟩ := hs
    refine .inl ⟨congrArg Cycles.fatals (cycles_handleOpen o _), fun h => ?_⟩
    rw [view_handleOpen, view_onSocket i fun ws => ?_]
    · exact h
    · unfold WebSocket.establish
      split
      · rename_i hstate
        simp [hstate]
      · rfl
  | socketError i =>
    simp only [step, Option.ite_none_right_eq_some, Option.some.injEq] at hs
    obtain ⟨-, rfl⟩ := hs
    exact .inl ⟨rfl, id⟩
  | socketClose i code =>
    simp only [step, Option.ite_none_right_eq_some, Option.some.injEq] at hs
    obtain ⟨hu, rfl⟩ := hs
    obtain ⟨n, hn, hview⟩ := view_finish hu
    have harmed : (s.onSocket i WebSocket.finish).view.Armed := by
      rw [hview]
      exact hi.armed
    rcases handleClose_cases (s := s.onSocket i WebSocket.finish) o code hm hd harmed with
      ⟨hfatals, hmore⟩ | hgave
    · exact .inl ⟨hfatals, fun _ => by omega⟩
    · exact .inr hgave
  | fire n token =>
    obtain ⟨bearer, rfl⟩ := Option.ne_none_iff_exists'.mp he
    simp only [step] at hs
    split at hs
    · cases hs
    · rename_i t ht
      have htid : t.id = n := by simpa using List.find?_some ht
      split at hs
      · cases hs
        rw [view_send]
        exact .inl ⟨congrArg Cycles.fatals (cycles_send _), id⟩
      · cases hs
        refine .inl ⟨fatals_openSocket _, fun _ => ?_⟩
        rw [busy_openSocket]
        exact Nat.succ_le_succ (Nat.zero_le _)
      · rename_i hcallback
        cases hs
        refine .inl ⟨rfl, fun h => Nat.le_trans h (Nat.le_of_eq ?_)⟩
        -- the timer that fires is none of the reconnects
        have hother : ∀ id ∈ s.view.reopens, decide (some n ≠ some id) = true := by
          intro id hid
          obtain ⟨t', ht', rfl⟩ := List.mem_map.mp hid
          rw [decide_eq_true_eq]
          intro heq
          obtain ⟨hmem', hreopen⟩ := List.mem_filter.mp ht'
          have hsame : t = t' := hsane.distinct t (List.mem_of_find?_eq_some ht) t' hmem'
            (htid.trans (Option.some.inj heq))
          rw [← hsame, hcallback] at hreopen
          cases hreopen
        have hview := view_clear (s := s) (some n)
        rw [List.filter_eq_self.mpr hother] at hview
        exact (congrArg View.busy hview).symm
  | refreshed outcome token =>
    obtain ⟨hout, htoken⟩ := he
    obtain ⟨bearer, rfl⟩ := Option.ne_none_iff_exists'.mp htoken
    simp only [step, Option.ite_none_right_eq_some, Option.some.injEq] at hs
    obtain ⟨-, rfl⟩ := hs
    rcases refreshed_cases (s := { s with refreshes := s.refreshes - 1 }) o bearer hm hd hout with
      ⟨hfatals, hmore⟩ | hgave
    · exact .inl ⟨hfatals, fun _ => by omega⟩
    · exact .inr hgave

/-- The client has a live socket, a pending reconnect timer or a refresh in flight. -/
def Alive (s : State) : Prop :=
  (∃ ws ∈ s.socket.bind fun i => s.sockets[i]?,
    ws.readyState = .connecting ∨ ws.readyState = .open) ∨
  (∃ t ∈ s.timers, t.callback = .reopen) ∨ 0 < s.refreshes

instance : DecidablePred Alive := fun s =>
  inferInstanceAs (Decidable ((∃ ws ∈ s.socket.bind fun i => s.sockets[i]?, _) ∨ _ ∨ _))

theorem alive_of_busy (hsane : s.gear.Sane) (hbusy : 1 ≤ s.view.busy) : Alive s := by
  unfold View.busy at hbusy
  by_cases hu : 0 < s.view.unclosed
  · obtain ⟨ws, hws, hstate⟩ := List.countP_pos_iff.mp hu
    obtain ⟨i, hi⟩ := List.getElem?_of_mem hws
    have hgear : s.gear.states[i]? = some ws.readyState := by
      show (s.sockets.map WebSocket.readyState)[i]? = some ws.readyState
      rw [List.getElem?_map, hi]
      rfl
    have hclosed : ws.readyState ≠ .closed := by simpa using hstate
    have hclosing : ws.readyState ≠ .closing := by
      intro hw
      rw [hw] at hgear
      exact hsane.unclosing (List.mem_of_getElem? hgear)
    have hcurrent : (s.socket.bind fun i => s.sockets[i]?) = some ws := by
      have hsocket : s.socket = some i := hsane.current i _ hgear hclosed
      rw [hsocket]
      exact hi
    refine .inl ⟨ws, hcurrent, ?_⟩
    revert hclosed hclosing
    cases ws.readyState <;> simp
  by_cases hr : 0 < s.view.refreshes
  · exact .inr (.inr hr)
  · have hpos : 0 < s.view.reopens.length := by omega
    obtain ⟨id, hid⟩ := List.exists_mem_of_length_pos hpos
    obtain ⟨t, ht, -⟩ := List.mem_map.mp hid
    obtain ⟨hmem, hcallback⟩ := List.mem_filter.mp ht
    exact .inr (.inl ⟨t, hmem, by simpa using hcallback⟩)

/-! ### The socket and the HTTP client -/

/-- A socket wired to `httpClient.refreshAccessToken` and to the store. -/
structure Wired where
  socket : State
  http : HttpClient.State
  /-- The promises that `refreshAndReconnect` awaits. -/
  awaited : List ℕ

inductive WiredEvent where
  /-- A call, an event of a socket, or a timer. -/
  | socket (e : Event)
  | http (e : HttpClient.Event)
  /-- `refreshAndReconnect` goes on after its `await`. -/
  | refreshed
deriving DecidableEq

/-- What `getAccessToken` returns. -/
def storedToken (http : HttpClient.State) : Option AccessToken :=
  http.session.map fun session => ⟨session.accessToken, session.accessToken_ne⟩

/-- `isFatalAuthError` of what the promise is rejected with. -/
def outcomeOf : HttpClient.RefreshOutcome → State.RefreshOutcome
  | .accessToken _ => .success
  | .apiError status => if status = 401 ∨ status = 403 then .rejected else .transientFailure
  | .thrown => .transientFailure

/-- The socket has reached `s`; if it has called `refreshAndReconnect`, that has called
`refreshAccessToken`. -/
def Wired.after (τ : Wired) (s : State) : Wired :=
  if τ.socket.refreshes < s.refreshes then
    ⟨s, τ.http.refreshAccessToken.1, τ.awaited ++ [τ.http.refreshAccessToken.2]⟩
  else { τ with socket := s }

/-- What happens; `none` where it cannot.  The token of a timer is what the store holds. -/
def wiredStep (o : Options) (τ : Wired) : WiredEvent → Option Wired
  | .socket (.refreshed _ _) => none
  | .socket (.fire id token) =>
    if token = storedToken τ.http then (step o τ.socket (.fire id token)).map τ.after else none
  | .socket e => (step o τ.socket e).map τ.after
  | .http e => (HttpClient.step τ.http e).map fun http => { τ with http }
  | .refreshed =>
    match τ.awaited with
    | [] => none
    | promise :: rest =>
      match τ.http.refreshes[promise]? with
      | some (.settled outcome) =>
        (step o τ.socket (.refreshed (outcomeOf outcome) (storedToken τ.http))).map fun socket =>
          { τ with socket, awaited := rest }
      | _ => none

/-- `connect()` with what the store holds. -/
def wiredTo (http : HttpClient.State) : Wired := ⟨connected (storedToken http), http, []⟩

/-! ### Sessions that survive -/

/-- No logout, and a refresh that fails does so by a network error. -/
def transientHttp : HttpClient.Event → Bool
  | .clearSession => false
  | .refreshFetched _ (.status code) => HttpClient.isOk code
  | _ => true

/-- The refresh has not been answered with an error. -/
def Harmless : HttpClient.RefreshPhase → Prop
  | .readingProblem _ | .finished (.apiError _) | .settled (.apiError _) => False
  | _ => True

structure Surviving (h : HttpClient.State) : Prop where
  session : h.session ≠ none
  harmless : ∀ phase ∈ h.refreshes, Harmless phase

variable {h h' : HttpClient.State} {x : HttpClient.Event} {phase : HttpClient.RefreshPhase}

theorem Surviving.onRefresh (hs : Surviving h) (hphase : Harmless phase) (k : ℕ) :
    Surviving (h.onRefresh k phase) := by
  refine ⟨hs.session, fun q hq => ?_⟩
  rcases List.mem_or_eq_of_mem_set hq with hq | rfl
  · exact hs.harmless q hq
  · exact hphase

theorem Surviving.refreshAccessToken (hs : Surviving h) : Surviving h.refreshAccessToken.1 := by
  unfold HttpClient.State.refreshAccessToken
  split
  · exact hs
  · refine ⟨hs.session, fun q hq => ?_⟩
    rcases List.mem_append.mp hq with hq | hq
    · exact hs.harmless q hq
    · rw [List.mem_singleton.mp hq]
      obtain ⟨session, hsession⟩ := Option.ne_none_iff_exists'.mp hs.session
      rw [hsession]
      trivial

theorem Surviving.storedToken (hs : Surviving h) : storedToken h ≠ none := by
  unfold SocketClient.storedToken
  rw [ne_eq, Option.map_eq_none_iff]
  exact hs.session

/-- **The session survives.** -/
theorem surviving_step (hs : Surviving h) (hx : transientHttp x = true)
    (hstep : HttpClient.step h x = some h') : Surviving h' := by
  cases x with
  | apiRequest auth =>
    cases hstep
    exact ⟨hs.session, hs.harmless⟩
  | fetched i result =>
    simp only [HttpClient.step] at hstep
    split at hstep
    · cases hstep
    · split at hstep
      · cases hstep
        unfold HttpClient.State.afterFetch
        split
        · exact ⟨hs.refreshAccessToken.session, hs.refreshAccessToken.harmless⟩
        · exact ⟨hs.session, hs.harmless⟩
      · cases hstep
        exact ⟨hs.session, hs.harmless⟩
      · cases hstep
      · cases hstep
  | resumed i =>
    simp only [HttpClient.step] at hstep
    split at hstep
    · cases hstep
    · split at hstep
      · split at hstep
        · rename_i outcome _
          cases hstep
          cases outcome <;> exact ⟨hs.session, hs.harmless⟩
        · cases hstep
      · cases hstep
      · cases hstep
      · cases hstep
  | refreshAccessToken =>
    cases hstep
    exact hs.refreshAccessToken
  | refreshFetched k result =>
    simp only [HttpClient.step, Option.ite_none_right_eq_some] at hstep
    obtain ⟨-, hstep⟩ := hstep
    cases result with
    | networkError =>
      cases hstep
      refine hs.onRefresh ?_ k
      exact trivial
    | status code =>
      have hok : HttpClient.isOk code = true := hx
      simp only [hok, if_true] at hstep
      cases hstep
      refine hs.onRefresh ?_ k
      exact trivial
  | refreshBody k tokens =>
    simp only [HttpClient.step, Option.ite_none_right_eq_some] at hstep
    obtain ⟨-, hstep⟩ := hstep
    cases tokens with
    | none =>
      cases hstep
      refine hs.onRefresh ?_ k
      exact trivial
    | some session =>
      cases hstep
      refine Surviving.onRefresh (h := h.setSession session) ⟨by simp [HttpClient.State.setSession], hs.harmless⟩ ?_ k
      exact trivial
  | problemRead k bodyStatus =>
    simp only [HttpClient.step] at hstep
    split at hstep
    · rename_i status hk
      exact (hs.harmless _ (List.mem_of_getElem? hk)).elim
    · cases hstep
  | finallyRuns k =>
    simp only [HttpClient.step] at hstep
    split at hstep
    · rename_i outcome hk
      cases hstep
      have hharmless := hs.harmless _ (List.mem_of_getElem? hk)
      have hsettled : Harmless (.settled outcome) := by
        cases outcome with
        | apiError status => exact hharmless.elim
        | accessToken token => trivial
        | thrown => trivial
      have hon := hs.onRefresh hsettled k
      exact ⟨hon.session, hon.harmless⟩
    · cases hstep
  | clearSession => cases hx
  | setSession session =>
    cases hstep
    exact ⟨by simp [HttpClient.State.setSession], hs.harmless⟩

/-! ### Runs -/

variable {τ τ' : Wired} {y : WiredEvent}

/-- No logout, no `disconnect()` or `destroy()`, and a refresh that fails does so by a network
error. -/
def transient : WiredEvent → Bool
  | .socket .disconnect | .socket .destroy => false
  | .http x => transientHttp x
  | _ => true

/-- A client that goes on, or has given up. -/
structure Wired.Running (τ : Wired) : Prop where
  view : τ.socket.view.Inv
  sane : τ.socket.gear.Sane
  manual : τ.socket.manuallyClosed = false
  http : Surviving τ.http
  busy : τ.socket.fatals = [] → 1 ≤ τ.socket.view.busy

/-- What a step may end: the client gives up. -/
def Wired.GivesUp (o : Options) (τ : Wired) : WiredEvent → Prop
  | .socket (.socketClose _ code) => code = 4403 ∨ code = 4404
  | .refreshed => o.maxConsecutiveRefreshCycles ≤ τ.socket.refreshCycleCount
  | _ => False

/-- The socket takes a step. -/
theorem Wired.Running.socket (h : τ.Running) (he : Goes e) (hs : step o τ.socket e = some s')
    {http : HttpClient.State} (hhttp : Surviving http) (awaited : List ℕ) :
    Wired.Running ⟨s', http, awaited⟩ ∧
      (s'.fatals ≠ τ.socket.fatals → SocketClient.GivesUp o τ.socket e) := by
  have hgood := step_good h.view hs
  have hmanual : s'.manuallyClosed = false := by
    rw [← Bool.not_eq_true, hgood.manual, h.manual]
    rintro (hm | rfl | rfl)
    · cases hm
    · exact he
    · exact he
  have hne : e ≠ .disconnect ∧ e ≠ .destroy := by
    refine ⟨?_, ?_⟩
    · rintro rfl
      exact he
    · rintro rfl
      exact he
  rcases goes_on h.view h.sane h.manual he hs with ⟨hsame, hbusy⟩ | ⟨hfatal, hgave⟩
  · refine ⟨⟨hgood.inv, sane_step h.sane h.view hne hs, hmanual, hhttp, fun hnil => ?_⟩,
      fun hdiff => absurd hsame hdiff⟩
    exact hbusy (h.busy (hsame.symm.trans hnil))
  · exact ⟨⟨hgood.inv, sane_step h.sane h.view hne hs, hmanual, hhttp,
      fun hnil => absurd hnil hfatal⟩, fun _ => hgave⟩

theorem Wired.Running.after (h : τ.Running) (he : Goes e) (hs : step o τ.socket e = some s') :
    (τ.after s').Running ∧
      ((τ.after s').socket.fatals ≠ τ.socket.fatals → SocketClient.GivesUp o τ.socket e) := by
  unfold Wired.after
  split
  · exact h.socket he hs h.http.refreshAccessToken _
  · exact h.socket he hs h.http _

/-- **One step**: the client keeps running, and calls `onFatal` only where it gives up. -/
theorem running_step (h : τ.Running) (hy : transient y = true) (hs : wiredStep o τ y = some τ') :
    τ'.Running ∧ (τ'.socket.fatals ≠ τ.socket.fatals → τ.GivesUp o y) := by
  cases y with
  | http x =>
    obtain ⟨http, hx, rfl⟩ := Option.map_eq_some_iff.mp hs
    exact ⟨⟨h.view, h.sane, h.manual, surviving_step h.http hy hx, h.busy⟩,
      fun hdiff => absurd rfl hdiff⟩
  | refreshed =>
    simp only [wiredStep] at hs
    split at hs
    · cases hs
    · split at hs
      · rename_i outcome hk
        obtain ⟨socket, hsocket, rfl⟩ := Option.map_eq_some_iff.mp hs
        have hout : outcomeOf outcome ≠ .rejected := by
          have hharmless := h.http.harmless _ (List.mem_of_getElem? hk)
          cases outcome with
          | apiError status => exact hharmless.elim
          | accessToken token => exact nofun
          | thrown => exact nofun
        have hgoes : Goes (.refreshed (outcomeOf outcome) (storedToken τ.http)) :=
          ⟨hout, h.http.storedToken⟩
        obtain ⟨hrunning, hgave⟩ := h.socket hgoes hsocket h.http _
        exact ⟨hrunning, fun hdiff => (hgave hdiff).2⟩
      · cases hs
  | socket e =>
    cases e with
    | disconnect => cases hy
    | destroy => cases hy
    | refreshed outcome token => cases hs
    | fire id token =>
      simp only [wiredStep, Option.ite_none_right_eq_some] at hs
      obtain ⟨rfl, hs⟩ := hs
      obtain ⟨s', hs', rfl⟩ := Option.map_eq_some_iff.mp hs
      have hgoes : Goes (.fire id (storedToken τ.http)) := h.http.storedToken
      exact h.after hgoes hs'
    | _ =>
      simp only [wiredStep] at hs
      obtain ⟨s', hs', rfl⟩ := Option.map_eq_some_iff.mp hs
      refine h.after ?_ hs'
      exact trivial

theorem running_wiredTo (hh : Surviving h) : (wiredTo h).Running := by
  obtain ⟨bearer, hbearer⟩ := Option.ne_none_iff_exists'.mp hh.storedToken
  have hfresh : fresh.gear.Sane := by
    refine ⟨fun i state hi => ?_, nofun, nofun, nofun⟩
    simp [State.gear, fresh] at hi
  refine ⟨inv_connected _, ?_, manuallyClosed_connected _, hh, fun _ => ?_⟩
  · exact sane_openSocket (s := { fresh with manuallyClosed := false, destroyed := false }) hfresh
      rfl _
  · show 1 ≤ (connected (storedToken h)).view.busy
    rw [hbearer]
    have hopened := busy_openSocket { fresh with manuallyClosed := false, destroyed := false } bearer
    exact Nat.le_of_eq (hopened.trans rfl).symm

/-- What the HTTP client has become before `connect()`. -/
theorem surviving_last (session : HttpClient.AuthSession) (before : List HttpClient.Event)
    (hbefore : ∀ x ∈ before, transientHttp x = true) :
    Surviving (Reactive.last HttpClient.step (HttpClient.loaded (some session)) before) := by
  have hloaded : Surviving (HttpClient.loaded (some session)) := ⟨nofun, nofun⟩
  generalize HttpClient.loaded (some session) = h at hloaded ⊢
  induction before generalizing h with
  | nil => exact hloaded
  | cons x before ih =>
    rw [List.forall_mem_cons] at hbefore
    cases hs : HttpClient.step h x with
    | none =>
      simp only [Reactive.last, hs]
      exact ih hbefore.2 h hloaded
    | some h' =>
      simp only [Reactive.last, hs]
      exact ih hbefore.2 h' (surviving_step hloaded hbefore.1 hs)

/-- **Transient refresh failures are survivable.** In every run after `connect()` with a session in
which every refresh that fails does so by a network error, with no logout and no `disconnect()` or
`destroy()`: the session is kept; the client has a live socket, a pending reconnect timer or a
refresh in flight, unless it has called `onFatal`; and it calls `onFatal` only on a close with code
4403 or 4404, or when `maxConsecutiveRefreshCycles` refreshes have succeeded without a stable
connection and one more does. -/
theorem transient_refreshes (o : Options) (session : HttpClient.AuthSession)
    (before : List HttpClient.Event) (es : List WiredEvent)
    (hbefore : ∀ x ∈ before, transientHttp x = true)
    (htransient : ∀ x ∈ Reactive.transitions (wiredStep o)
      (wiredTo (Reactive.last HttpClient.step (HttpClient.loaded (some session)) before)) es,
      transient x.2.1 = true) :
    ∀ x ∈ Reactive.transitions (wiredStep o)
      (wiredTo (Reactive.last HttpClient.step (HttpClient.loaded (some session)) before)) es,
      x.2.2.http.session ≠ none ∧ (x.2.2.socket.fatals = [] → Alive x.2.2.socket) ∧
      (x.2.2.socket.fatals ≠ x.1.socket.fatals → x.1.GivesUp o x.2.1) := by
  refine Reactive.transitions_of_inv (I := Wired.Running) (C := fun _ y => transient y = true)
    (Q := fun τ y τ' => τ'.http.session ≠ none ∧ (τ'.socket.fatals = [] → Alive τ'.socket) ∧
      (τ'.socket.fatals ≠ τ.socket.fatals → τ.GivesUp o y))
    (fun τ y τ' h hy hs => ?_) (running_wiredTo (surviving_last session before hbefore)) es htransient
  obtain ⟨hrunning, hgave⟩ := running_step h hy hs
  exact ⟨hrunning, hrunning.http.session,
    fun hnil => alive_of_busy hrunning.sane (hrunning.busy hnil), hgave⟩

/-- The connection's token expires, the refresh fails by a network error, and the client tries
again. -/
def offlineForAWhile : List WiredEvent :=
  [.socket (.socketOpen 0), .socket (.socketClose 0 4402), .http (.refreshFetched 0 .networkError),
    .http (.finallyRuns 0), .refreshed, .socket (.fire 3 (some (letter 'a'))), .socket (.socketOpen 1)]

theorem transient_refreshes_offline :
    (Reactive.last (wiredStep defaultOptions)
      (wiredTo (HttpClient.loaded (some HttpClient.someTokens))) offlineForAWhile).socket.status =
        .open ∧
    ∀ x ∈ Reactive.transitions (wiredStep defaultOptions)
      (wiredTo (HttpClient.loaded (some HttpClient.someTokens))) offlineForAWhile,
      x.2.2.http.session ≠ none ∧ (x.2.2.socket.fatals = [] → Alive x.2.2.socket) ∧
      (x.2.2.socket.fatals ≠ x.1.socket.fatals → x.1.GivesUp defaultOptions x.2.1) :=
  ⟨by decide, transient_refreshes defaultOptions HttpClient.someTokens [] offlineForAWhile nofun
    (by decide)⟩

/-- The refresh is answered with a 503. -/
def serverDown : List WiredEvent :=
  [.socket (.socketOpen 0), .socket (.socketClose 0 4402), .http (.refreshFetched 0 (.status 503)),
    .http (.problemRead 0 none), .http (.finallyRuns 0), .refreshed, .socket (.fire 3 none)]

/-- The account is revoked. -/
def revoked : List WiredEvent := [.socket (.socketOpen 0), .socket (.socketClose 0 4403)]

/-- **A revoked client stops, with its session; and an answer of 503 takes the session.** -/
theorem client_stops :
    (Reactive.last (wiredStep defaultOptions)
      (wiredTo (HttpClient.loaded (some HttpClient.someTokens))) revoked).http.session =
        some HttpClient.someTokens ∧
    ¬Alive (Reactive.last (wiredStep defaultOptions)
      (wiredTo (HttpClient.loaded (some HttpClient.someTokens))) revoked).socket ∧
    (Reactive.last (wiredStep defaultOptions)
      (wiredTo (HttpClient.loaded (some HttpClient.someTokens))) serverDown).http.session = none ∧
    ¬Alive (Reactive.last (wiredStep defaultOptions)
      (wiredTo (HttpClient.loaded (some HttpClient.someTokens))) serverDown).socket := by
  decide

end Chatspace.SocketClient
