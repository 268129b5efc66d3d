import Chatspace.Interleave.Outbox
import Chatspace.Ws.PresenceCount

/-!
# The order of presence events

A change of a user's count between 0 and 1 and the event that tells of it are two steps of one
connection.

* `outbox` — the changes still to be told, and the last one that was, read off the history;
* `Stage` — how far a connection has come;
* `announcing` — a connection publishes what it owes, and counts itself out, or waits for a frame,
  only when it owes nothing;
* `orderly` — nothing fails, and the events of the user are published in the order of the changes;
* `presence_event_order` — **then the last event says online exactly if the user has a live
  connection, once nobody is connecting or disconnecting**;
* `overtaken` — a reconnect during the last disconnect.
-/

namespace Chatspace.Ws

open Interleave Store

variable {T I α : Type} [DecidableEq T] [DecidableEq I] {inst : T → I} {settings : Settings}
  {task : T → Task} {t t' : T} {u u' : UserId} {w w' : WsWorld T I} {s s' : State T I} {o : Op}
  {c : Choice} {r : Except Exc o.Res} {v : o.Res} {tr : List (Entry T Op Op.Res Exc)}
  {x : Entry T Op Op.Res Exc}

/-! ### What is still to be told -/

/-- A script that answers 1 to a connect, or 0 to a disconnect, makes the connection owe an event. -/
def outbox (u : UserId) : List (Entry T Op Op.Res Exc) → Outbox T PresenceState
  | [] => {}
  | x :: tr =>
    match x with
    | ⟨t, .incrementAndExpire userId _, .ok n⟩ =>
      if userId = u ∧ n = 1 then (outbox u tr).owe t .online else outbox u tr
    | ⟨t, .decrementAndFloor userId, .ok n⟩ =>
      if userId = u ∧ n ≤ 0 then (outbox u tr).owe t .offline else outbox u tr
    | ⟨t, .redisPublish (.presence userId event), .ok _⟩ =>
      if userId = u then (outbox u tr).send t event.state else outbox u tr
    | _ => outbox u tr

/-- The last presence event published for the user. -/
def lastEvent (u : UserId) (published : List Published) : Option PresenceState :=
  (published.filterMap fun
    | .presence userId event => if userId = u then some event.state else none
    | .typing .. => none).getLast?

/-- Operations that neither register a connection nor count it nor tell of it. -/
def Still : Op → Prop
  | .register _ | .unregister | .incrementAndExpire .. | .decrementAndFloor _
  | .redisPublish (.presence ..) => False
  | _ => True

theorem still_of_routine (h : o.routine = true) : Still o := by
  cases o with
  | redisPublish event => cases event <;> trivial
  | _ => trivial

theorem Still.elsewhere (h : Still o) : Elsewhere u o := by
  cases o <;> trivial

theorem outbox_of_still (h : Still o) : outbox u (⟨t, o, r⟩ :: tr) = outbox u tr := by
  cases o with
  | redisPublish event =>
    cases event with
    | presence userId event => exact h.elim
    | typing topic event => cases r <;> rfl
  | register | unregister | incrementAndExpire | decrementAndFloor => exact h.elim
  | _ => cases r <;> rfl

/-- What another process does leaves what a process owes. -/
theorem mem_outbox_cons_of_ne {state : PresenceState} (h : x.proc ≠ t) :
    (t, state) ∈ (outbox u (x :: tr)).waiting ↔ (t, state) ∈ (outbox u tr).waiting := by
  obtain ⟨t', o, r⟩ := x
  by_cases hstill : Still o
  · rw [outbox_of_still hstill]
  · cases r with
    | error e =>
      cases o with
      | redisPublish event => cases event <;> rfl
      | _ => rfl
    | ok a =>
      cases o with
      | incrementAndExpire userId ttl | decrementAndFloor userId =>
        simp only [outbox]
        split
        · rw [Outbox.mem_owe]
          simp [Ne.symm h]
        · rfl
      | redisPublish event =>
        cases event with
        | typing topic event => rfl
        | presence userId event =>
          simp only [outbox]
          split
          · rw [Outbox.mem_send]
            simp [Ne.symm h]
          · rfl
      | _ => rfl

/-- A connection is neither connecting nor disconnecting: it is registered exactly if it is counted,
and has told what it had to. -/
structure Finished (t : T) (u : UserId) (w : WsWorld T I) : Prop where
  counted : Serves t u w.state ↔ t ∈ opened u w.trace
  told : ∀ state, (t, state) ∉ (outbox u w.trace).waiting

/-! ### How far a connection has come -/

/-- Connection `t` is registered and counted for these users, and owes this event. -/
structure Stage (t : T) (registered counted : Option UserId)
    (due : Option (UserId × PresenceState)) (w : WsWorld T I) : Prop where
  registered : (w.state.connections t).map ConnectionState.userId = registered
  counted : ∀ u, t ∈ opened u w.trace ↔ counted = some u
  due : ∀ u state, (t, state) ∈ (outbox u w.trace).waiting ↔ due = some (u, state)

omit [DecidableEq T] [DecidableEq I] in
theorem serves_iff : Serves t u s ↔ (s.connections t).map ConnectionState.userId = some u :=
  Option.map_eq_some_iff.symm

omit [DecidableEq I] in
theorem Stage.finished {user : Option UserId} (h : Stage t user user none w) : Finished t u w where
  counted := by rw [serves_iff, h.registered, h.counted u]
  told state hin := nomatch (h.due u state).mp hin

/-- What a process waits at between a connect and a disconnect, and before it does anything. -/
def Op.atRest : Op → Bool
  | .authenticate | .receive _ | .redisGet _ => true
  | _ => false

/-- A connection publishes what it owes, counts itself only when it owes nothing, and comes to rest
only when it is finished. -/
def Announced (t : T) (w : WsWorld T I) : Op → Prop
  | .incrementAndExpire u _ | .decrementAndFloor u =>
    ∀ state, (t, state) ∉ (outbox u w.trace).waiting
  | .redisPublish (.presence u event) => (t, event.state) ∈ (outbox u w.trace).waiting
  | .authenticate | .receive _ | .redisGet _ => ∀ u, Finished t u w
  | _ => True

/-- Steps of a smooth run, in which open connections are counted once. -/
def announcing (inst : T → I) (u : UserId) : Contract (machine inst) where
  inv w := ∀ u, (opened u w.trace).Nodup
  pre := smooth u
  guar t o _ w _ := Announced t w o

variable {registered counted : Option UserId} {due : Option (UserId × PresenceState)}

theorem nodup_of_elsewhere (ho : ∀ u, Elsewhere u o) (hi : ∀ u, (opened u tr).Nodup) (u : UserId) :
    (opened u (⟨t, o, r⟩ :: tr)).Nodup := by
  rw [opened_of_elsewhere (x := ⟨t, o, r⟩) (ho u)]
  exact hi u

theorem nodup_increment {ttl : ℕ} {r : Except Exc ℤ} (ht : ∀ u, t ∉ opened u tr)
    (hi : ∀ u, (opened u tr).Nodup) (u' : UserId) :
    (opened u' (⟨t, .incrementAndExpire u ttl, r⟩ :: tr)).Nodup := by
  by_cases hu : u = u'
  · rw [hu, opened_increment]
    exact List.nodup_cons.mpr ⟨ht u', hi u'⟩
  · simpa [opened, hu] using hi u'

theorem nodup_decrement {r : Except Exc ℤ} (hi : ∀ u, (opened u tr).Nodup) (u' : UserId) :
    (opened u' (⟨t, .decrementAndFloor u, r⟩ :: tr)).Nodup := by
  by_cases hu : u = u'
  · rw [hu, opened_decrement]
    exact (hi u').erase t
  · simpa [opened, hu] using hi u'

omit [DecidableEq I] in
/-- Only registering and unregistering change whom a connection is registered for. -/
theorem registered_of_done (ho : Still o) (h : o.done t c s = some (v, s')) :
    (s'.connections t).map ConnectionState.userId =
      (s.connections t).map ConnectionState.userId := by
  unfold Op.done at h
  split at h
  case h_5 | h_6 =>
    split at h
    · cases h
      rfl
    · cases h
  case h_9 | h_10 => exact ho.elim
  case h_11 | h_12 =>
    cases h
    simp only [Function.update_self]
    cases s.connections t <;> rfl
  all_goals cases h
  all_goals rfl

theorem stable_stage : (announcing inst u').Stable t (Stage t registered counted due) := by
  rintro w w' - - ho ⟨hr, hc, hd⟩
  cases ho with
  | proc hne hpre hexec hguar =>
    obtain ⟨v, c, rfl, hdone⟩ := ok_of_succeeds hpre hexec
    refine ⟨?_, fun u => (mem_opened_cons_of_ne hne).trans (hc u),
      fun u state => (mem_outbox_cons_of_ne hne).trans (hd u state)⟩
    rw [← hr]
    exact congrArg _ ((frame_of_done hdone).2 t hne.symm)
  | event hpre hexec =>
    rename_i ev s
    cases hexec
    refine ⟨?_, hc, hd⟩
    cases ev with
    | crash i => exact hpre.elim
    | _ => exact hr

/-- A still operation leaves a connection where it is. -/
theorem stepOk_still (ho : Still o) (hrest : o.atRest = true → registered = counted ∧ due = none) :
    (announcing inst u').StepOk t (Stage t registered counted due) o
      (Contract.Outcome (fun _ => Stage t registered counted due) fun _ _ => False) := by
  intro w c r s hi hw hC hexec
  refine ⟨nodup_of_elsewhere (fun _ => ho.elsewhere) hi, ?_, ?_⟩
  · cases o with
    | authenticate | receive d | redisGet userId =>
      obtain ⟨rfl, rfl⟩ := hrest rfl
      exact fun u => hw.finished
    | redisPublish event =>
      cases event with
      | presence userId event => exact ho.elim
      | typing topic event => trivial
    | incrementAndExpire | decrementAndFloor => exact ho.elim
    | _ => trivial
  · obtain ⟨v, c, rfl, hdone⟩ := ok_of_succeeds hC hexec
    refine ⟨(registered_of_done ho hdone).trans hw.registered, fun u => ?_, fun u state => ?_⟩
    · rw [← hw.counted u]
      exact iff_of_eq (congrArg (t ∈ ·) (opened_of_elsewhere (x := ⟨t, o, .ok v⟩) ho.elsewhere))
    · rw [← hw.due u state]
      exact iff_of_eq (congrArg (fun b : Outbox T PresenceState => (t, state) ∈ b.waiting)
        (outbox_of_still ho))

theorem safe_still (ho : Still o) (hrest : o.atRest = true → registered = counted ∧ due = none) :
    (announcing inst u').Safe t (Prog.perform o : Async o.Res) (Stage t registered counted due)
      (fun _ => Stage t registered counted due) fun _ _ => False :=
  Contract.Safe.perform (fun _ => stable_stage) (fun _ => .const False) (stepOk_still ho hrest)

/-- Between connecting and disconnecting, it leaves the connection where it is however it ends. -/
theorem stepOk_settled {user : Option UserId} (ho : Still o) : (announcing inst u').StepOk t
    (Stage t user user none) o fun _ => Stage t user user none := by
  intro w c r s hi hw hC hexec
  obtain ⟨hi', hg, hB⟩ := stepOk_still ho (fun _ => ⟨rfl, rfl⟩) w c r s hi hw hC hexec
  refine ⟨hi', hg, ?_⟩
  cases r with
  | ok v => exact hB
  | error e => exact hB.elim

theorem safe_only_still {user : Option UserId} {p : Async α} (hp : p.Only Still) :
    (announcing inst u').Safe t p (Stage t user user none) (fun _ => Stage t user user none)
      fun _ => Stage t user user none :=
  Contract.Safe.only hp stable_stage fun _ => stepOk_settled

theorem stepOk_registers : (announcing inst u').StepOk t (Stage t none none none) (.register u)
    (Contract.Outcome (fun _ => Stage t (some u) none none) fun _ _ => False) := by
  intro w c r s hi hw hC hexec
  refine ⟨nodup_of_elsewhere (fun _ => trivial) hi, trivial, ?_⟩
  obtain ⟨v, c, rfl, hdone⟩ := ok_of_succeeds hC hexec
  cases c with
  | ok =>
    cases hdone
    refine ⟨?_, hw.counted, hw.due⟩
    show (Function.update w.state.connections t (some ⟨u, []⟩) t).map ConnectionState.userId = some u
    rw [Function.update_self]
    rfl
  | _ => cases hdone

theorem stepOk_unregisters : (announcing inst u').StepOk t (Stage t registered counted none)
    .unregister (Contract.Outcome (fun _ => Stage t none counted none) fun _ _ => False) := by
  intro w c r s hi hw hC hexec
  refine ⟨nodup_of_elsewhere (fun _ => trivial) hi, trivial, ?_⟩
  obtain ⟨v, c, rfl, hdone⟩ := ok_of_succeeds hC hexec
  cases c with
  | ok =>
    cases hdone
    refine ⟨?_, hw.counted, hw.due⟩
    show (Function.update w.state.connections t none t).map ConnectionState.userId = none
    rw [Function.update_self]
    rfl
  | _ => cases hdone

/-- What a connect owes. -/
def dueUp (u : UserId) (n : ℤ) : Option (UserId × PresenceState) :=
  if n = 1 then some (u, .online) else none

/-- What a disconnect owes. -/
def dueDown (u : UserId) (n : ℤ) : Option (UserId × PresenceState) :=
  if n ≤ 0 then some (u, .offline) else none

theorem stepOk_countsIn {ttl : ℕ} : (announcing inst u').StepOk t (Stage t registered none none)
    (.incrementAndExpire u ttl)
    (Contract.Outcome (fun n => Stage t registered (some u) (dueUp u n)) fun _ _ => False) := by
  intro w c r s hi hw hC hexec
  have hout (u : UserId) : t ∉ opened u w.trace := by simp [hw.counted u]
  refine ⟨nodup_increment hout hi, fun state => by simp [hw.due u state], ?_⟩
  obtain ⟨n, c, rfl, hdone⟩ := ok_of_succeeds hC hexec
  refine ⟨?_, fun userId => ?_, fun userId state => ?_⟩
  · rw [← hw.registered]
    cases c with
    | ok =>
      cases hdone
      rfl
    | _ => cases hdone
  · have hc := hw.counted userId
    by_cases hu : u = userId
    · simp [opened, hu]
    · simp [opened, hu, hc]
  · have hd := hw.due userId state
    show (t, state) ∈ (outbox userId (⟨t, .incrementAndExpire u ttl, .ok n⟩ :: w.trace)).waiting ↔ _
    by_cases hn : n = 1
    · by_cases hu : u = userId
      · simp [outbox, dueUp, hu, hn, Outbox.mem_owe, hd, eq_comm]
      · simp [outbox, dueUp, hu, hn, hd]
    · simp [outbox, dueUp, hn, hd]

theorem stepOk_countsOut : (announcing inst u').StepOk t (Stage t registered (some u) none)
    (.decrementAndFloor u)
    (Contract.Outcome (fun n => Stage t registered none (dueDown u n)) fun _ _ => False) := by
  intro w c r s hi hw hC hexec
  refine ⟨nodup_decrement hi, fun state => by simp [hw.due u state], ?_⟩
  obtain ⟨n, c, rfl, hdone⟩ := ok_of_succeeds hC hexec
  refine ⟨?_, fun userId => ?_, fun userId state => ?_⟩
  · rw [← hw.registered]
    cases c with
    | ok =>
      cases hdone
      rfl
    | _ => cases hdone
  · have hc := hw.counted userId
    by_cases hu : u = userId
    · simp [opened, hu, (hi userId).mem_erase_iff]
    · simp [opened, hu, hc]
  · have hd := hw.due userId state
    show (t, state) ∈ (outbox userId (⟨t, .decrementAndFloor u, .ok n⟩ :: w.trace)).waiting ↔ _
    by_cases hn : (n : ℤ) ≤ 0
    · by_cases hu : u = userId
      · simp [outbox, dueDown, hu, hn, Outbox.mem_owe, hd, eq_comm]
      · simp [outbox, dueDown, hu, hn, hd]
    · simp [outbox, dueDown, hn, hd]

theorem stepOk_tells {event : PresenceEvent} : (announcing inst u').StepOk t
    (Stage t registered counted (some (u, event.state))) (.redisPublish (.presence u event))
    (Contract.Outcome (fun _ => Stage t registered counted none) fun _ _ => False) := by
  intro w c r s hi hw hC hexec
  refine ⟨nodup_of_elsewhere (fun _ => trivial) hi, (hw.due u event.state).mpr rfl, ?_⟩
  obtain ⟨v, c, rfl, hdone⟩ := ok_of_succeeds hC hexec
  refine ⟨?_, hw.counted, fun userId state => ?_⟩
  · rw [← hw.registered]
    cases c with
    | ok =>
      cases hdone
      rfl
    | _ => cases hdone
  · have hd := hw.due userId state
    show (t, state) ∈
      (outbox userId (⟨t, .redisPublish (.presence u event), .ok v⟩ :: w.trace)).waiting ↔ _
    by_cases hu : u = userId
    · simp [outbox, hu, Outbox.mem_send]
    · simp [outbox, hu, hd]

theorem safe_tells {event : PresenceEvent} : (announcing inst u').Safe t (Presence.publish event u)
    (Stage t registered counted (some (u, event.state)))
    (fun _ => Stage t registered counted none) fun _ _ => False := by
  refine safe_redisFailOpen ?_ fun _ _ _ _ hw => hw.elim
  exact Contract.Safe.perform (fun _ => stable_stage) (fun _ => .const False) stepOk_tells

/-- A connect counts the connection in and tells what it has to. -/
theorem safe_handleConnect_staged {ttl : ℕ} : (announcing inst u').Safe t
    (Presence.handleConnect u ttl) (Stage t registered none none)
    (fun _ => Stage t registered (some u) none) fun _ _ => False := by
  refine Contract.Safe.bind (Q := fun n => Stage t registered (some u) (dueUp u n)) ?_ fun n => ?_
  · refine safe_redisFailOpen ?_ fun _ _ _ _ hw => hw.elim
    exact Contract.Safe.perform (fun _ => stable_stage) (fun _ => .const False) stepOk_countsIn
  · split
    · rename_i hn
      rw [dueUp, if_pos hn]
      exact safe_tells
    · rename_i hn
      rw [dueUp, if_neg hn]
      exact fun _ _ hw => hw

/-- A disconnect counts the connection out and tells what it has to. -/
theorem safe_handleDisconnect_staged : (announcing inst u').Safe t (Presence.handleDisconnect u)
    (Stage t registered (some u) none) (fun _ => Stage t registered none none)
    fun _ _ => False := by
  refine Contract.Safe.bind (Q := fun n => Stage t registered none (dueDown u n)) ?_ fun n => ?_
  · refine safe_redisFailOpen ?_ fun _ _ _ _ hw => hw.elim
    exact Contract.Safe.perform (fun _ => stable_stage) (fun _ => .const False) stepOk_countsOut
  · split
    · rename_i hn
      rw [dueDown, if_neg (Int.not_le.mpr hn)]
      exact fun _ _ hw => hw
    · rename_i hn
      rw [dueDown, if_pos (Int.not_lt.mp hn)]
      refine Contract.Safe.bind (safe_still trivial nofun) fun lastSeen => ?_
      refine Contract.Safe.bind (safe_still trivial nofun) fun _ => ?_
      refine Contract.Safe.bind (safe_still trivial nofun) fun _ => ?_
      exact safe_tells

/-- **An endpoint goes from stage to stage.** -/
theorem safe_websocketEndpoint_staged (frames : ℕ) : (announcing inst u').Safe t
    (websocketEndpoint settings frames) (Stage t none none none) (fun _ => Stage t none none none)
      fun _ => Stage t none none none := by
  refine (safe_only_still (only_authenticateAndAccept fun o ho _ => still_of_routine ho)).bind
    fun userId => ?_
  cases userId with
  | none => exact fun _ _ hw => hw
  | some userId =>
    refine Contract.Safe.bind (Q := fun _ => Stage t (some userId) none none) ?_ fun _ => ?_
    · exact (Contract.Safe.perform (fun _ => stable_stage) (fun _ => .const False)
        stepOk_registers).unraised
    have hfin : (announcing inst u').Safe t
        (do
          Prog.perform Op.unregister
          dbSession (Presence.handleDisconnect userId) : Async Unit)
        (Stage t (some userId) (some userId) none) (fun _ => Stage t none none none)
        fun _ => Stage t none none none := by
      refine Contract.Safe.bind (Q := fun _ => Stage t none (some userId) none) ?_ fun _ => ?_
      · exact (Contract.Safe.perform (fun _ => stable_stage) (fun _ => .const False)
          stepOk_unregisters).unraised
      · exact safe_dbSession safe_handleDisconnect_staged.unraised stable_stage
          (stepOk_settled trivial) (stepOk_settled trivial)
    refine Contract.Safe.tryFinally (Q := fun _ => Stage t (some userId) (some userId) none)
      (R := fun _ => Stage t (some userId) (some userId) none) ?_ (fun _ => hfin) fun _ => hfin
    refine Contract.Safe.bind (Q := fun _ => Stage t (some userId) none none) ?_ fun _ =>
      Contract.Safe.bind (Q := fun _ => Stage t (some userId) (some userId) none) ?_ fun _ =>
        safe_only_still ?_
    · exact (safe_still (o := .subscribe (.user userId)) trivial nofun).unraised
    · exact safe_handleConnect_staged.unraised
    · exact (Prog.only_perform trivial).bind fun now =>
        only_connectionLoop (fun o => still_of_routine) trivial _ _ _

variable {p q : Pool T Op Op.Res Exc (Option Bool) (State T I)}
  {ls : List (Label T Choice (WsEvent I))}

theorem Start.sound_announcing (hp : Start settings task p) : (announcing inst u').Sound
    (fun t _ => Stage t none none none) (fun t _ => Stage t none none none) p where
  inv u := by
    rw [hp.trace]
    exact List.nodup_nil
  safe t := by
    refine ⟨Stage t none none none, stable_stage, ?_, ?_⟩
    · obtain ⟨clock, lastSeen, hs⟩ := hp.state
      constructor
      · rw [hs]
        rfl
      · simp [hp.trace, opened]
      · simp [hp.trace, outbox]
    · rw [hp.prog t]
      cases task t with
      | connection frames => exact (safe_websocketEndpoint_staged frames).bind fun _ _ _ hw => hw
      | isOnline userId =>
        refine safe_only_still (Prog.Only.bind (only_redisFailOpen false ?_) fun _ => trivial)
        exact (Prog.only_perform trivial).bind fun _ => trivial

/-! ### In the order of the changes -/

/-- A smooth run in which an event of the user is published only when no earlier change of the
user's count between 0 and 1 is still to be told by another connection. -/
def orderly (u : UserId) : Machine.Condition T Op Op.Res Exc Choice (WsEvent I) (State T I) where
  op t o c w := (smooth (I := I) u).op t o c w ∧
    match o with
    | .redisPublish (.presence userId _) => userId = u → (outbox u w.trace).InTurn t
    | _ => True
  event := (smooth u).event

instance (t : T) (o : Op) (c : Choice) (w : WsWorld T I) : Decidable ((orderly u).op t o c w) := by
  unfold orderly
  dsimp only
  split <;> infer_instance

instance (ev : WsEvent I) (w : WsWorld T I) : Decidable ((orderly u).event ev w) :=
  inferInstanceAs (Decidable ((smooth u).event ev w))

/-- What the latest change leaves to be said, or has had said, is whether anybody is counted. -/
structure InOrder (u : UserId) (w : WsWorld T I) : Prop where
  single : (outbox u w.trace).Single
  last : (outbox u w.trace).last = lastEvent u w.state.published
  latest : (outbox u w.trace).latest = some .online ↔ opened u w.trace ≠ []

theorem lastEvent_presence {published : List Published} {event : PresenceEvent} :
    lastEvent u (published ++ [.presence u' event]) =
      if u' = u then some event.state else lastEvent u published := by
  by_cases hu : u' = u
  · simp [lastEvent, List.filterMap_append, hu]
  · simp [lastEvent, List.filterMap_append, hu]

theorem lastEvent_typing {published : List Published} {topic : Topic} {event : TypingEvent} :
    lastEvent u (published ++ [.typing topic event]) = lastEvent u published := by
  simp [lastEvent, List.filterMap_append]

omit [DecidableEq I] in
/-- Only a publish publishes. -/
theorem published_of_done (ho : ∀ event, o ≠ .redisPublish event)
    (h : o.done t c s = some (v, s')) : s'.published = s.published := by
  unfold Op.done at h
  split at h
  case h_5 | h_6 =>
    split at h
    · cases h
      rfl
    · cases h
  case h_19 => exact absurd rfl (ho _)
  all_goals cases h
  all_goals rfl

omit [DecidableEq I] in
theorem published_of_publish {event : Published} {v : Unit}
    (h : (Op.redisPublish event).done t c s = some (v, s')) :
    s'.published = s.published ++ [event] := by
  cases c with
  | ok =>
    cases h
    rfl
  | _ => cases h

variable {n : ℤ} {ttl : ℕ}

omit [DecidableEq I] in
/-- A step that tells nothing and owes nothing. -/
theorem InOrder.aside (h : InOrder u w)
    (ho : opened u (⟨t, o, r⟩ :: w.trace) = [] ↔ opened u w.trace = [])
    (hb : outbox u (⟨t, o, r⟩ :: w.trace) = outbox u w.trace)
    (hp : lastEvent u s.published = lastEvent u w.state.published) :
    InOrder u (w.after t o r s) where
  single := by
    rw [World.after_trace, hb]
    exact h.single
  last := by
    rw [World.after_trace, World.after_state, hb, hp]
    exact h.last
  latest := by
    rw [World.after_trace, hb, h.latest]
    exact not_congr ho.symm

omit [DecidableEq I] in
/-- A step that owes an event. -/
theorem InOrder.owes (h : InOrder u w) (state : PresenceState)
    (ho : state = .online ↔ opened u (⟨t, o, r⟩ :: w.trace) ≠ [])
    (hb : outbox u (⟨t, o, r⟩ :: w.trace) = (outbox u w.trace).owe t state)
    (hfree : ∀ state, (t, state) ∉ (outbox u w.trace).waiting)
    (hp : s.published = w.state.published) : InOrder u (w.after t o r s) where
  single := by
    rw [World.after_trace, hb]
    exact h.single.owe hfree
  last := by
    rw [World.after_trace, World.after_state, hb, hp]
    exact h.last
  latest := by
    rw [World.after_trace, hb, Outbox.latest_owe, Option.some_inj]
    exact ho

omit [DecidableEq I] in
theorem InOrder.countsIn (h : InOrder u w)
    (hv : n = (opened u (⟨t, .incrementAndExpire u ttl, .ok n⟩ :: w.trace)).length)
    (hfree : ∀ state, (t, state) ∉ (outbox u w.trace).waiting)
    (hp : s.published = w.state.published) :
    InOrder u (w.after t (.incrementAndExpire u ttl) (.ok n) s) := by
  rw [opened_increment, List.length_cons] at hv
  by_cases hn : n = 1
  · refine h.owes .online ?_ (if_pos ⟨rfl, hn⟩) hfree hp
    rw [opened_increment]
    simp
  · refine h.aside ?_ (if_neg fun hh => hn hh.2) (by rw [hp])
    have hsome : opened u w.trace ≠ [] := by
      intro hnil
      simp only [hnil, List.length_nil] at hv
      omega
    rw [opened_increment]
    simp [hsome]

omit [DecidableEq I] in
theorem InOrder.countsOut (h : InOrder u w) (hin : t ∈ opened u w.trace)
    (hv : n = (opened u (⟨t, .decrementAndFloor u, .ok n⟩ :: w.trace)).length)
    (hfree : ∀ state, (t, state) ∉ (outbox u w.trace).waiting)
    (hp : s.published = w.state.published) :
    InOrder u (w.after t (.decrementAndFloor u) (.ok n) s) := by
  rw [opened_decrement] at hv
  by_cases hn : n ≤ 0
  · refine h.owes .offline ?_ (if_pos ⟨rfl, hn⟩) hfree hp
    have hnil : (opened u w.trace).erase t = [] := by
      refine List.eq_nil_of_length_eq_zero ?_
      omega
    rw [opened_decrement, hnil]
    simp
  · refine h.aside ?_ (if_neg fun hh => hn hh.2) (by rw [hp])
    have hsome : (opened u w.trace).erase t ≠ [] := by
      intro hnil
      simp only [hnil, List.length_nil] at hv
      omega
    rw [opened_decrement]
    simp [hsome, List.ne_nil_of_mem hin]

omit [DecidableEq I] in
theorem InOrder.tells {event : PresenceEvent} (h : InOrder u w)
    (hturn : (outbox u w.trace).InTurn t) (hdue : (t, event.state) ∈ (outbox u w.trace).waiting)
    (hp : s.published = w.state.published ++ [.presence u event]) :
    InOrder u (w.after t (.redisPublish (.presence u event)) (.ok ()) s) := by
  have hb : outbox u (⟨t, .redisPublish (.presence u event), .ok ()⟩ :: w.trace) =
      (outbox u w.trace).send t event.state := if_pos rfl
  constructor
  · rw [World.after_trace, hb]
    exact h.single.send
  · rw [World.after_trace, hb, World.after_state, hp, lastEvent_presence, if_pos rfl,
      Outbox.last_send]
  · rw [World.after_trace, hb, Outbox.latest_send h.single hturn hdue]
    exact h.latest

/-- **A step of an orderly run keeps the order.** -/
theorem InOrder.step (h : InOrder u w) (hans : AnswersExact u (w.after t o r s).trace)
    (hC : (orderly u).op t o c w) (hexec : (machine inst).exec t o c w.state = some (r, s))
    (hg : Announced t w o) : InOrder u (w.after t o r s) := by
  obtain ⟨hsmooth, hturn⟩ := hC
  obtain ⟨v, c, rfl, hdone⟩ := ok_of_succeeds hsmooth hexec
  cases o with
  | incrementAndExpire userId ttl =>
    have hp : s.published = w.state.published := published_of_done (by simp) hdone
    by_cases hu : userId = u
    · subst hu
      exact h.countsIn (Except.ok.inj (hans.2 rfl)) hg hp
    · exact h.aside (by simp [opened, hu]) (by simp [outbox, hu]) (by rw [hp])
  | decrementAndFloor userId =>
    have hp : s.published = w.state.published := published_of_done (by simp) hdone
    by_cases hu : userId = u
    · subst hu
      obtain ⟨hin, hv⟩ := hans.2 rfl
      exact h.countsOut hin (Except.ok.inj hv) hg hp
    · exact h.aside (by simp [opened, hu]) (by simp [outbox, hu]) (by rw [hp])
  | redisPublish event =>
    have hp := published_of_publish hdone
    cases event with
    | typing topic event => exact h.aside .rfl rfl (by rw [hp, lastEvent_typing])
    | presence userId event =>
      by_cases hu : userId = u
      · subst hu
        exact h.tells (hturn rfl) hg hp
      · exact h.aside .rfl (if_neg hu) (by rw [hp, lastEvent_presence, if_neg hu])
  | _ => exact h.aside .rfl rfl (by rw [published_of_done (by simp) hdone])

theorem smooth_of_orderly (hC : (machine inst).Meets (orderly u) p ls) :
    (machine inst).Meets (smooth u) p ls :=
  Machine.meets_mono (C := orderly u) (fun _ _ _ _ hop => hop.1) (fun _ _ hev => hev) hC

/-- **Every orderly run keeps the order.** -/
theorem inOrder_of_orderly (hp : Start settings task p)
    (hC : (machine inst).Meets (orderly u) p ls) (hr : (machine inst).run p ls = some q) :
    InOrder u q.world := by
  have h := hp.sound_announcing.invariant (C := orderly u)
    (P := fun w : WsWorld T I => AnswersExact u w.trace → InOrder u w) (K := announcing inst u)
    (fun _ _ _ _ hop => hop.1) (fun _ _ hev => hev) ?_ ?_ ?_ ?_ hC hr
  · exact h.2 (exact_of_smooth hp (smooth_of_orderly hC) hr).2
  · intro t o c r w s h hop hx hg hans
    exact (h hans.1).step hans hop hx hg
  · intro ev w s h hx hans
    cases hx
    obtain ⟨hsingle, hlast, hlatest⟩ := h hans
    refine ⟨hsingle, ?_, hlatest⟩
    cases ev <;> exact hlast
  · exact fun _ _ _ hi _ _ => hi
  · intro _
    obtain ⟨clock, lastSeen, hs⟩ := hp.state
    constructor
    · rw [hp.trace]
      exact List.nodup_nil
    · rw [hp.trace, hs]
      rfl
    · rw [hp.trace]
      simp [outbox, opened, Outbox.latest]

theorem up_of_smooth (hp : Start settings task p) (hC : (machine inst).Meets (smooth u) p ls)
    (hr : (machine inst).run p ls = some q) (i : I) : q.world.state.crashed i = false := by
  refine Machine.run_induction (C := smooth u)
    (P := fun q : Pool T Op Op.Res Exc _ (State T I) => q.world.state.crashed i = false) ?_ ?_ hC hr
  · intro m l n hm hl hs
    cases l with
    | proc t c =>
      obtain ⟨o, k, r, s, hk, hx, rfl⟩ := Machine.step_proc hs
      obtain ⟨v, c, -, hdone⟩ := ok_of_succeeds (hl o k hk) hx
      exact (congrFun (frame_of_done hdone).1 i).trans hm
    | event ev =>
      obtain ⟨s, hx, rfl⟩ := Machine.step_event hs
      cases hx
      cases ev with
      | crash j => exact hl.elim
      | _ => exact hm
  · obtain ⟨clock, lastSeen, hs⟩ := hp.state
    rw [hs]
    rfl

/-- A process at rest can go on without failing. -/
theorem exists_exec_of_atRest (ho : o.atRest = true) (hup : s.crashed (inst t) = false) :
    ∃ c : Choice, c.Succeeds ∧ ((machine inst).exec t o c s).isSome := by
  cases o with
  | authenticate => exact ⟨.authenticated 0, trivial, by simp [machine, Op.exec, hup, Op.done]⟩
  | redisGet userId => exact ⟨.ok, trivial, by simp [machine, Op.exec, hup, Op.done]⟩
  | receive deadline =>
    by_cases hd : deadline ≤ s.clock
    · exact ⟨.received .timeout, trivial, by simp [machine, Op.exec, hup, Op.done, hd]⟩
    · have hd' : s.clock ≤ deadline := (Nat.lt_of_not_le hd).le
      exact ⟨.received .disconnect, trivial, by simp [machine, Op.exec, hup, Op.done, hd']⟩
  | _ => cases ho

/-- A process that has ended, or is at rest, is neither connecting nor disconnecting. -/
theorem finished_of_rest (hp : Start settings task p) (hC : (machine inst).Meets (smooth u) p ls)
    (hr : (machine inst).run p ls = some q) (hrest : (q.prog t).next.all Op.atRest = true) :
    Finished t u q.world := by
  have hsound := hp.sound_announcing.run (K := announcing inst u) (fun _ _ _ hi _ _ => hi) hC hr
  cases hq : q.prog t with
  | ret a => exact (hsound.ret hq : Stage t none none none q.world).finished
  | raise e => exact (hsound.raise hq : Stage t none none none q.world).finished
  | call o k =>
    have ho : o.atRest = true := by simpa [hq, Prog.next] using hrest
    obtain ⟨A, -, hA, hsafe⟩ := hsound.safe t
    rw [hq] at hsafe
    obtain ⟨B, -, hstep, -⟩ := hsafe
    obtain ⟨c, hc, hsome⟩ := exists_exec_of_atRest ho (up_of_smooth hp hC hr (inst t))
    obtain ⟨⟨r, s⟩, hx⟩ := Option.isSome_iff_exists.mp hsome
    have hg : Announced t q.world o := (hstep _ c r s hsound.inv hA hc hx).2.1
    cases o with
    | authenticate | receive d | redisGet userId => exact hg u
    | _ => cases ho

/-- **The order of presence events.**  In an orderly run, whenever every process has ended or waits
between a connect and a disconnect, or is at least neither connecting nor disconnecting, the last
event published for the user says online exactly if the user has a live connection. -/
theorem presence_event_order (hp : Start settings task p)
    (hC : (machine inst).Meets (orderly u) p ls) (hr : (machine inst).run p ls = some q)
    (hrest : ∀ t, (q.prog t).next.all Op.atRest = true ∨ Finished t u q.world) :
    lastEvent u q.world.state.published = some .online ↔ Live u q.world := by
  have h := inOrder_of_orderly hp hC hr
  have hfin : ∀ t, Finished t u q.world :=
    fun t => (hrest t).elim (finished_of_rest hp (smooth_of_orderly hC) hr) id
  have hnil : (outbox u q.world.trace).waiting = [] := by
    refine List.eq_nil_iff_forall_not_mem.mpr ?_
    rintro ⟨t, state⟩ hin
    exact (hfin t).told state hin
  rw [← h.last, ← Outbox.latest_of_waiting_nil hnil, h.latest, Ne, List.eq_nil_iff_forall_not_mem,
    not_forall_not]
  exact exists_congr fun t => (hfin t).counted.symm

/-- Two connections, on two instances. -/
def tabs : Pool (Fin 2) Op Op.Res Exc (Option Bool) (State (Fin 2) (Fin 2)) where
  world := ⟨.initial 0 fun _ => none, []⟩
  prog _ := (Task.connection 1).program defaults

theorem start_tabs : Start {} (fun _ => Task.connection 1) tabs :=
  ⟨⟨0, fun _ => none, rfl⟩, rfl, fun _ => rfl⟩

/-- Both open, and the first closes. -/
def oneCloses : List (Label (Fin 2) Choice (WsEvent (Fin 2))) :=
  .proc 0 (.authenticated 7) :: List.replicate 9 (.proc 0 .ok) ++
    .proc 1 (.authenticated 7) :: List.replicate 8 (.proc 1 .ok) ++
    .proc 0 (.received .disconnect) :: List.replicate 4 (.proc 0 .ok)

theorem presence_event_order_tabs : ∃ q, (machine (I := Fin 2) id).run tabs oneCloses = some q ∧
    (lastEvent 7 q.world.state.published = some .online ↔ Live 7 q.world) := by
  obtain ⟨q, hq⟩ : ∃ q, (machine (I := Fin 2) id).run tabs oneCloses = some q :=
    Option.isSome_iff_exists.mp (by decide +kernel)
  have hrest : ((machine (I := Fin 2) id).run tabs oneCloses).all fun q =>
      decide (∀ t, (q.prog t).next.all Op.atRest = true) := by decide +kernel
  rw [hq, Option.all_some, decide_eq_true_eq] at hrest
  exact ⟨q, hq, presence_event_order start_tabs (by decide +kernel) hq fun t => .inl (hrest t)⟩

/-- The only tab closes; between its decrement and its commit the user opens another one, which
counts itself in and says so. -/
def overtaken : List (Label (Fin 2) Choice (WsEvent (Fin 2))) :=
  .proc 0 (.authenticated 7) :: List.replicate 9 (.proc 0 .ok) ++
    .proc 0 (.received .disconnect) :: List.replicate 4 (.proc 0 .ok) ++
    .proc 1 (.authenticated 7) :: List.replicate 9 (.proc 1 .ok) ++ List.replicate 4 (.proc 0 .ok)

/-- **The offline event of the tab that closed comes last, and the user is connected.** -/
theorem overtaken_presence : ∃ q, (machine (I := Fin 2) id).run tabs overtaken = some q ∧
    (machine (I := Fin 2) id).Meets (smooth 7) tabs overtaken ∧
    (∀ t, Finished t 7 q.world) ∧ Live 7 q.world ∧
    lastEvent 7 q.world.state.published = some .offline := by
  obtain ⟨q, hq⟩ : ∃ q, (machine (I := Fin 2) id).run tabs overtaken = some q :=
    Option.isSome_iff_exists.mp (by decide +kernel)
  have hrest : ((machine (I := Fin 2) id).run tabs overtaken).all fun q =>
      decide (∀ t, (q.prog t).next.all Op.atRest = true) &&
        ((q.world.state.connections 1).map ConnectionState.userId = some 7 &&
          lastEvent 7 q.world.state.published = some .offline) := by decide +kernel
  simp only [hq, Option.all_some, Bool.and_eq_true, decide_eq_true_eq] at hrest
  obtain ⟨hrest, hlive, hlast⟩ := hrest
  have hC : (machine (I := Fin 2) id).Meets (smooth 7) tabs overtaken := by decide +kernel
  refine ⟨q, hq, hC, fun t => ?_, ⟨1, serves_iff.mpr hlive⟩, hlast⟩
  exact finished_of_rest start_tabs hC hq (hrest t)

end Chatspace.Ws
