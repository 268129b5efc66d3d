import Chatspace.Ws.Router

/-!
# Presence expires

Connections and look-ups, step by step in any order, while operations fail, instances crash and
Redis restarts.

* `discipline` — a connection counts itself, and renews the count, only while it is registered;
* `Leased` — a count is at least 1 and runs out one time to live after a moment at which the user
  had a live connection;
* `presence_expires` — **so it is in every run, and a user is online only if they had a live
  connection within the last time to live.**
-/

namespace Chatspace.Ws

open Interleave Store

inductive Task where
  | connection (frames : ℕ)
  | isOnline (userId : UserId)

/-- A look-up returns its answer, a connection nothing. -/
def Task.program (settings : Settings) : Task → Async (Option Bool)
  | .connection frames => (websocketEndpoint settings frames).bind fun _ => .ret none
  | .isOnline userId => (Presence.isOnline userId).bind fun online => .ret (some online)

variable {T I : Type} [DecidableEq T] [DecidableEq I] {inst : T → I} {settings : Settings}
  {task : T → Task} {t t' : T} {u : UserId} {w : WsWorld T I} {s s' : State T I} {o : Op}
  {c : Choice} {r : Except Exc o.Res} {v : o.Res} {e : Counter}

/-- The system before anybody has connected. -/
structure Start (settings : Settings) (task : T → Task)
    (p : Pool T Op Op.Res Exc (Option Bool) (State T I)) : Prop where
  state : ∃ clock lastSeen, p.world.state = .initial clock lastSeen
  trace : p.world.trace = []
  prog : ∀ t, p.prog t = (task t).program settings

/-- Connection `t` is registered, for this user. -/
def Serves (t : T) (u : UserId) (s : State T I) : Prop :=
  ∃ x, s.connections t = some x ∧ x.userId = u

/-- The user has a live connection. -/
def Live (u : UserId) (w : WsWorld T I) : Prop := ∃ t, Serves t u w.state

/-! ### Who touches the count -/

/-- A count is incremented or renewed for the user of a registered connection, by that
connection. -/
def Disciplined (settings : Settings) (t : T) (s : State T I) : Op → Prop
  | .incrementAndExpire u ttl | .heartbeatRenew u ttl =>
    Serves t u s ∧ ttl = settings.presenceTtlSeconds
  | _ => True

/-- Every step is disciplined. -/
def discipline (inst : T → I) (settings : Settings) : Contract (machine inst) where
  inv _ := True
  pre := .always
  guar t o _ w _ := Disciplined settings t w.state o

theorem eventsOk : (discipline inst settings).EventsOk := fun _ _ _ _ _ _ => trivial

/-- What a registered connection may do without becoming another's. -/
def Counts (settings : Settings) (u : UserId) : Op → Prop
  | .register _ | .unregister => False
  | .incrementAndExpire userId ttl | .heartbeatRenew userId ttl =>
    userId = u ∧ ttl = settings.presenceTtlSeconds
  | _ => True

/-- What anybody may do. -/
def Bystands : Op → Prop
  | .incrementAndExpire .. | .heartbeatRenew .. => False
  | _ => True

theorem counts_of_routine (h : o.routine = true) : Counts settings u o := by
  cases o <;> trivial

theorem bystands_of_routine (h : o.routine = true) : Bystands o := by
  cases o <;> trivial

omit [DecidableEq I] in
/-- An operation leaves the connections of the others alone, and no instance crashes. -/
theorem frame_of_done (h : o.done t' c s = some (v, s')) :
    s'.crashed = s.crashed ∧ ∀ t, t ≠ t' → s'.connections t = s.connections t := by
  unfold Op.done at h
  split at h
  case h_5 | h_6 =>
    split at h
    · cases h
      exact ⟨rfl, fun _ _ => rfl⟩
    · cases h
  all_goals cases h
  all_goals exact ⟨rfl, fun t ht => by first | rfl | exact Function.update_of_ne ht ..⟩

omit [DecidableEq I] in
/-- No operation moves the clock. -/
theorem clock_of_done (h : o.done t c s = some (v, s')) : s'.clock = s.clock := by
  unfold Op.done at h
  split at h
  case h_5 | h_6 =>
    split at h
    · cases h
      rfl
    · cases h
  all_goals cases h
  all_goals rfl

omit [DecidableEq I] in
/-- A registered connection stays registered until it unregisters. -/
theorem serves_of_done (ho : ∀ u, o ≠ .register u) (ho' : o ≠ .unregister)
    (h : o.done t c s = some (v, s')) (hs : Serves t u s) : Serves t u s' := by
  obtain ⟨x, hx, hu⟩ := hs
  unfold Op.done at h
  split at h
  case h_5 | h_6 =>
    split at h
    · cases h
      exact ⟨x, hx, hu⟩
    · cases h
  case h_9 => exact absurd rfl (ho _)
  case h_10 => exact absurd rfl ho'
  case h_11 | h_12 =>
    cases h
    refine ⟨_, (Function.update_self ..).trans (by rw [hx, Option.map_some]), ?_⟩
    exact hu
  all_goals cases h
  all_goals exact ⟨x, hx, hu⟩

/-- Unless its instance has crashed, connection `t` is registered for this user. -/
def Connected (inst : T → I) (t : T) (u : UserId) (w : WsWorld T I) : Prop :=
  w.state.crashed (inst t) = false → Serves t u w.state

theorem stable_connected : (discipline inst settings).Stable t (Connected inst t u) := by
  rintro w w' - - ho h hc
  cases ho with
  | proc hne hpre hexec hguar =>
    obtain rfl | ⟨v, c, hd⟩ := effect_of_exec hexec
    · exact h hc
    · obtain ⟨hcrash, hconn⟩ := frame_of_done hd
      obtain ⟨x, hx, hu⟩ := h (by rw [← hcrash]; exact hc)
      exact ⟨x, (hconn t hne.symm).trans hx, hu⟩
  | event hpre hexec =>
    rename_i ev s'
    cases hexec
    cases ev with
    | tick ms => exact h hc
    | wipe => exact h hc
    | save => exact h hc
    | restart => exact h hc
    | crash i =>
      by_cases hi : inst t = i
      · subst hi
        simp [WsEvent.happen] at hc
      · obtain ⟨x, hx, hu⟩ := h (by simpa [WsEvent.happen, hi] using hc)
        exact ⟨x, by simpa [WsEvent.happen, hi] using hx, hu⟩

theorem stepOk_connected (ho : Counts settings u o) :
    (discipline inst settings).StepOk t (Connected inst t u) o fun _ => Connected inst t u := by
  intro w c r s _ hw _ hexec
  have hup := (exec_eq_some hexec).1
  refine ⟨trivial, ?_, fun hc => ?_⟩
  · cases o with
    | incrementAndExpire userId ttl | heartbeatRenew userId ttl =>
      obtain ⟨rfl, httl⟩ := ho
      exact ⟨hw hup, httl⟩
    | _ => trivial
  · obtain rfl | ⟨v, c, hd⟩ := effect_of_exec hexec
    · exact hw hc
    · refine serves_of_done (fun u hu => ?_) (fun hu => ?_) hd (hw hup) <;> subst hu <;> exact ho

theorem stepOk_bystands (ho : Bystands o) :
    (discipline inst settings).StepOk t (fun _ => True) o fun _ _ => True := by
  intro w c r s _ _ _ _
  refine ⟨trivial, ?_, trivial⟩
  cases o with
  | incrementAndExpire userId ttl | heartbeatRenew userId ttl => exact ho.elim
  | _ => trivial

theorem stepOk_register : (discipline inst settings).StepOk t (fun _ => True) (.register u)
    (Contract.Outcome (fun _ => Connected inst t u) fun _ _ => True) := by
  intro w c r s _ _ _ hexec
  refine ⟨trivial, trivial, ?_⟩
  obtain ⟨-, ⟨v, c, rfl, hd⟩ | ⟨e, -, ho, -⟩⟩ := exec_eq_some hexec
  · cases c with
    | ok =>
      cases hd
      exact fun _ => ⟨⟨u, []⟩, Function.update_self .., rfl⟩
    | _ => cases hd
  · cases ho

/-- **An endpoint is disciplined.** -/
theorem safe_websocketEndpoint (frames : ℕ) :
    (discipline inst settings).Safe t (websocketEndpoint settings frames) (fun _ => True)
      (fun _ _ => True) fun _ _ => True := by
  have hby {β : Type} {p : Async β} (hp : p.Only Bystands) :
      (discipline inst settings).Safe t p (fun _ => True) (fun _ _ => True) fun _ _ => True :=
    Contract.Safe.only hp (.const True) fun o => stepOk_bystands
  refine (hby (only_authenticateAndAccept fun o ho _ => bystands_of_routine ho)).bind fun userId => ?_
  cases userId with
  | none => exact fun _ _ _ => trivial
  | some userId =>
    refine Contract.Safe.await (fun _ => Connected inst t userId) (fun _ => stable_connected)
      (fun _ => .const True) stepOk_register fun _ => ?_
    have hbody : Prog.Only (Counts settings userId)
        (do
          Prog.perform (Op.subscribe (.user userId))
          Presence.handleConnect userId settings.presenceTtlSeconds
          let now ← Prog.perform Op.monotonic
          connectionLoop settings userId frames
            ⟨settings.wsFrameRateLimitMaxFrames, settings.wsFrameRateLimitWindow, []⟩
            (now + settings.wsHeartbeatTimeout) : Async Unit) := by
      refine Prog.Only.bind (Prog.only_perform trivial) fun _ =>
        Prog.Only.bind (Presence.only_handleConnect ⟨rfl, rfl⟩ trivial) fun _ =>
          Prog.Only.bind (Prog.only_perform trivial) fun now => ?_
      exact only_connectionLoop (fun o => counts_of_routine) ⟨rfl, rfl⟩ _ _ _
    have hfin : Prog.Only Bystands
        (do
          Prog.perform Op.unregister
          dbSession (Presence.handleDisconnect userId) : Async Unit) := by
      refine Prog.Only.bind (Prog.only_perform trivial) fun _ =>
        only_dbSession ?_ trivial trivial
      exact Presence.only_handleDisconnect trivial trivial (fun _ => trivial) trivial fun _ => trivial
    refine Contract.Safe.tryFinally (Q := fun _ => Connected inst t userId)
      (R := fun _ => Connected inst t userId)
      (Contract.Safe.only hbody stable_connected fun o => stepOk_connected) ?_ ?_
    · exact fun _ => (hby hfin).weaken fun _ _ _ => trivial
    · exact fun _ => (hby hfin).weaken fun _ _ _ => trivial

theorem safe_task (k : Task) :
    (discipline inst settings).Safe t (k.program settings) (fun _ => True) (fun _ _ => True)
      fun _ _ => True := by
  cases k with
  | connection frames => exact (safe_websocketEndpoint frames).bind fun _ _ _ _ => trivial
  | isOnline userId =>
    refine Contract.Safe.only (P := Bystands) ?_ (.const True) fun o => stepOk_bystands
    refine Prog.Only.bind (only_redisFailOpen false ?_) fun _ => trivial
    exact (Prog.only_perform trivial).bind fun _ => trivial

variable {p q : Pool T Op Op.Res Exc (Option Bool) (State T I)}
  {ls : List (Label T Choice (WsEvent I))}

theorem Start.sound (hp : Start settings task p) :
    (discipline inst settings).Sound (fun _ _ _ => True) (fun _ _ _ => True) p where
  inv := trivial
  safe t := ⟨fun _ => True, .const True, trivial, by rw [hp.prog t]; exact safe_task _⟩

/-! ### What becomes of a count -/

/-- The count that a connect or a heartbeat leaves. -/
def Renewed (settings : Settings) (s : State T I) (u : UserId) (e : Counter) : Prop :=
  (1 ≤ e.value ∨ ∃ e₀, s.redis u = some e₀ ∧ e₀.value ≤ e.value) ∧
    e.deadline = some (s.clock + seconds settings.presenceTtlSeconds)

/-- The count that a disconnect leaves. -/
def Lowered (s : State T I) (u : UserId) (e : Counter) : Prop :=
  1 ≤ e.value ∧ ∃ e₀, s.redis u = some e₀ ∧ e.deadline = e₀.deadline

/-- Operations that are none of the scripts. -/
def Plain : Op → Prop
  | .incrementAndExpire .. | .heartbeatRenew .. | .decrementAndFloor _ => False
  | _ => True

omit [DecidableEq I] in
/-- Only the scripts change the counters, and nothing but Redis itself what it has saved. -/
theorem redis_of_done (h : o.done t c s = some (v, s')) :
    s'.saved = s.saved ∧ (Plain o → s'.redis = s.redis) := by
  unfold Op.done at h
  split at h
  case h_5 | h_6 =>
    split at h
    · cases h
      exact ⟨rfl, fun _ => rfl⟩
    · cases h
  case h_15 | h_16 | h_17 =>
    cases h
    exact ⟨rfl, fun ho => ho.elim⟩
  all_goals cases h
  all_goals exact ⟨rfl, fun _ => rfl⟩

omit [DecidableEq I] in
theorem done_increment {v : ℤ}
    (h : (Op.incrementAndExpire u settings.presenceTtlSeconds).done t c s = some (v, s')) :
    v = (s.redis.lookup s.clock u).elim 0 Counter.value + 1 ∧
      s' = { s with redis := s.redis.put u (some ⟨v,
        some (s.clock + seconds settings.presenceTtlSeconds)⟩) } := by
  cases c with
  | ok =>
    have hscript := incrementAndExpireScript_eq s.redis s.clock u
      settings.presenceTtlSeconds_pos
    simp only [Op.done, hscript] at h
    cases h
    exact ⟨rfl, rfl⟩
  | _ => cases h

omit [DecidableEq I] in
theorem done_heartbeat {v : ℤ}
    (h : (Op.heartbeatRenew u settings.presenceTtlSeconds).done t c s = some (v, s')) :
    s' = { s with redis := s.redis.put u (some ⟨(s.redis.lookup s.clock u).elim 1 Counter.value,
      some (s.clock + seconds settings.presenceTtlSeconds)⟩) } := by
  cases c with
  | ok =>
    cases h
    rw [heartbeatRenewScript_eq _ _ _ settings.presenceTtlSeconds_pos]
  | _ => cases h

omit [DecidableEq I] in
theorem done_decrement {v : ℤ} (h : (Op.decrementAndFloor u).done t c s = some (v, s')) :
    (s.redis.lookup s.clock u = none ∧ v = 0 ∧ s' = s) ∨
      ∃ e, s.redis.lookup s.clock u = some e ∧
        ((e.value ≤ 1 ∧ v = 0 ∧ s' = { s with redis := s.redis.put u none }) ∨
          (1 < e.value ∧ v = e.value - 1 ∧
            s' = { s with redis := s.redis.put u (some ⟨e.value - 1, e.deadline⟩) })) := by
  cases c with
  | ok =>
    cases h
    obtain ⟨hm, hl⟩ | ⟨e, hl, ⟨hv, hm⟩ | ⟨hv, hm⟩⟩ :=
      decrementAndFloorScript_eq s.redis s.clock u
    · exact .inl ⟨hl, by rw [hm], by rw [hm]⟩
    · exact .inr ⟨e, hl, .inl ⟨hv, by rw [hm], by rw [hm]⟩⟩
    · exact .inr ⟨e, hl, .inr ⟨hv, by rw [hm], by rw [hm]⟩⟩
  | _ => cases h

/-- The counter of one user, after a counter was replaced. -/
theorem put_eq_some {m : PresenceCounters} {userId : UserId} {x : Option Counter}
    (h : m.put userId x u = some e) : (u = userId ∧ x = some e) ∨ (u ≠ userId ∧ m u = some e) := by
  by_cases hu : u = userId
  · subst hu
    exact .inl ⟨rfl, Counters.put_self.symm.trans h⟩
  · exact .inr ⟨hu, (Counters.put_of_ne hu).symm.trans h⟩

omit [DecidableEq I] in
/-- After a disciplined step, a count is one that was there, or that of the user whose connection
took the step, renewed, or one of which a disconnect has taken one off. -/
theorem count_of_done (hd : Disciplined settings t s o) (h : o.done t c s = some (v, s'))
    (he : s'.redis u = some e) :
    s.redis u = some e ∨ (Serves t u s ∧ Renewed settings s u e) ∨ Lowered s u e := by
  cases o with
  | incrementAndExpire userId ttl =>
    obtain ⟨hs, rfl⟩ := hd
    obtain ⟨rfl, rfl⟩ := done_increment h
    obtain ⟨rfl, he⟩ | ⟨-, he⟩ := put_eq_some he
    · cases he
      refine .inr (.inl ⟨hs, ?_, rfl⟩)
      cases hl : s.redis.lookup s.clock u with
      | none => exact .inl (by simp)
      | some e₀ => exact .inr ⟨e₀, (Counters.lookup_eq_some.mp hl).1, by simp⟩
    · exact .inl he
  | heartbeatRenew userId ttl =>
    obtain ⟨hs, rfl⟩ := hd
    rw [done_heartbeat h] at he
    obtain ⟨rfl, he⟩ | ⟨-, he⟩ := put_eq_some he
    · cases he
      refine .inr (.inl ⟨hs, ?_, rfl⟩)
      cases hl : s.redis.lookup s.clock u with
      | none => exact .inl (by simp)
      | some e₀ => exact .inr ⟨e₀, (Counters.lookup_eq_some.mp hl).1, by simp⟩
    · exact .inl he
  | decrementAndFloor userId =>
    obtain ⟨-, -, rfl⟩ | ⟨e₀, hl, ⟨-, -, rfl⟩ | ⟨hv, -, rfl⟩⟩ := done_decrement h
    · exact .inl he
    · obtain ⟨-, he⟩ | ⟨-, he⟩ := put_eq_some he
      · cases he
      · exact .inl he
    · obtain ⟨rfl, he'⟩ | ⟨-, he'⟩ := put_eq_some he
      · cases he'
        refine .inr (.inr ⟨?_, e₀, (Counters.lookup_eq_some.mp hl).1, rfl⟩)
        show 1 ≤ e₀.value - 1
        omega
      · exact .inl he'
  | _ => exact .inl (by rw [← (redis_of_done h).2 trivial]; exact he)

/-! ### Whole runs -/

/-- The count is at least 1, and its deadline is one time to live after a moment of the run at which
the user had a live connection. -/
def Leased (inst : T → I) (settings : Settings)
    (p : Pool T Op Op.Res Exc (Option Bool) (State T I)) (ls : List (Label T Choice (WsEvent I)))
    (u : UserId) (e : Counter) : Prop :=
  1 ≤ e.value ∧ ∃ d, e.deadline = some d ∧ (machine inst).Passes p ls fun w =>
    Live u w ∧ d ≤ w.state.clock + seconds settings.presenceTtlSeconds

/-- Every count in Redis, and every count it has saved, is leased. -/
def AllLeased (inst : T → I) (settings : Settings)
    (p : Pool T Op Op.Res Exc (Option Bool) (State T I)) (ls : List (Label T Choice (WsEvent I)))
    (s : State T I) : Prop :=
  ∀ u e, s.redis u = some e ∨ s.saved u = some e → Leased inst settings p ls u e

theorem Leased.append (h : Leased inst settings p ls u e) (l : Label T Choice (WsEvent I)) :
    Leased inst settings p (ls ++ [l]) u e := by
  obtain ⟨hv, d, hd, hw⟩ := h
  exact ⟨hv, d, hd, hw.append [l]⟩

/-- One step of a process. -/
theorem AllLeased.proc (hr : (machine inst).run p ls = some q)
    (h : AllLeased inst settings p ls q.world.state)
    (hexec : (machine inst).exec t o c q.world.state = some (r, s'))
    (hd : Disciplined settings t q.world.state o) (l : Label T Choice (WsEvent I)) :
    AllLeased inst settings p (ls ++ [l]) s' := by
  intro u e he
  obtain rfl | ⟨v, c, hdone⟩ := effect_of_exec hexec
  · exact (h u e he).append l
  rw [(redis_of_done hdone).1] at he
  obtain he | he := he
  · obtain he | ⟨hs, hval, hdl⟩ | ⟨hval, e₀, he₀, hdl⟩ := count_of_done hd hdone he
    · exact (h u e (.inl he)).append l
    · refine ⟨?_, _, hdl, (Machine.passes_last hr ⟨⟨t, hs⟩, le_rfl⟩).append [l]⟩
      obtain hval | ⟨e₀, he₀, hle⟩ := hval
      · exact hval
      · exact (h u e₀ (.inl he₀)).1.trans hle
    · obtain ⟨-, d, hd₀, hw⟩ := h u e₀ (.inl he₀)
      exact ⟨hval, d, hdl.trans hd₀, hw.append [l]⟩
  · exact (h u e (.inr he)).append l

/-- One event. -/
theorem AllLeased.event (h : AllLeased inst settings p ls s) (ev : WsEvent I)
    (l : Label T Choice (WsEvent I)) :
    AllLeased inst settings p (ls ++ [l]) (ev.happen inst s) := by
  intro u e he
  cases ev with
  | tick ms => exact (h u e he).append l
  | crash i => exact (h u e he).append l
  | wipe => obtain he | he := he <;> cases he
  | save => obtain he | he := he <;> exact (h u e (.inl he)).append l
  | restart => obtain he | he := he <;> exact (h u e (.inr he)).append l

/-- In every run, every count is leased. -/
theorem allLeased (hp : Start settings task p) (hr : (machine inst).run p ls = some q) :
    AllLeased inst settings p ls q.world.state := by
  refine (Contract.Sound.history (K := discipline inst settings)
    (H := fun ls q => AllLeased inst settings p ls q.world.state) ?_ ?_ eventsOk hp.sound ?_
    (Machine.meets_always ls) hr).2
  · intro ls m t c o k r s hm h _ hexec hd
    exact h.proc hm hexec hd _
  · intro ls m ev s _ h hs
    cases hs
    exact h.event ev _
  · obtain ⟨clock, lastSeen, hs⟩ := hp.state
    intro u e he
    rw [hs] at he
    obtain he | he := he <;> cases he

/-- A look-up is still to begin, or over. -/
theorem isOnline_at (hp : Start settings task p) (ht : task t = .isOnline u)
    (hr : (machine inst).run p ls = some q) :
    q.prog t = (Task.isOnline u).program settings ∨ ∀ o k, q.prog t ≠ .call o k := by
  refine Machine.run_induction (C := .always) (P := fun q : Pool T Op Op.Res Exc _ (State T I) =>
    q.prog t = (Task.isOnline u).program settings ∨ ∀ o k, q.prog t ≠ .call o k)
    (fun m l n hm _ hs => ?_) (.inl (by rw [hp.prog t, ht])) (Machine.meets_always ls) hr
  cases l with
  | event ev =>
    obtain ⟨s, -, rfl⟩ := Machine.step_event hs
    exact hm
  | proc t' c =>
    obtain ⟨o, k, r, s, hk, hx, rfl⟩ := Machine.step_proc hs
    by_cases htt : t = t'
    · subst htt
      right
      obtain hm | hm := hm
      · cases hk.symm.trans hm
        dsimp only
        rw [Function.update_self]
        cases r with
        | ok n => exact fun _ _ => nofun
        | error e => cases e <;> exact fun _ _ => nofun
      · exact absurd hk (hm o k)
    · dsimp only
      rw [Function.update_of_ne htt]
      exact hm

/-- A look-up that answers `True` has just found a count. -/
theorem lookup_of_isOnline (hp : Start settings task p) (ht : task t = .isOnline u) {c : Choice}
    (hr : (machine inst).run p (ls ++ [.proc t c]) = some q) (hq : q.prog t = .ret (some true)) :
    ∃ e, q.world.state.redis.lookup q.world.state.clock u = some e := by
  obtain ⟨m, hm, hs⟩ := Machine.run_concat_some hr
  obtain ⟨o, k, r, s, hk, hx, rfl⟩ := Machine.step_proc hs
  obtain hstart | hend := isOnline_at hp ht hm
  · cases hk.symm.trans hstart
    dsimp only at hq
    rw [Function.update_self] at hq
    obtain ⟨-, ⟨v, c, rfl, hd⟩ | ⟨e, rfl, -, -⟩⟩ := exec_eq_some hx
    · cases c with
      | ok =>
        cases hd
        cases hl : m.world.state.redis.lookup m.world.state.clock u with
        | some e => exact ⟨e, rfl⟩
        | none =>
          rw [hl] at hq
          cases hq
      | _ => cases hd
    · cases e <;> cases hq
  · exact absurd hk (hend o k)

/-- **In every run a presence count is at least 1 and carries a time to live, and a look-up answers
`True` only if the user had a live connection within the last time to live.** -/
theorem presence_expires (hp : Start settings task p) (hr : (machine inst).run p ls = some q) :
    (∀ u e, q.world.state.redis u = some e → 1 ≤ e.value ∧ e.deadline.isSome) ∧
      ∀ ls' t c u, ls = ls' ++ [.proc t c] → task t = .isOnline u → q.prog t = .ret (some true) →
        (machine inst).Passes p ls fun w => Live u w ∧
          q.world.state.clock ≤ w.state.clock + seconds settings.presenceTtlSeconds := by
  have hall := allLeased hp hr
  constructor
  · intro u e he
    obtain ⟨hv, d, hd, -⟩ := hall u e (.inl he)
    exact ⟨hv, by rw [hd]; rfl⟩
  · rintro ls' t c u rfl ht hq
    obtain ⟨e, he⟩ := lookup_of_isOnline hp ht hr hq
    obtain ⟨he, hnow⟩ := Counters.lookup_eq_some.mp he
    obtain ⟨-, d, hd, hw⟩ := hall u e (.inl he)
    exact hw.mono fun w hw => ⟨hw.1, (hnow d hd).trans hw.2⟩

/-- One connection, and look-ups of user 7. -/
def onePool : Pool ℕ Op Op.Res Exc (Option Bool) (State ℕ ℕ) where
  world := ⟨.initial 0 fun _ => none, []⟩
  prog t := (if t = 0 then Task.connection 1 else .isOnline 7).program defaults

/-- The connection counts itself, and its instance crashes. -/
def crashed : List (Label ℕ Choice (WsEvent ℕ)) :=
  [.proc 0 (.authenticated 7), .proc 0 .ok, .proc 0 .ok, .proc 0 .ok, .proc 0 .ok, .proc 0 .ok,
    .proc 0 .ok, .proc 0 .ok, .event (.crash 0)]

/-- At the very end of its time to live the count is still there. -/
def lastLook : List (Label ℕ Choice (WsEvent ℕ)) := crashed ++ [.event (.tick 120000)]

theorem presence_expires_crash : ∃ q, (machine (I := ℕ) id).run onePool (lastLook ++ [.proc 1 .ok]) =
      some q ∧ q.prog 1 = .ret (some true) ∧
    (machine (I := ℕ) id).Passes onePool (lastLook ++ [.proc 1 .ok]) fun w => Live 7 w ∧
      q.world.state.clock ≤ w.state.clock + seconds 120 := by
  obtain ⟨q, hq⟩ : ∃ q, (machine (I := ℕ) id).run onePool (lastLook ++ [.proc 1 .ok]) = some q :=
    Option.isSome_iff_exists.mp (by decide)
  have hret : q.prog 1 = .ret (some true) := by
    cases hq
    rfl
  have hp : Start {} (fun t => if t = 0 then Task.connection 1 else .isOnline 7) onePool :=
    ⟨⟨0, fun _ => none, rfl⟩, rfl, fun _ => rfl⟩
  exact ⟨q, hq, hret, (presence_expires hp hq).2 _ 1 .ok 7 rfl rfl hret⟩

end Chatspace.Ws
