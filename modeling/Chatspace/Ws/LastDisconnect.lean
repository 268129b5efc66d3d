import Chatspace.Ws.PresenceCount

/-!
# What the last disconnect records

A connection that closes while Redis and the database answer it updates `last_seen`, commits and
publishes the offline event, or does none of this.

* `Recorded` — it did, one right after the other;
* `last_disconnect_recorded` — **it does so exactly when the count it finds is at most 1;**
* `count_of_last` — the count the last open connection finds, where no decrement was lost;
* `crashed_tab` — the count that a crashed instance leaves behind keeps it from being found.
-/

namespace Chatspace.Ws

open Interleave Store

variable {T I α : Type} [DecidableEq T] [DecidableEq I] {inst : T → I} {settings : Settings}
  {task : T → Task} {t t' : T} {u : UserId} {w w' : WsWorld T I} {s s' : State T I} {o : Op}
  {c : Choice} {P : List (Entry T Op Op.Res Exc) → Prop} {h : List (Entry T Op Op.Res Exc)}

/-- `t` updated `last_seen`, committed the update, and published the offline event that carries it,
one right after the other. -/
def Recorded (t : T) (u : UserId) (h : List (Entry T Op Op.Res Exc)) : Prop :=
  ∃ lastSeen newer older, h = newer ++
    ⟨t, .redisPublish (.presence u (Presence.buildPresenceEvent u .offline (some lastSeen))),
      .ok ()⟩ :: ⟨t, .commit, .ok ()⟩ :: ⟨t, .updateLastSeen u lastSeen, .ok ()⟩ :: older

/-- Redis and the database are reachable while `t` closes: from its `unregister` on none of its
operations fails. -/
def reachable (t : T) : Machine.Condition T Op Op.Res Exc Choice (WsEvent I) (State T I) where
  op t' _ c w := t' = t → (∃ x ∈ w.own t, x.op = .unregister) → c.Succeeds
  event _ _ := True

instance (t' : T) (o : Op) (c : Choice) (w : WsWorld T I) : Decidable ((reachable t).op t' o c w) :=
  inferInstanceAs
    (Decidable (t' = t → (∃ x ∈ w.own t, x.op = .unregister) → c.Succeeds))

instance (ev : WsEvent I) (w : WsWorld T I) : Decidable ((reachable t).event ev w) := .isTrue trivial

/-! ### How a connection closes -/

/-- Operations that belong to no last disconnect. -/
def Quiet : Op → Prop
  | .decrementAndFloor _ | .updateLastSeen .. | .redisPublish (.presence _ ⟨_, .offline, _⟩) => False
  | _ => True

/-- Nothing but quiet operations so far. -/
def AllQuiet (h : List (Entry T Op Op.Res Exc)) : Prop := ∀ x ∈ h, Quiet x.op

def Unregistered (h : List (Entry T Op Op.Res Exc)) : Prop := ∃ x ∈ h, x.op = .unregister

/-- What a disconnect does after its decrement has answered `n`, newest first. -/
def aftermath (t : T) (u : UserId) (n : ℤ) (lastSeen : Time) : List (Entry T Op Op.Res Exc) :=
  if n ≤ 0 then
    [⟨t, .redisPublish (.presence u (Presence.buildPresenceEvent u .offline (some lastSeen))),
      .ok ()⟩, ⟨t, .commit, .ok ()⟩, ⟨t, .updateLastSeen u lastSeen, .ok ()⟩,
      ⟨t, .utcNow, .ok lastSeen⟩]
  else []

/-- `t` has counted itself out, and done what follows. -/
def Departed (t : T) (h : List (Entry T Op Op.Res Exc)) : Prop :=
  ∃ u n lastSeen older, AllQuiet older ∧ Unregistered older ∧
    h = aftermath t u n lastSeen ++ ⟨t, .decrementAndFloor u, .ok n⟩ :: older

/-- One operation that succeeded more. -/
def Then (t : T) (P : List (Entry T Op Op.Res Exc) → Prop) (o : Op) (v : o.Res)
    (h : List (Entry T Op Op.Res Exc)) : Prop := ∃ h', P h' ∧ h = ⟨t, o, .ok v⟩ :: h'

/-- Steps while `t` can reach Redis and the database. -/
def closing (inst : T → I) (t : T) : Contract (machine inst) where
  inv _ := True
  pre := reachable t
  guar _ _ _ _ _ := True

omit [DecidableEq T] in
theorem Then.unregistered {v : o.Res} (hP : ∀ h, P h → Unregistered h) (h' : Then t P o v h) :
    Unregistered h := by
  obtain ⟨h, hh, rfl⟩ := h'
  obtain ⟨x, hx, hop⟩ := hP h hh
  exact ⟨x, List.mem_cons_of_mem _ hx, hop⟩

theorem quiet_of_routine (h : o.routine = true) : Quiet o := by
  cases o with
  | redisPublish event => cases event <;> trivial
  | _ => trivial

theorem safe_quiet {p : Async α} (hp : p.Only Quiet) :
    (closing inst t).Safe t p (fun w => AllQuiet (w.own t)) (fun _ w => AllQuiet (w.own t))
      fun _ w => AllQuiet (w.own t) := by
  refine Contract.Safe.only hp (.history AllQuiet) fun o ho w c r s _ hw _ _ => ?_
  refine ⟨trivial, trivial, ?_⟩
  show AllQuiet (World.own t _)
  rw [World.own_after]
  exact List.forall_mem_cons.mpr ⟨ho, hw⟩

/-- Once `t` is unregistered, what it performs succeeds. -/
theorem safe_then (hP : ∀ h, P h → Unregistered h) : (closing inst t).Safe t
    (Prog.perform o : Async o.Res) (fun w => P (w.own t)) (fun v w => Then t P o v (w.own t))
    fun _ _ => False := by
  refine Contract.Safe.perform (fun v => .history (Then t P o v)) (fun _ => .const False) ?_
  intro w c r s _ hw hC hexec
  obtain ⟨v, c, rfl, -⟩ := ok_of_succeeds (hC rfl (hP _ hw)) hexec
  exact ⟨trivial, trivial, w.own t, hw, World.own_after⟩

theorem safe_then_failOpen {default : o.Res} (hP : ∀ h, P h → Unregistered h) :
    (closing inst t).Safe t (redisFailOpen (Prog.perform o : Async o.Res) default)
      (fun w => P (w.own t)) (fun v w => Then t P o v (w.own t)) fun _ _ => False :=
  safe_redisFailOpen (safe_then hP) fun _ _ _ _ hw => hw.elim

/-- A disconnect does what follows from the answer of its decrement. -/
theorem safe_handleDisconnect_departed : (closing inst t).Safe t (Presence.handleDisconnect u)
    (fun w => AllQuiet (w.own t) ∧ Unregistered (w.own t)) (fun _ w => Departed t (w.own t))
    fun _ _ => False := by
  have h₀ (h : List (Entry T Op Op.Res Exc)) (hh : AllQuiet h ∧ Unregistered h) :
    Unregistered h := hh.2
  refine Contract.Safe.bind (safe_then_failOpen h₀) fun n => ?_
  split
  · rename_i hn
    rintro w - ⟨h, ⟨hq, hu⟩, hown⟩
    refine ⟨u, n, 0, h, hq, hu, ?_⟩
    rw [hown, aftermath, if_neg (Int.not_le.mpr hn)]
    rfl
  · rename_i hn
    refine Contract.Safe.bind (safe_then fun _ => Then.unregistered h₀) fun lastSeen => ?_
    refine Contract.Safe.bind (safe_then fun _ => Then.unregistered fun _ => Then.unregistered h₀)
      fun _ => ?_
    refine Contract.Safe.bind (safe_then fun _ => Then.unregistered fun _ =>
      Then.unregistered fun _ => Then.unregistered h₀) fun _ => ?_
    refine (safe_then_failOpen fun _ => Then.unregistered fun _ => Then.unregistered fun _ =>
      Then.unregistered fun _ => Then.unregistered h₀).mono (fun _ _ hw => hw) (fun _ w _ hw => ?_)
      fun _ _ _ hw => hw
    obtain ⟨h₄, ⟨h₃, ⟨h₂, ⟨h₁, ⟨h, ⟨hq, hu⟩, rfl⟩, rfl⟩, rfl⟩, rfl⟩, hown⟩ := hw
    refine ⟨u, n, lastSeen, h, hq, hu, ?_⟩
    rw [hown, aftermath, if_pos (Int.not_lt.mp hn)]
    rfl

/-- What `t` has done when it has ended: nothing that belongs to a last disconnect, or a whole
disconnect and the end of its session. -/
def Ended (t : T) (h : List (Entry T Op Op.Res Exc)) : Prop :=
  AllQuiet h ∨ ∃ h', Departed t h' ∧ h = ⟨t, .rollback, .ok ()⟩ :: ⟨t, .commit, .ok ()⟩ :: h'

omit [DecidableEq T] in
theorem Departed.unregistered (hd : Departed t h) : Unregistered h := by
  obtain ⟨u, n, lastSeen, older, -, ⟨x, hx, hop⟩, rfl⟩ := hd
  exact ⟨x, List.mem_append_right _ (List.mem_cons_of_mem _ hx), hop⟩

/-- **A connection that closes ends so.** -/
theorem safe_websocketEndpoint_ended (frames : ℕ) : (closing inst t).Safe t
    (websocketEndpoint settings frames) (fun w => AllQuiet (w.own t)) (fun _ w => Ended t (w.own t))
    fun _ w => Ended t (w.own t) := by
  refine Contract.Safe.bind (Q := fun _ w => AllQuiet (w.own t))
    ((safe_quiet (only_authenticateAndAccept fun o ho _ => quiet_of_routine ho)).mono (fun _ _ hw => hw)
      (fun _ _ _ hw => hw) fun _ _ _ hw => .inl hw) fun userId => ?_
  cases userId with
  | none => exact fun _ _ hw => .inl hw
  | some userId =>
    refine Contract.Safe.bind (Q := fun _ w => AllQuiet (w.own t))
      ((safe_quiet (Prog.only_perform (P := Quiet) (o := .register userId) trivial)).mono (fun _ _ hw => hw)
        (fun _ _ _ hw => hw) fun _ _ _ hw => .inl hw) fun _ => ?_
    have hbody : Prog.Only Quiet
        (do
          Prog.perform (Op.subscribe (.user userId))
          Presence.handleConnect userId settings.presenceTtlSeconds
          let now ← Prog.perform Op.monotonic
          connectionLoop settings userId frames
            ⟨settings.wsFrameRateLimitMaxFrames, settings.wsFrameRateLimitWindow, []⟩
            (now + settings.wsHeartbeatTimeout) : Async Unit) := by
      refine Prog.Only.bind (Prog.only_perform trivial) fun _ =>
        Prog.Only.bind (Presence.only_handleConnect trivial trivial) fun _ =>
          Prog.Only.bind (Prog.only_perform trivial) fun now => ?_
      exact only_connectionLoop (fun o => quiet_of_routine) trivial _ _ _
    have hfin : (closing inst t).Safe t
        (do
          Prog.perform Op.unregister
          dbSession (Presence.handleDisconnect userId) : Async Unit)
        (fun w => AllQuiet (w.own t)) (fun _ w => Ended t (w.own t)) fun _ w => Ended t (w.own t) := by
      refine Contract.Safe.bind (Q := fun _ w => AllQuiet (w.own t) ∧ Unregistered (w.own t)) ?_
        fun _ => ?_
      · refine Contract.Safe.perform (fun _ => .history fun h => AllQuiet h ∧ Unregistered h)
          (fun _ => .history (Ended t)) fun w c r s _ hw _ hexec => ⟨trivial, trivial, ?_⟩
        obtain ⟨-, ⟨v, c, rfl, -⟩ | ⟨e, -, ho, -⟩⟩ := exec_eq_some hexec
        · rw [Contract.Outcome_ok, World.own_after]
          exact ⟨List.forall_mem_cons.mpr ⟨trivial, hw⟩, _, List.mem_cons_self, rfl⟩
        · cases ho
      · refine Contract.Safe.tryFinally (Q := fun _ w => Then t (Departed t) .commit () (w.own t))
          (R := fun _ _ => False) ?_ (fun _ => ?_) fun _ => Contract.safe_false _
        · refine Contract.Safe.handle (R := fun _ _ => False) ?_ fun e =>
            Contract.safe_false _
          exact safe_handleDisconnect_departed.bind fun _ =>
            (safe_then fun _ => Departed.unregistered).bind fun _ _ _ hw => hw
        · refine (safe_then fun _ => Then.unregistered fun _ => Departed.unregistered).mono
            (fun _ _ hw => hw) (fun _ w _ hw => ?_) fun _ _ _ hw => hw.elim
          obtain ⟨h₁, ⟨h, hd, rfl⟩, hown⟩ := hw
          exact .inr ⟨h, hd, hown⟩
    exact Contract.Safe.tryFinally (Q := fun _ w => AllQuiet (w.own t))
      (R := fun _ w => AllQuiet (w.own t)) (safe_quiet hbody) (fun _ => hfin) fun _ => hfin

variable {p m q : Pool T Op Op.Res Exc (Option Bool) (State T I)}
  {ls ls' : List (Label T Choice (WsEvent I))}
  {k : Except Exc (Op.decrementAndFloor u).Res → Prog Op Op.Res Exc (Option Bool)}

theorem Start.sound_closing (hp : Start settings task p) : (closing inst t).Sound
    (fun t' _ w => t' = t → Ended t (w.own t)) (fun t' _ w => t' = t → Ended t (w.own t)) p where
  inv := trivial
  safe t' := by
    by_cases ht : t' = t
    · subst ht
      refine ⟨fun w => AllQuiet (w.own t'), .history AllQuiet, fun x hx => ?_, ?_⟩
      · rw [World.own, hp.trace] at hx
        cases hx
      · rw [hp.prog t']
        cases task t' with
        | connection frames =>
          exact Contract.Safe.bind (Q := fun _ w => Ended t' (w.own t'))
            ((safe_websocketEndpoint_ended frames).mono (fun _ _ hw => hw) (fun _ _ _ hw => hw)
              fun _ _ _ hw _ => hw) fun _ _ _ hw _ => hw
        | isOnline userId =>
          have hquiet : ((Task.isOnline userId).program settings).Only Quiet := by
            refine Prog.Only.bind (only_redisFailOpen false ?_) fun _ => trivial
            exact (Prog.only_perform trivial).bind fun _ => trivial
          exact (safe_quiet hquiet).mono (fun _ _ hw => hw) (fun _ _ _ hw _ => .inl hw)
            fun _ _ _ hw _ => .inl hw
    · refine ⟨fun _ => True, .const True, trivial, ?_⟩
      exact (Contract.safe_free (fun _ _ _ _ _ _ _ _ _ => ⟨trivial, trivial, trivial⟩) _).mono
        (fun _ _ hw => hw) (fun _ _ _ _ he => absurd he ht) fun _ _ _ _ he => absurd he ht

/-- What a connection that has ended has done. -/
theorem ended_of_run (hp : Start settings task p) (hC : (machine inst).Meets (reachable t) p ls)
    (hr : (machine inst).run p ls = some q) (hend : ∀ o k, q.prog t ≠ .call o k) :
    Ended t (q.world.own t) := by
  have hsound := hp.sound_closing.run (K := closing inst t) (fun _ _ _ _ _ _ => trivial) hC hr
  cases hq : q.prog t with
  | ret a => exact hsound.ret hq rfl
  | raise e => exact hsound.raise hq rfl
  | call o k => exact absurd hq (hend o k)

omit [DecidableEq T] in
/-- A connection that has ended and counted itself out recorded its disconnect exactly when the
answer was not positive. -/
theorem Ended.recorded_iff (hE : Ended t h) {r : Except Exc ℤ}
    (hin : (⟨t, .decrementAndFloor u, r⟩ : Entry T Op Op.Res Exc) ∈ h) :
    ∃ n, r = .ok n ∧ (Recorded t u h ↔ n ≤ 0) := by
  obtain hq | ⟨h', ⟨u', n, lastSeen, older, hq, -, rfl⟩, rfl⟩ := hE
  · exact (hq _ hin).elim
  · have hlast : (⟨t, .decrementAndFloor u, r⟩ : Entry T Op Op.Res Exc) =
        ⟨t, .decrementAndFloor u', .ok n⟩ := by
      simp only [List.mem_cons, List.mem_append] at hin
      obtain hx | hx | hx | hx | hx := hin
      · cases hx
      · cases hx
      · unfold aftermath at hx
        split at hx
        · simp at hx
        · cases hx
      · exact hx
      · exact (hq _ hx).elim
    cases hlast
    refine ⟨n, rfl, ?_⟩
    constructor
    · rintro ⟨τ, newer, rest, hrec⟩
      by_contra hn
      have hmem : (⟨t, .updateLastSeen u τ, .ok ()⟩ : Entry T Op Op.Res Exc) ∈
          newer ++ ⟨t, .redisPublish (.presence u
            (Presence.buildPresenceEvent u .offline (some τ))), .ok ()⟩ ::
            ⟨t, .commit, .ok ()⟩ :: ⟨t, .updateLastSeen u τ, .ok ()⟩ :: rest := by simp
      rw [← hrec, aftermath, if_neg hn] at hmem
      simp only [List.nil_append, List.mem_cons] at hmem
      obtain hx | hx | hx | hx := hmem
      · cases hx
      · cases hx
      · cases hx
      · exact hq _ hx
    · intro hn
      refine ⟨lastSeen, [⟨t, .rollback, .ok ()⟩, ⟨t, .commit, .ok ()⟩],
        ⟨t, .utcNow, .ok lastSeen⟩ :: ⟨t, .decrementAndFloor u, .ok n⟩ :: older, ?_⟩
      rw [aftermath, if_pos hn]
      rfl

/-- **A connection that closes while Redis and the database are reachable records the disconnect
exactly when it finds the count at 1 or less.** -/
theorem last_disconnect_recorded (hp : Start settings task p)
    (hm : (machine inst).run p ls = some m) (hdecr : m.prog t = .call (.decrementAndFloor u) k)
    (hr : (machine inst).run m (.proc t c :: ls') = some q)
    (hC : (machine inst).Meets (reachable t) p (ls ++ .proc t c :: ls'))
    (hend : ∀ o k, q.prog t ≠ .call o k) :
    Recorded t u (q.world.own t) ↔ count u m.world.state ≤ 1 := by
  obtain ⟨n, hn, hq⟩ := Option.bind_eq_some_iff.mp hr
  obtain ⟨o, k', r, s, hk, hx, rfl⟩ := Machine.step_proc hn
  obtain ⟨rfl, -⟩ := Prog.call.inj (hdecr.symm.trans hk)
  have hin : (⟨t, .decrementAndFloor u, r⟩ : Entry T Op Op.Res Exc) ∈ q.world.own t :=
    World.mem_own.mpr ⟨Machine.mem_trace_of_run hq List.mem_cons_self, rfl⟩
  have hrun : (machine inst).run p (ls ++ .proc t c :: ls') = some q := by
    rw [Machine.run_append, hm]
    exact hr
  obtain ⟨v, rfl, hiff⟩ := (ended_of_run hp hC hrun hend).recorded_iff hin
  rw [hiff]
  obtain ⟨-, ⟨v', c', hv, hdone⟩ | ⟨e, he, -⟩⟩ := exec_eq_some hx
  · cases hv
    obtain ⟨hv, hcount⟩ := count_decrement hdone
    rw [hv, hcount]
    split <;> omega
  · cases he

/-- Two connections of user 7, on two instances. -/
def twoTabs : Pool ℕ Op Op.Res Exc (Option Bool) (State ℕ ℕ) where
  world := ⟨.initial 0 fun _ => none, []⟩
  prog t := (if t ≤ 1 then Task.connection 1 else .isOnline 7).program defaults

/-- The first tab opens and closes but for its decrement. -/
def oneOpens : List (Label ℕ Choice (WsEvent ℕ)) :=
  .proc 0 (.authenticated 7) :: List.replicate 9 (.proc 0 .ok) ++
    [.proc 0 (.received .disconnect), .proc 0 .ok]

theorem last_disconnect_recorded_alone : ∃ m q, (machine (I := ℕ) id).run twoTabs oneOpens =
      some m ∧ (machine (I := ℕ) id).run m (.proc 0 .ok :: List.replicate 6 (.proc 0 .ok)) = some q ∧
    (Recorded 0 7 (q.world.own 0) ↔ count 7 m.world.state ≤ 1) := by
  obtain ⟨m, hm⟩ : ∃ m, (machine (I := ℕ) id).run twoTabs oneOpens = some m :=
    Option.isSome_iff_exists.mp (by decide +kernel)
  have hnext : ((machine (I := ℕ) id).run twoTabs oneOpens).any (fun m =>
      (m.prog 0).next = some (.decrementAndFloor 7) &&
        ((machine (I := ℕ) id).run m (.proc 0 .ok :: List.replicate 6 (.proc 0 .ok))).any fun q =>
          (q.prog 0).next = none) := by decide +kernel
  rw [hm, Option.any_some, Bool.and_eq_true, decide_eq_true_eq, Option.any_eq_true] at hnext
  obtain ⟨hdecr, q, hq, hend⟩ := hnext
  obtain ⟨k, hk⟩ := Prog.call_of_next hdecr
  have hp : Start {} (fun t => if t ≤ 1 then Task.connection 1 else .isOnline 7) twoTabs :=
    ⟨⟨0, fun _ => none, rfl⟩, rfl, fun _ => rfl⟩
  exact ⟨m, q, hm, hq, last_disconnect_recorded hp hm hk hq (by decide +kernel)
    (Prog.ne_call_of_next (of_decide_eq_true hend))⟩

def Op.updatesLastSeen : Op → Bool
  | .updateLastSeen .. => true
  | _ => false

/-- Both tabs open, and the instance of the first one crashes; then the second one, the last that is
live, closes but for its decrement. -/
def oneCrashes : List (Label ℕ Choice (WsEvent ℕ)) :=
  .proc 0 (.authenticated 7) :: List.replicate 9 (.proc 0 .ok) ++
    .proc 1 (.authenticated 7) :: List.replicate 8 (.proc 1 .ok) ++
    [.event (.crash 0), .proc 1 (.received .disconnect), .proc 1 .ok]

/-- **The count that the crashed instance left behind keeps the last disconnect from being
recorded.** -/
theorem crashed_tab : ∃ m q, (machine (I := ℕ) id).run twoTabs oneCrashes = some m ∧
    (m.prog 1).next = some (.decrementAndFloor 7) ∧
    (∀ t ∈ opened 7 m.world.trace, t = 1 ∨ m.world.state.crashed t = true) ∧
    (machine (I := ℕ) id).run m (List.replicate 3 (.proc 1 .ok)) = some q ∧
    (machine (I := ℕ) id).Meets (reachable 1) twoTabs
      (oneCrashes ++ List.replicate 3 (.proc 1 .ok)) ∧
    (q.prog 1).next = none ∧ ¬ Recorded 1 7 (q.world.own 1) := by
  obtain ⟨m, hm⟩ : ∃ m, (machine (I := ℕ) id).run twoTabs oneCrashes = some m :=
    Option.isSome_iff_exists.mp (by decide +kernel)
  have hrest : ((machine (I := ℕ) id).run twoTabs oneCrashes).any (fun m =>
      (m.prog 1).next = some (.decrementAndFloor 7) &&
        (decide (∀ t ∈ opened 7 m.world.trace, t = 1 ∨ m.world.state.crashed t = true) &&
          ((machine (I := ℕ) id).run m (List.replicate 3 (.proc 1 .ok))).any fun q =>
            (q.prog 1).next = none && (q.world.own 1).all fun x => !x.op.updatesLastSeen)) := by
    decide +kernel
  simp only [hm, Option.any_some, Bool.and_eq_true, decide_eq_true_eq, Option.any_eq_true,
    List.all_eq_true] at hrest
  obtain ⟨hdecr, hlast, q, hq, hend, hno⟩ := hrest
  refine ⟨m, q, hm, hdecr, hlast, hq, by decide +kernel, hend, ?_⟩
  rintro ⟨τ, newer, older, hrec⟩
  have hin : (⟨1, .updateLastSeen 7 τ, .ok ()⟩ : Entry ℕ Op Op.Res Exc) ∈ q.world.own 1 := by
    rw [hrec]
    simp
  cases hno _ hin

/-- Where no decrement was lost, the last open connection finds the count at 1 or less. -/
theorem count_of_last (hp : Start settings task p)
    (hC : (machine inst).Meets (noLostDecrement inst u) p ls)
    (hm : (machine inst).run p ls = some m) (hlast : opened u m.world.trace = [t]) :
    count u m.world.state ≤ 1 := by
  have h := (covered hp hC hm).count_le
  rw [hlast] at h
  exact h

end Chatspace.Ws
