import Chatspace.Ws.PresenceExpiry

/-!
# What the presence count counts

A connection is open from the moment it counts itself in, whether or not Redis does it, until it
counts itself out.

* `opened` — the open connections of a user, read off the history;
* `closed_of_ended`, `counted` — a process that has ended is not open, and a registered connection
  that has entered its loop is;
* `count_le_opened` — as long as no decrement is lost the count is at most their number;
* `Exact` — where nothing fails and the key is not lost it is their number, and so is every answer
  the scripts give;
* `Tally` — what a connection published and wrote;
* `presence_count` — **both, for every run, with one online event for each change from 0 to 1, and
  one offline event and one `last_seen` write for each change from 1 to 0.**
-/

namespace Chatspace.Ws

open Interleave Store

variable {T I α : Type} [DecidableEq T] [DecidableEq I] {inst : T → I} {settings : Settings}
  {task : T → Task} {t t' : T} {u : UserId} {w w' : WsWorld T I} {s s' : State T I} {o : Op}
  {c : Choice} {r : Except Exc o.Res} {v : o.Res} {e : Counter}
  {tr : List (Entry T Op Op.Res Exc)} {x : Entry T Op Op.Res Exc}

/-! ### Open connections -/

/-- The connections that have counted themselves in for the user and not yet out. -/
def opened (u : UserId) : List (Entry T Op Op.Res Exc) → List T
  | [] => []
  | x :: tr =>
    match x.op with
    | .incrementAndExpire userId _ => if userId = u then x.proc :: opened u tr else opened u tr
    | .decrementAndFloor userId => if userId = u then (opened u tr).erase x.proc else opened u tr
    | _ => opened u tr

/-- The user's count, as Redis has it now. -/
def count (u : UserId) (s : State T I) : ℤ := (s.redis.lookup s.clock u).elim 0 Counter.value

/-- Operations that open and close no connection of the user. -/
def Elsewhere (u : UserId) : Op → Prop
  | .incrementAndExpire userId _ | .decrementAndFloor userId => userId ≠ u
  | _ => True

theorem opened_of_elsewhere (h : Elsewhere u x.op) : opened u (x :: tr) = opened u tr := by
  rw [opened]
  cases hx : x.op with
  | incrementAndExpire userId ttl | decrementAndFloor userId =>
    rw [hx] at h
    exact if_neg h
  | _ => rfl

@[simp] theorem opened_increment {ttl : ℕ} {r : Except Exc ℤ} :
    opened u (⟨t, .incrementAndExpire u ttl, r⟩ :: tr) = t :: opened u tr := by
  simp [opened]

@[simp] theorem opened_decrement {r : Except Exc ℤ} :
    opened u (⟨t, .decrementAndFloor u, r⟩ :: tr) = (opened u tr).erase t := by
  simp [opened]

/-- What another process does neither opens nor closes a connection. -/
theorem mem_opened_cons_of_ne (h : x.proc ≠ t) : t ∈ opened u (x :: tr) ↔ t ∈ opened u tr := by
  rw [opened]
  cases x.op with
  | incrementAndExpire userId ttl =>
    by_cases hu : userId = u
    · simp [hu, h.symm]
    · simp [hu]
  | decrementAndFloor userId =>
    by_cases hu : userId = u
    · simp [hu, List.mem_erase_of_ne h.symm]
    · simp [hu]
  | _ => rfl

/-- Only counting itself in opens a connection. -/
theorem mem_of_opened_cons (h : t ∈ opened u (x :: tr)) :
    t ∈ opened u tr ∨ (t = x.proc ∧ ∃ ttl, x.op = .incrementAndExpire u ttl) := by
  rw [opened] at h
  cases hx : x.op with
  | incrementAndExpire userId ttl =>
    simp only [hx] at h
    split at h
    · rename_i hu
      subst hu
      obtain ht | ht := List.mem_cons.mp h
      · exact .inr ⟨ht, ttl, rfl⟩
      · exact .inl ht
    · exact .inl h
  | decrementAndFloor userId =>
    simp only [hx] at h
    split at h
    · exact .inl (List.mem_of_mem_erase h)
    · exact .inl h
  | _ =>
    simp only [hx] at h
    exact .inl h

/-- `t` is open for no user. -/
def Closed (t : T) (tr : List (Entry T Op Op.Res Exc)) : Prop := ∀ u, t ∉ opened u tr

/-- `t` has not registered yet, and so neither counted itself in, nor entered its loop, nor
unregistered. -/
def Fresh (t : T) (tr : List (Entry T Op Op.Res Exc)) : Prop :=
  Closed t tr ∧ ∀ x ∈ tr, x.proc = t → x.op ≠ .monotonic ∧ x.op ≠ .unregister

/-- What `t` has done. -/
def Did (t : T) (o : Op) (tr : List (Entry T Op Op.Res Exc)) : Prop :=
  ∃ x ∈ tr, x.proc = t ∧ x.op = o

/-- Every operation but the first and the last script leaves a connection as open as it was. -/
def Steady : Op → Prop
  | .incrementAndExpire .. | .decrementAndFloor _ => False
  | _ => True

theorem Steady.elsewhere (h : Steady o) : Elsewhere u o := by
  cases o <;> trivial

/-! ### Who counts -/

/-- A connection registers first, counts itself in while it is closed, enters its loop and renews the
count while it is open, and counts itself out while it is open and after it has unregistered. -/
def Ordered (settings : Settings) (t : T) (tr : List (Entry T Op Op.Res Exc)) : Op → Prop
  | .register _ => Fresh t tr
  | .incrementAndExpire _ ttl => Closed t tr ∧ ttl = settings.presenceTtlSeconds
  | .monotonic => ∃ u, t ∈ opened u tr
  | .heartbeatRenew u ttl => t ∈ opened u tr ∧ ttl = settings.presenceTtlSeconds
  | .decrementAndFloor u => t ∈ opened u tr ∧ Did t .unregister tr
  | _ => True

/-- Open connections are counted once, and nobody is open for two users. -/
structure Distinct (tr : List (Entry T Op Op.Res Exc)) : Prop where
  nodup : ∀ u, (opened u tr).Nodup
  one : ∀ t u u', t ∈ opened u tr → t ∈ opened u' tr → u = u'

theorem Distinct.cons (h : Distinct tr) (ho : Ordered settings x.proc tr x.op) :
    Distinct (x :: tr) := by
  obtain ⟨t, o, r⟩ := x
  constructor
  · intro u
    by_cases hsame : Elsewhere u o
    · rw [opened_of_elsewhere (x := ⟨t, o, r⟩) hsame]
      exact h.nodup u
    · cases o with
      | incrementAndExpire userId ttl =>
        obtain rfl := not_not.mp hsame
        rw [opened_increment]
        exact List.nodup_cons.mpr ⟨ho.1 userId, h.nodup userId⟩
      | decrementAndFloor userId =>
        obtain rfl := not_not.mp hsame
        rw [opened_decrement]
        exact (h.nodup userId).erase t
      | _ => exact absurd trivial hsame
  · intro t' u u' hu hu'
    obtain hin | ⟨rfl, ttl, rfl⟩ := mem_of_opened_cons hu
    · obtain hin' | ⟨rfl, ttl, rfl⟩ := mem_of_opened_cons hu'
      · exact h.one t' u u' hin hin'
      · exact absurd hin (ho.1 u)
    · obtain hin' | ⟨-, ttl', hop⟩ := mem_of_opened_cons hu'
      · exact absurd hin' (ho.1 u')
      · cases hop
        rfl

/-- Every step is ordered. -/
def ordering (inst : T → I) (settings : Settings) : Contract (machine inst) where
  inv w := Distinct w.trace
  pre := .always
  guar t o _ w _ := Ordered settings t w.trace o

theorem eventsOk_ordering : (ordering inst settings).EventsOk := fun _ _ _ hi _ _ => hi

/-- An operation in order keeps the connections apart. -/
theorem stepOk_ordered {A : WsWorld T I → Prop} {B : Except Exc o.Res → WsWorld T I → Prop}
    (h : ∀ w c r s, Distinct w.trace → A w →
      (machine inst).exec t o c w.state = some (r, s) →
        Ordered settings t w.trace o ∧ B r (w.after t o r s)) :
    (ordering inst settings).StepOk t A o B := by
  intro w c r s hi hw _ hexec
  obtain ⟨ho, hB⟩ := h w c r s hi hw hexec
  exact ⟨hi.cons (x := ⟨t, o, r⟩) ho, ho, hB⟩

theorem stable_open : (ordering inst settings).Stable t fun w => t ∈ opened u w.trace := by
  rintro w w' - - ho h
  cases ho with
  | proc hne hpre hexec hguar => exact (mem_opened_cons_of_ne hne).mpr h
  | event hpre hexec => exact h

theorem stable_closed : (ordering inst settings).Stable t fun w => Closed t w.trace := by
  rintro w w' - - ho h u
  cases ho with
  | proc hne hpre hexec hguar => exact fun hu => h u ((mem_opened_cons_of_ne hne).mp hu)
  | event hpre hexec => exact h u

theorem stable_fresh : (ordering inst settings).Stable t fun w => Fresh t w.trace :=
  stable_closed.and .own

theorem stable_unregistered : (ordering inst settings).Stable t
    fun w => t ∈ opened u w.trace ∧ Did t .unregister w.trace :=
  stable_open.and .seen

/-- What an open connection does until it counts itself out. -/
def Stays (settings : Settings) (u : UserId) : Op → Prop
  | .register _ | .incrementAndExpire .. | .decrementAndFloor _ => False
  | .heartbeatRenew userId ttl => userId = u ∧ ttl = settings.presenceTtlSeconds
  | _ => True

/-- What a closed connection does. -/
def Away : Op → Prop
  | .register _ | .unregister | .monotonic | .incrementAndExpire .. | .heartbeatRenew ..
  | .decrementAndFloor _ => False
  | _ => True

theorem stays_of_routine (h : o.routine = true) : Stays settings u o := by
  cases o <;> trivial

theorem away_of_routine (h : o.routine = true) (hm : o ≠ .monotonic) : Away o := by
  cases o with
  | monotonic => exact absurd rfl hm
  | _ => trivial

theorem stepOk_stays (ho : Stays settings u o) : (ordering inst settings).StepOk t
    (fun w => t ∈ opened u w.trace) o fun _ w => t ∈ opened u w.trace := by
  refine stepOk_ordered fun w c r s _ hw _ => ?_
  have hsame : opened u (⟨t, o, r⟩ :: w.trace) = opened u w.trace := by
    refine opened_of_elsewhere (x := ⟨t, o, r⟩) ?_
    cases o <;> trivial
  refine ⟨?_, (congrArg (t ∈ ·) hsame).mpr hw⟩
  cases o with
  | heartbeatRenew userId ttl =>
    obtain ⟨rfl, httl⟩ := ho
    exact ⟨hw, httl⟩
  | monotonic => exact ⟨u, hw⟩
  | register | incrementAndExpire | decrementAndFloor => exact ho.elim
  | _ => trivial

/-- A step away is in order, and leaves the connection closed. -/
theorem Away.closed (ho : Away o) (h : Closed t tr) :
    Ordered settings t tr o ∧ Closed t (⟨t, o, r⟩ :: tr) := by
  have hsame (u : UserId) : opened u (⟨t, o, r⟩ :: tr) = opened u tr := by
    refine opened_of_elsewhere (x := ⟨t, o, r⟩) ?_
    cases o <;> trivial
  refine ⟨?_, fun u => (congrArg (t ∉ ·) (hsame u)).mpr (h u)⟩
  cases o with
  | register | monotonic | incrementAndExpire | heartbeatRenew | decrementAndFloor => exact ho.elim
  | _ => trivial

theorem stepOk_away (ho : Away o) : (ordering inst settings).StepOk t
    (fun w => Closed t w.trace) o fun _ w => Closed t w.trace :=
  stepOk_ordered fun _ _ _ _ _ hw _ => ho.closed hw

theorem stepOk_fresh (ho : Away o) : (ordering inst settings).StepOk t
    (fun w => Fresh t w.trace) o fun _ w => Fresh t w.trace := by
  refine stepOk_ordered fun w c r s _ hw _ => ?_
  obtain ⟨hordered, hclosed⟩ :
    Ordered settings t w.trace o ∧ Closed t (⟨t, o, r⟩ :: w.trace) := ho.closed hw.1
  refine ⟨hordered, hclosed, fun x hx hp => ?_⟩
  obtain rfl | hx := List.mem_cons.mp hx
  · constructor <;>
    · rintro rfl
      exact ho
  · exact hw.2 x hx hp

theorem stepOk_register_fresh : (ordering inst settings).StepOk t (fun w => Fresh t w.trace)
    (.register u) (Contract.Outcome (fun _ w => Closed t w.trace) fun _ w => Closed t w.trace) := by
  refine stepOk_ordered fun w c r s _ hw _ => ?_
  have h : Closed t (⟨t, .register u, r⟩ :: w.trace) := hw.1
  refine ⟨hw, ?_⟩
  cases r <;> exact h

theorem stepOk_subscribe {topic : Topic} : (ordering inst settings).StepOk t
    (fun w => Closed t w.trace) (.subscribe topic)
    (Contract.Outcome (fun _ w => Closed t w.trace) fun _ _ => False) := by
  refine stepOk_ordered fun w c r s _ hw hexec => ?_
  refine ⟨trivial, ?_⟩
  obtain ⟨-, ⟨v, c, rfl, -⟩ | ⟨e, -, ho, -⟩⟩ := exec_eq_some hexec
  · exact hw
  · cases ho

theorem stepOk_increment : (ordering inst settings).StepOk t (fun w => Closed t w.trace)
    (.incrementAndExpire u settings.presenceTtlSeconds)
    (Contract.Outcome (fun _ w => t ∈ opened u w.trace) fun _ w => t ∈ opened u w.trace) := by
  refine stepOk_ordered fun w c r s _ hw _ => ?_
  have h : t ∈ opened u
      (⟨t, .incrementAndExpire u settings.presenceTtlSeconds, r⟩ :: w.trace) := by
    simp [opened]
  refine ⟨⟨hw, rfl⟩, ?_⟩
  cases r <;> exact h

theorem stepOk_unregister : (ordering inst settings).StepOk t (fun w => t ∈ opened u w.trace)
    .unregister (Contract.Outcome (fun _ w => t ∈ opened u w.trace ∧ Did t .unregister w.trace)
      fun _ _ => False) := by
  refine stepOk_ordered fun w c r s _ hw hexec => ?_
  refine ⟨trivial, ?_⟩
  obtain ⟨-, ⟨v, c, rfl, -⟩ | ⟨e, -, ho, -⟩⟩ := exec_eq_some hexec
  · exact ⟨hw, _, List.mem_cons_self, rfl, rfl⟩
  · cases ho

theorem stepOk_decrement : (ordering inst settings).StepOk t
    (fun w => t ∈ opened u w.trace ∧ Did t .unregister w.trace) (.decrementAndFloor u)
    (Contract.Outcome (fun _ w => Closed t w.trace) fun _ w => Closed t w.trace) := by
  refine stepOk_ordered fun w c r s hd hw _ => ?_
  have h : Closed t (⟨t, .decrementAndFloor u, r⟩ :: w.trace) := by
    intro u' hu'
    have hopen : opened u' (⟨t, .decrementAndFloor u, r⟩ :: w.trace) =
        if u = u' then (opened u' w.trace).erase t else opened u' w.trace := rfl
    rw [hopen] at hu'
    split at hu'
    · rename_i huu
      subst huu
      exact ((hd.nodup u).mem_erase_iff.mp hu').1 rfl
    · rename_i huu
      exact huu (hd.one t u u' hw.1 hu')
  refine ⟨hw, ?_⟩
  cases r <;> exact h

theorem safe_away {p : Async α} (hp : p.Only Away) :
    (ordering inst settings).Safe t p (fun w => Closed t w.trace) (fun _ w => Closed t w.trace)
      fun _ w => Closed t w.trace :=
  Contract.Safe.only hp stable_closed fun _ => stepOk_away

theorem safe_fresh {p : Async α} (hp : p.Only Away) :
    (ordering inst settings).Safe t p (fun w => Fresh t w.trace) (fun _ w => Fresh t w.trace)
      fun _ w => Closed t w.trace :=
  (Contract.Safe.only hp stable_fresh fun _ => stepOk_fresh).mono (fun _ _ hw => hw)
    (fun _ _ _ hw => hw) fun _ _ _ hw => hw.1

theorem safe_stays {p : Async α} (hp : p.Only (Stays settings u)) :
    (ordering inst settings).Safe t p (fun w => t ∈ opened u w.trace)
      (fun _ w => t ∈ opened u w.trace) fun _ w => t ∈ opened u w.trace :=
  Contract.Safe.only hp stable_open fun _ => stepOk_stays

/-- A connect opens the connection, whatever becomes of it. -/
theorem safe_handleConnect : (ordering inst settings).Safe t
    (Presence.handleConnect u settings.presenceTtlSeconds) (fun w => Closed t w.trace)
    (fun _ w => t ∈ opened u w.trace) fun _ w => t ∈ opened u w.trace := by
  refine Contract.Safe.bind (Q := fun _ w => t ∈ opened u w.trace) ?_ fun count => ?_
  · exact safe_redisFailOpen (Contract.Safe.perform (fun _ => stable_open) (fun _ => stable_open)
      stepOk_increment) fun _ _ _ _ hw => hw
  · refine safe_stays ?_
    split
    · exact Presence.only_publish trivial
    · trivial

/-- A disconnect closes it. -/
theorem safe_handleDisconnect : (ordering inst settings).Safe t (Presence.handleDisconnect u)
    (fun w => t ∈ opened u w.trace ∧ Did t .unregister w.trace) (fun _ w => Closed t w.trace) fun _ w => Closed t w.trace := by
  refine Contract.Safe.bind (Q := fun _ w => Closed t w.trace) ?_ fun count => ?_
  · exact safe_redisFailOpen (Contract.Safe.perform (fun _ => stable_closed)
      (fun _ => stable_closed) stepOk_decrement) fun _ _ _ _ hw => hw
  · refine safe_away ?_
    split
    · trivial
    · exact (Prog.only_perform trivial).bind fun _ => (Prog.only_perform trivial).bind fun _ =>
        (Prog.only_perform trivial).bind fun _ => Presence.only_publish trivial

/-- **An endpoint counts in order.** -/
theorem safe_websocketEndpoint_ordering (frames : ℕ) : (ordering inst settings).Safe t
    (websocketEndpoint settings frames) (fun w => Fresh t w.trace) (fun _ w => Closed t w.trace)
    fun _ w => Closed t w.trace := by
  refine (safe_fresh (only_authenticateAndAccept fun o => away_of_routine)).bind fun userId => ?_
  cases userId with
  | none => exact fun _ _ hw => hw.1
  | some userId =>
    refine Contract.Safe.await (fun _ w => Closed t w.trace) (fun _ => stable_closed)
      (fun _ => stable_closed) stepOk_register_fresh fun _ => ?_
    refine Contract.Safe.tryFinally (Q := fun _ w => t ∈ opened userId w.trace)
      (R := fun _ w => t ∈ opened userId w.trace) ?_ (fun _ => ?_) fun _ => ?_
    · refine Contract.Safe.bind (Q := fun _ w => Closed t w.trace) ?_ fun _ => ?_
      · exact (Contract.Safe.perform (fun _ => stable_closed) (fun _ => .const False)
          stepOk_subscribe).mono (fun _ _ hw => hw) (fun _ _ _ hw => hw) fun _ _ _ hw => hw.elim
      · refine safe_handleConnect.bind fun _ => safe_stays ?_
        exact (Prog.only_perform trivial).bind fun now =>
          only_connectionLoop (fun o => stays_of_routine) ⟨rfl, rfl⟩ _ _ _
    all_goals
      refine Contract.Safe.bind
        (Q := fun _ w => t ∈ opened userId w.trace ∧ Did t .unregister w.trace) ?_ fun _ => ?_
      · exact (Contract.Safe.perform (fun _ => stable_unregistered) (fun _ => .const False)
          stepOk_unregister).mono (fun _ _ hw => hw) (fun _ _ _ hw => hw) fun _ _ _ hw => hw.elim
      · exact safe_dbSession safe_handleDisconnect stable_closed (stepOk_away trivial)
          (stepOk_away trivial)

theorem safe_task_ordering (k : Task) : (ordering inst settings).Safe t (k.program settings)
    (fun w => Fresh t w.trace) (fun _ w => Closed t w.trace) fun _ w => Closed t w.trace := by
  cases k with
  | connection frames =>
    exact (safe_websocketEndpoint_ordering frames).bind fun _ _ _ hw => hw
  | isOnline userId =>
    have haway : (Task.program settings (.isOnline userId)).Only Away := by
      refine Prog.Only.bind (only_redisFailOpen false ?_) fun _ => trivial
      exact (Prog.only_perform trivial).bind fun _ => trivial
    exact (safe_away haway).weaken fun _ _ hw => hw.1

/-! ### The count -/

omit [DecidableEq T] [DecidableEq I] in
theorem count_congr (h : s.redis u = s'.redis u) (hc : s.clock = s'.clock) :
    count u s = count u s' := by
  simp only [count, Counters.lookup, h, hc]

omit [DecidableEq I] in
theorem count_increment {v : ℤ}
    (h : (Op.incrementAndExpire u settings.presenceTtlSeconds).done t c s = some (v, s')) :
    v = count u s' ∧ count u s' = count u s + 1 := by
  obtain ⟨rfl, rfl⟩ := done_increment h
  have hl : (s.redis.put u (some ⟨_, some (s.clock + seconds settings.presenceTtlSeconds)⟩)).lookup
      s.clock u = some ⟨(s.redis.lookup s.clock u).elim 0 Counter.value + 1, _⟩ :=
    Counters.lookup_put fun d hd => by cases hd; exact Nat.le_add_right _ _
  simp [count, hl]

omit [DecidableEq I] in
theorem count_heartbeat {v : ℤ}
    (h : (Op.heartbeatRenew u settings.presenceTtlSeconds).done t c s = some (v, s')) :
    count u s' = (s.redis.lookup s.clock u).elim 1 Counter.value := by
  obtain rfl := done_heartbeat h
  have hl : (s.redis.put u (some ⟨_, some (s.clock + seconds settings.presenceTtlSeconds)⟩)).lookup
      s.clock u = some ⟨(s.redis.lookup s.clock u).elim 1 Counter.value, _⟩ :=
    Counters.lookup_put fun d hd => by cases hd; exact Nat.le_add_right _ _
  simp [count, hl]

omit [DecidableEq I] in
theorem count_decrement {v : ℤ} (h : (Op.decrementAndFloor u).done t c s = some (v, s')) :
    v = count u s' ∧ count u s' = if count u s ≤ 1 then 0 else count u s - 1 := by
  obtain ⟨hl, rfl, rfl⟩ | ⟨e, hl, ⟨hv, rfl, rfl⟩ | ⟨hv, rfl, rfl⟩⟩ := done_decrement h
  · simp [count, hl]
  · simp [count, hl, hv]
  · have hl' : (s.redis.put u (some ⟨e.value - 1, e.deadline⟩)).lookup s.clock u =
        some ⟨e.value - 1, e.deadline⟩ := Counters.lookup_put (Counters.lookup_eq_some.mp hl).2
    simp [count, hl, hl', hv]

/-- Operations that are no script on the user's counter. -/
def Untouched (u : UserId) : Op → Prop
  | .incrementAndExpire userId _ | .heartbeatRenew userId _ | .decrementAndFloor userId =>
    userId ≠ u
  | _ => True

theorem Untouched.elsewhere (h : Untouched u o) : Elsewhere u o := by
  cases o <;> trivial

omit [DecidableEq I] in
theorem count_of_untouched (ho : Untouched u o) (hd : Disciplined settings t s o)
    (h : o.done t c s = some (v, s')) : count u s' = count u s := by
  have hput (userId : UserId) (x : Option Counter) (hu : userId ≠ u) :
      count u { s with redis := s.redis.put userId x } = count u s := by
    simp [count, Counters.lookup_put_of_ne hu.symm]
  cases o with
  | incrementAndExpire userId ttl =>
    obtain ⟨-, rfl⟩ := hd
    obtain ⟨-, rfl⟩ := done_increment h
    exact hput userId _ ho
  | heartbeatRenew userId ttl =>
    obtain ⟨-, rfl⟩ := hd
    obtain rfl := done_heartbeat h
    exact hput userId _ ho
  | decrementAndFloor userId =>
    obtain ⟨-, -, rfl⟩ | ⟨e, -, ⟨-, -, rfl⟩ | ⟨-, -, rfl⟩⟩ := done_decrement h
    · rfl
    · exact hput userId _ ho
    · exact hput userId _ ho
  | authenticate | accept | close | sendJson | receive | authorizeConversation | revalidate
  | register | unregister | subscribe | unsubscribe | monotonic | utcNow | redisGet | redisPublish
  | updateLastSeen | commit | rollback =>
    have hclock : s'.clock = s.clock := clock_of_done h
    simp [count, hclock, (redis_of_done h).2 trivial]

/-! ### Runs in order -/

variable {p q : Pool T Op Op.Res Exc (Option Bool) (State T I)}
  {ls : List (Label T Choice (WsEvent I))}
  {C : Machine.Condition T Op Op.Res Exc Choice (WsEvent I) (State T I)}

theorem Start.sound_ordering (hp : Start settings task p) : (ordering inst settings).Sound
    (fun t _ w => Closed t w.trace) (fun t _ w => Closed t w.trace) p where
  inv := by
    show Distinct p.world.trace
    rw [hp.trace]
    exact ⟨fun _ => List.nodup_nil, fun _ _ _ h => by cases h⟩
  safe t := by
    refine ⟨fun w => Fresh t w.trace, stable_fresh, ?_, ?_⟩
    · show Fresh t p.world.trace
      rw [hp.trace]
      exact ⟨fun _ => List.not_mem_nil, nofun⟩
    · rw [hp.prog t]
      exact safe_task_ordering _

/-- **A process that has ended is not open.** -/
theorem closed_of_ended (hp : Start settings task p) (hr : (machine inst).run p ls = some q)
    (hend : ∀ o k, q.prog t ≠ .call o k) : t ∉ opened u q.world.trace := by
  have hsound := hp.sound_ordering.run (K := ordering inst settings) eventsOk_ordering
    (Machine.meets_always ls) hr
  cases hq : q.prog t with
  | ret a => exact hsound.ret hq u
  | raise e => exact hsound.raise hq u
  | call o k => exact absurd hq (hend o k)

/-- What every step that meets the condition keeps, holds at the end: a step of a process is in
order and disciplined. -/
theorem ordered_run {P : WsWorld T I → Prop} (hp : Start settings task p)
    (hproc : ∀ t o c r w s, Distinct w.trace → P w → C.op t o c w →
      (machine inst).exec t o c w.state = some (r, s) → Disciplined settings t w.state o →
        Ordered settings t w.trace o → P (w.after t o r s))
    (hevent : ∀ ev (w : WsWorld T I), P w → C.event ev w → P ⟨ev.happen inst w.state, w.trace⟩)
    (h₀ : P p.world) (hC : (machine inst).Meets C p ls) (hr : (machine inst).run p ls = some q) :
    P q.world ∧ Distinct q.world.trace := by
  have h := Machine.run_induction (C := C) (P := fun q : Pool T Op Op.Res Exc _ (State T I) =>
    ((discipline inst settings).Sound (fun _ _ _ => True) (fun _ _ _ => True) q ∧
      (ordering inst settings).Sound (fun t _ w => Closed t w.trace)
        (fun t _ w => Closed t w.trace) q) ∧ P q.world) ?_ ⟨⟨hp.sound, hp.sound_ordering⟩, h₀⟩ hC hr
  · exact ⟨h.2, h.1.2.inv⟩
  · rintro m l n ⟨⟨hd, ho⟩, hP⟩ hl hs
    have hl' : Machine.Condition.always.At m l := by
      cases l <;> simp [Machine.Condition.At, Machine.Condition.always]
    refine ⟨⟨hd.step eventsOk hl' hs, ho.step eventsOk_ordering hl' hs⟩, ?_⟩
    cases l with
    | event ev =>
      obtain ⟨s, hx, rfl⟩ := Machine.step_event hs
      cases hx
      exact hevent ev _ hP hl
    | proc t c =>
      obtain ⟨o, k, r, s, hk, hx, rfl, hg⟩ := ho.guar hl' hs
      obtain ⟨o', k', r', s', hk', -, -, hg'⟩ := hd.guar hl' hs
      obtain ⟨rfl, -⟩ := Prog.call.inj (hk.symm.trans hk')
      exact hproc t o c r m.world s ho.inv hP (hl o k hk) hx hg' hg

/-! ### Who is counted -/

/-- Connection `t`, registered for the user, has not unregistered, is open for nobody else, and is
open once it has entered its loop. -/
structure Attended (t : T) (u : UserId) (tr : List (Entry T Op Op.Res Exc)) : Prop where
  staying : ¬ Did t .unregister tr
  one : ∀ u', t ∈ opened u' tr → u' = u
  entered : Did t .monotonic tr → t ∈ opened u tr

omit [DecidableEq T] [DecidableEq I] in
/-- A connection is registered for one user. -/
theorem serves_inj (h : Serves t u s) (h' : Serves t u' s) : u = u' := by
  obtain ⟨x, hx, rfl⟩ := h
  obtain ⟨y, hy, rfl⟩ := h'
  rw [Option.some.inj (hx.symm.trans hy)]

omit [DecidableEq I] in
/-- Who is registered after an operation has registered by it or was registered before. -/
theorem serves_of_done_of_ne (hr : ∀ u, o ≠ .register u) (h : o.done t c s = some (v, s'))
    (hs : Serves t u s') : Serves t u s ∧ o ≠ .unregister := by
  obtain ⟨x, hx, rfl⟩ := hs
  unfold Op.done at h
  split at h
  case h_5 | h_6 =>
    split at h
    · cases h
      exact ⟨⟨x, hx, rfl⟩, nofun⟩
    · cases h
  case h_9 => exact absurd rfl (hr _)
  case h_10 =>
    cases h
    simp at hx
  case h_11 | h_12 =>
    cases h
    simp only [Function.update_self, Option.map_eq_some_iff] at hx
    obtain ⟨y, hy, rfl⟩ := hx
    exact ⟨⟨y, hy, rfl⟩, nofun⟩
  all_goals cases h
  all_goals exact ⟨⟨x, hx, rfl⟩, nofun⟩

/-- Only counting itself out closes a connection. -/
theorem mem_opened_cons (hx : ∀ u', x.op ≠ .decrementAndFloor u') (h : t ∈ opened u tr) :
    t ∈ opened u (x :: tr) := by
  rw [opened]
  cases ho : x.op with
  | incrementAndExpire userId ttl =>
    dsimp only
    split
    · exact List.mem_cons_of_mem _ h
    · exact h
  | decrementAndFloor userId => exact absurd ho (hx userId)
  | _ => exact h

/-- A step of the connection itself. -/
theorem Attended.own (h : Attended t u tr) (ho : Ordered settings t tr o) (hu : o ≠ .unregister)
    (hone : ∀ u' ttl, o = .incrementAndExpire u' ttl → u' = u) :
    Attended t u (⟨t, o, r⟩ :: tr) := by
  have hopen : ∀ u', o ≠ .decrementAndFloor u' := by
    rintro u' rfl
    exact h.staying ho.2
  refine ⟨fun hd => ?_, fun u' hu' => ?_, fun hd => mem_opened_cons hopen ?_⟩
  · obtain ⟨x, hx, hp, hx'⟩ := hd
    obtain rfl | hx := List.mem_cons.mp hx
    · exact hu hx'
    · exact h.staying ⟨x, hx, hp, hx'⟩
  · obtain hin | ⟨-, ttl, rfl⟩ := mem_of_opened_cons hu'
    · exact h.one u' hin
    · exact hone u' ttl rfl
  · obtain ⟨x, hx, hp, hx'⟩ := hd
    obtain rfl | hx := List.mem_cons.mp hx
    · -- the loop is entered while the connection is open, and it is open for this user
      obtain rfl : o = .monotonic := hx'
      obtain ⟨u', hu'⟩ := ho
      rw [← h.one u' hu']
      exact hu'
    · exact h.entered ⟨x, hx, hp, hx'⟩

/-- A step of another process. -/
theorem Attended.other (h : Attended t u tr) (hx : x.proc ≠ t) : Attended t u (x :: tr) := by
  have hdid : ∀ o, Did t o (x :: tr) → Did t o tr := by
    rintro o ⟨y, hy, hp, ho⟩
    obtain rfl | hy := List.mem_cons.mp hy
    · exact absurd hp hx
    · exact ⟨y, hy, hp, ho⟩
  exact ⟨fun hd => h.staying (hdid _ hd), fun u' hu' => h.one u' ((mem_opened_cons_of_ne hx).mp hu'),
    fun hd => (mem_opened_cons_of_ne hx).mpr (h.entered (hdid _ hd))⟩

theorem Fresh.attended (h : Fresh t tr) {r : Except Exc Unit} :
    Attended t u (⟨t, .register u, r⟩ :: tr) := by
  have hnot : ∀ o, o = .monotonic ∨ o = .unregister → ¬ Did t o (⟨t, .register u, r⟩ :: tr) := by
    rintro o ho ⟨y, hy, hp, rfl⟩
    obtain rfl | hy := List.mem_cons.mp hy
    · cases ho <;> contradiction
    · exact ho.elim (h.2 y hy hp).1 (h.2 y hy hp).2
  exact ⟨hnot _ (.inr rfl), fun u' hu' => absurd hu' (h.1 u'), fun hd => absurd hd (hnot _ (.inl rfl))⟩

/-- A step of a process leaves every registered connection attended. -/
theorem attended_proc (h : ∀ t u, Serves t u w.state → Attended t u w.trace)
    (hexec : (machine inst).exec t o c w.state = some (r, s))
    (hd : Disciplined settings t w.state o) (ho : Ordered settings t w.trace o) :
    ∀ t' u, Serves t' u s → Attended t' u (w.after t o r s).trace := by
  intro t' u hs
  by_cases ht : t = t'
  · subst ht
    by_cases hreg : ∃ u', o = .register u'
    · obtain ⟨u', rfl⟩ := hreg
      obtain ⟨-, ⟨v, c, rfl, hdone⟩ | ⟨e, -, hawaits, -⟩⟩ := exec_eq_some hexec
      · cases c with
        | ok =>
          cases hdone
          obtain ⟨x, hx, rfl⟩ := hs
          have hx' : some (⟨u', []⟩ : ConnectionState) = some x := by
            rw [← hx]
            exact (Function.update_self t _ w.state.connections).symm
          obtain rfl := Option.some.inj hx'
          exact Fresh.attended ho
        | _ => cases hdone
      · cases hawaits
    · push Not at hreg
      have hbefore : Serves t u w.state ∧ o ≠ .unregister := by
        obtain ⟨-, ⟨v, c, -, hdone⟩ | ⟨e, -, hawaits, rfl | ⟨v, hdone⟩⟩⟩ := exec_eq_some hexec
        · exact serves_of_done_of_ne hreg hdone hs
        · refine ⟨hs, ?_⟩
          rintro rfl
          cases hawaits
        · exact serves_of_done_of_ne hreg hdone hs
      refine (h t u hbefore.1).own ho hbefore.2 fun u' ttl hinc => ?_
      subst hinc
      exact serves_inj hd.1 hbefore.1
  · have hbefore : Serves t' u w.state := by
      obtain rfl | ⟨v, c, hdone⟩ := effect_of_exec hexec
      · exact hs
      · obtain ⟨x, hx, hu⟩ := hs
        exact ⟨x, ((frame_of_done hdone).2 t' (Ne.symm ht)).symm.trans hx, hu⟩
    exact (h t' u hbefore).other ht

/-- **A registered connection that has entered its loop is open.** -/
theorem counted (hp : Start settings task p) (hr : (machine inst).run p ls = some q)
    (hs : Serves t u q.world.state) (hloop : Did t .monotonic q.world.trace) :
    t ∈ opened u q.world.trace := by
  refine ((ordered_run (C := .always) (P := fun w => ∀ t u, Serves t u w.state →
    Attended t u w.trace) hp (fun _ _ _ _ _ _ _ h _ hx hd ho => attended_proc h hx hd ho)
    (fun ev w h _ t u hs => h t u ?_) (fun t u hs => ?_) (Machine.meets_always ls) hr).1
      t u hs).entered hloop
  · obtain ⟨x, hx, hu⟩ := hs
    cases ev with
    | crash i =>
      refine ⟨x, ?_, hu⟩
      by_cases hi : inst t = i
      · simp [WsEvent.happen, hi] at hx
      · simpa [WsEvent.happen, hi] using hx
    | _ => exact ⟨x, hx, hu⟩
  · obtain ⟨clock, lastSeen, hinit⟩ := hp.state
    rw [hinit] at hs
    obtain ⟨x, hx, -⟩ := hs
    cases hx

/-! ### Never too many -/

/-- No decrement of the user's count is lost: none fails before it is done, no instance crashes
under an open connection, and Redis comes back without the count or with the count it had. -/
def noLostDecrement (inst : T → I) (u : UserId) :
    Machine.Condition T Op Op.Res Exc Choice (WsEvent I) (State T I) where
  op _ o c _ :=
    match o, c with
    | .decrementAndFloor userId, .fail _ => userId ≠ u
    | _, _ => True
  event ev w :=
    match ev with
    | .crash i => ∀ t ∈ opened u w.trace, inst t ≠ i
    | .restart => w.state.saved u = none ∨ w.state.saved u = w.state.redis u
    | _ => True

instance (t : T) (o : Op) (c : Choice) (w : WsWorld T I) :
    Decidable ((noLostDecrement inst u).op t o c w) := by
  unfold noLostDecrement
  dsimp only
  split <;> infer_instance

instance (ev : WsEvent I) (w : WsWorld T I) : Decidable ((noLostDecrement inst u).event ev w) :=
  match ev with
  | .crash i => inferInstanceAs (Decidable (∀ t ∈ opened u w.trace, inst t ≠ i))
  | .restart => inferInstanceAs
      (Decidable (w.state.saved u = none ∨ w.state.saved u = w.state.redis u))
  | .tick _ | .wipe | .save => .isTrue trivial

/-- The count is at most the number of open connections, each of which is registered or has just
been unregistered. -/
structure Covered (u : UserId) (w : WsWorld T I) : Prop where
  count_le : count u w.state ≤ (opened u w.trace).length
  attended : ∀ t ∈ opened u w.trace, Serves t u w.state ∨ ∃ x ∈ w.trace, x.proc = t ∧
    x.op = .unregister

omit [DecidableEq I] in
/-- A registered connection that is open stays registered unless it unregisters. -/
theorem serves_or_unregister (hs : Serves t u s) (ho : Ordered settings t tr o)
    (hopen : t ∈ opened u tr) (h : o.done t c s = some (v, s')) :
    Serves t u s' ∨ o = .unregister := by
  by_cases hu : o = .unregister
  · exact .inr hu
  · refine .inl (serves_of_done (fun userId hr => ?_) hu h hs)
    subst hr
    exact ho.1 u hopen

/-- A step of a process leaves every open connection registered or just unregistered. -/
theorem Covered.attended_proc (h : Covered u w)
    (hexec : (machine inst).exec t o c w.state = some (r, s))
    (hd : Disciplined settings t w.state o) (ho : Ordered settings t w.trace o)
    (ht : t' ∈ opened u (w.after t o r s).trace) :
    Serves t' u s ∨ ∃ x ∈ (w.after t o r s).trace, x.proc = t' ∧ x.op = .unregister := by
  obtain hin | ⟨rfl, ttl, rfl⟩ := mem_of_opened_cons ht
  · obtain hs | ⟨x, hx, hp⟩ := h.attended t' hin
    · obtain rfl | ⟨v, c, hdone⟩ := effect_of_exec hexec
      · exact .inl hs
      · by_cases htt : t = t'
        · subst htt
          obtain hs | rfl := serves_or_unregister hs ho hin hdone
          · exact .inl hs
          · exact .inr ⟨_, List.mem_cons_self, rfl, rfl⟩
        · obtain ⟨x, hx, hu⟩ := hs
          exact .inl ⟨x, ((frame_of_done hdone).2 t' (fun he => htt he.symm)).trans hx, hu⟩
    · exact .inr ⟨x, List.mem_cons_of_mem _ hx, hp⟩
  · obtain ⟨hs, -⟩ := hd
    obtain rfl | ⟨v, c, hdone⟩ := effect_of_exec hexec
    · exact .inl hs
    · refine .inl (serves_of_done (fun userId hr => ?_) (fun hr => ?_) hdone hs)
      · cases hr
      · cases hr

/-- A step of a process. -/
theorem Covered.proc (h : Covered u w) (hC : (noLostDecrement inst u).op t o c w)
    (hexec : (machine inst).exec t o c w.state = some (r, s))
    (hd : Disciplined settings t w.state o) (ho : Ordered settings t w.trace o) :
    Covered u (w.after t o r s) := by
  refine ⟨?_, fun t' ht => h.attended_proc hexec hd ho ht⟩
  have hle := h.count_le
  show count u s ≤ (opened u (⟨t, o, r⟩ :: w.trace)).length
  by_cases hun : Untouched u o
  · have hsame : opened u (⟨t, o, r⟩ :: w.trace) = opened u w.trace :=
      opened_of_elsewhere (x := ⟨t, o, r⟩) hun.elsewhere
    rw [hsame]
    obtain rfl | ⟨v, c, hdone⟩ := effect_of_exec hexec
    · exact hle
    · exact (count_of_untouched hun hd hdone).trans_le hle
  · cases o with
    | incrementAndExpire userId ttl =>
      obtain rfl := not_not.mp hun
      obtain ⟨-, rfl⟩ := hd
      rw [opened_increment, List.length_cons]
      obtain rfl | ⟨v, c, hdone⟩ := effect_of_exec hexec
      · omega
      · have := (count_increment hdone).2
        omega
    | heartbeatRenew userId ttl =>
      obtain rfl := not_not.mp hun
      obtain ⟨hin, rfl⟩ := ho
      show count userId s ≤ (opened userId w.trace).length
      obtain rfl | ⟨v, c, hdone⟩ := effect_of_exec hexec
      · exact hle
      · rw [count_heartbeat hdone]
        cases hl : w.state.redis.lookup w.state.clock userId with
        | some e => simpa [count, hl] using hle
        | none =>
          have hpos : 1 ≤ (opened userId w.trace).length := List.length_pos_of_mem hin
          show (1 : ℤ) ≤ (opened userId w.trace).length
          omega
    | decrementAndFloor userId =>
      obtain rfl := not_not.mp hun
      have hin : t ∈ opened userId w.trace := ho.1
      have hpos : 1 ≤ (opened userId w.trace).length := List.length_pos_of_mem hin
      rw [opened_decrement, List.length_erase_of_mem hin]
      have hc (e : Exc) : c ≠ .fail e := by
        rintro rfl
        exact hC rfl
      obtain ⟨v, c, hdone⟩ := done_of_exec hexec hc
      have := (count_decrement hdone).2
      split at this <;> omega
    | _ => exact absurd trivial hun

/-- An event. -/
theorem Covered.event {ev : WsEvent I} (h : Covered u w) (hC : (noLostDecrement inst u).event ev w) :
    Covered u ⟨ev.happen inst w.state, w.trace⟩ := by
  have hle := h.count_le
  cases ev with
  | tick ms =>
    refine ⟨?_, h.attended⟩
    cases hl : w.state.redis.lookup (w.state.clock + ms) u with
    | none => simp [count, WsEvent.happen, hl]
    | some e =>
      have hl' := Counters.lookup_of_le (Nat.le_add_right _ ms) hl
      simpa [count, WsEvent.happen, hl, hl'] using hle
  | crash i =>
    refine ⟨hle, fun t ht => (h.attended t ht).imp_left ?_⟩
    rintro ⟨x, hx, hu⟩
    exact ⟨x, by simpa [WsEvent.happen, hC t ht] using hx, hu⟩
  | wipe =>
    refine ⟨?_, h.attended⟩
    simp [count, WsEvent.happen, Counters.lookup, Counters.empty]
  | save => exact ⟨hle, h.attended⟩
  | restart =>
    refine ⟨?_, h.attended⟩
    obtain hn | hn := hC
    · simp [count, WsEvent.happen, Counters.lookup, hn]
    · have hsame : count u (WsEvent.restart.happen inst w.state) = count u w.state :=
        count_congr hn rfl
      exact hsame.trans_le hle

/-- **As long as no decrement is lost, the count is at most the number of open connections.** -/
theorem covered (hp : Start settings task p) (hC : (machine inst).Meets (noLostDecrement inst u) p ls)
    (hr : (machine inst).run p ls = some q) : Covered u q.world := by
  refine (ordered_run hp (fun t o c r w s _ h hc hx hd ho => h.proc hc hx hd ho)
    (fun ev w h hc => h.event hc) ?_ hC hr).1
  obtain ⟨clock, lastSeen, hs⟩ := hp.state
  constructor
  · rw [hs, hp.trace]
    simp [count, State.initial, Counters.lookup, Counters.empty]
  · intro t ht
    rw [hp.trace] at ht
    cases ht

/-! ### Exactly as many -/

/-- No operation fails, nothing crashes, and the user's count is not lost: Redis does not restart,
and the count does not expire. -/
def smooth (u : UserId) : Machine.Condition T Op Op.Res Exc Choice (WsEvent I) (State T I) where
  op _ _ c _ := c.Succeeds
  event ev w :=
    match ev with
    | .tick ms => (w.state.redis.lookup w.state.clock u).all fun e =>
        e.deadline.all fun d => w.state.clock + ms ≤ d
    | .save => True
    | .crash _ | .wipe | .restart => False

instance (t : T) (o : Op) (c : Choice) (w : WsWorld T I) : Decidable ((smooth u).op t o c w) :=
  inferInstanceAs (Decidable c.Succeeds)

instance (ev : WsEvent I) (w : WsWorld T I) : Decidable ((smooth u).event ev w) :=
  match ev with
  | .tick ms => inferInstanceAs (Decidable ((w.state.redis.lookup w.state.clock u).all (fun e =>
      e.deadline.all fun d => w.state.clock + ms ≤ d) = true))
  | .save => .isTrue trivial
  | .crash _ | .wipe | .restart => .isFalse id

/-- A script that opens or closes a connection of the user answers with their number. -/
def AnswersExact (u : UserId) : List (Entry T Op Op.Res Exc) → Prop
  | [] => True
  | x :: tr => AnswersExact u tr ∧
    match x with
    | ⟨_, .incrementAndExpire userId _, r⟩ => userId = u → r = .ok (opened u (x :: tr)).length
    | ⟨t, .decrementAndFloor userId, r⟩ => userId = u →
        t ∈ opened u tr ∧ r = .ok (opened u (x :: tr)).length
    | _ => True

/-- The count, and every answer so far, is the number of open connections. -/
structure Exact (u : UserId) (w : WsWorld T I) : Prop where
  count_eq : count u w.state = (opened u w.trace).length
  answers : AnswersExact u w.trace

/-- A step of a process. -/
theorem Exact.proc (h : Exact u w) (hC : (smooth u).op t o c w)
    (hexec : (machine inst).exec t o c w.state = some (r, s))
    (hd : Disciplined settings t w.state o) (ho : Ordered settings t w.trace o) :
    Exact u (w.after t o r s) := by
  have heq := h.count_eq
  obtain ⟨v, c, rfl, hdone⟩ := ok_of_succeeds hC hexec
  by_cases hun : Untouched u o
  · have hsame : opened u (⟨t, o, .ok v⟩ :: w.trace) = opened u w.trace :=
      opened_of_elsewhere (x := ⟨t, o, .ok v⟩) hun.elsewhere
    refine ⟨?_, h.answers, ?_⟩
    · show count u s = (opened u (⟨t, o, .ok v⟩ :: w.trace)).length
      rw [hsame, count_of_untouched hun hd hdone, heq]
    · cases o with
      | incrementAndExpire userId ttl => exact fun hu => absurd hu hun
      | decrementAndFloor userId => exact fun hu => absurd hu hun
      | _ => trivial
  · cases o with
    | incrementAndExpire userId ttl =>
      obtain rfl := not_not.mp hun
      obtain ⟨-, rfl⟩ := hd
      obtain ⟨hv, hcount⟩ := count_increment hdone
      have hlen : count userId s = (opened userId (⟨t, .incrementAndExpire userId
          settings.presenceTtlSeconds, .ok v⟩ :: w.trace)).length := by
        rw [opened_increment, hcount, heq]
        rfl
      exact ⟨hlen, h.answers, fun _ => congrArg Except.ok (hv.trans hlen)⟩
    | heartbeatRenew userId ttl =>
      obtain rfl := not_not.mp hun
      obtain ⟨hin, rfl⟩ := ho
      have hpos : 1 ≤ (opened userId w.trace).length := List.length_pos_of_mem hin
      refine ⟨?_, h.answers, trivial⟩
      show count userId s = (opened userId w.trace).length
      rw [count_heartbeat hdone]
      cases hl : w.state.redis.lookup w.state.clock userId with
      | some e => simpa [count, hl] using heq
      | none =>
        rw [count, hl] at heq
        change (0 : ℤ) = _ at heq
        omega
    | decrementAndFloor userId =>
      obtain rfl := not_not.mp hun
      have hin : t ∈ opened userId w.trace := ho.1
      have hpos : 1 ≤ (opened userId w.trace).length := List.length_pos_of_mem hin
      obtain ⟨hv, hcount⟩ := count_decrement hdone
      have hlen : count userId s =
          (opened userId (⟨t, .decrementAndFloor userId, .ok v⟩ :: w.trace)).length := by
        rw [opened_decrement, List.length_erase_of_mem hin]
        split at hcount <;> omega
      exact ⟨hlen, h.answers, fun _ => ⟨hin, congrArg Except.ok (hv.trans hlen)⟩⟩
    | _ => exact absurd trivial hun

/-- An event. -/
theorem Exact.event {ev : WsEvent I} (h : Exact u w) (hC : (smooth u).event ev w) :
    Exact u ⟨ev.happen inst w.state, w.trace⟩ := by
  refine ⟨?_, h.answers⟩
  cases ev with
  | tick ms =>
    have hsame : w.state.redis.lookup (w.state.clock + ms) u =
        w.state.redis.lookup w.state.clock u := by
      cases hl : w.state.redis.lookup (w.state.clock + ms) u with
      | some e => exact (Counters.lookup_of_le (Nat.le_add_right _ ms) hl).symm
      | none =>
        cases hl' : w.state.redis.lookup w.state.clock u with
        | none => rfl
        | some e =>
          have hd : e.deadline.all fun d => decide (w.state.clock + ms ≤ d) := by
            have hC' : (w.state.redis.lookup w.state.clock u).all fun e =>
              e.deadline.all fun d => decide (w.state.clock + ms ≤ d) := hC
            rw [hl'] at hC'
            exact hC'
          have hstored := (Counters.lookup_eq_some.mp hl').1
          rw [Counters.lookup, hstored, Option.filter_some, if_pos hd] at hl
          cases hl
    show (Option.elim (w.state.redis.lookup (w.state.clock + ms) u) 0 Counter.value) = _
    rw [hsame]
    exact h.count_eq
  | save => exact h.count_eq
  | crash i => exact hC.elim
  | wipe => exact hC.elim
  | restart => exact hC.elim

/-- **Where nothing fails and the count is not lost, it is the number of open connections.** -/
theorem exact_of_smooth (hp : Start settings task p) (hC : (machine inst).Meets (smooth u) p ls)
    (hr : (machine inst).run p ls = some q) : Exact u q.world := by
  refine (ordered_run hp (fun t o c r w s _ h hc hx hd ho => h.proc hc hx hd ho)
    (fun ev w h hc => h.event hc) ?_ hC hr).1
  obtain ⟨clock, lastSeen, hs⟩ := hp.state
  constructor
  · rw [hs, hp.trace]
    simp [count, State.initial, Counters.lookup, Counters.empty, opened]
  · rw [hp.trace]
    trivial

/-! ### What a connection tells -/

/-- The answers of a connection's scripts that say 1 or 0, the events it published, and the
`last_seen` it committed. -/
structure Tally where
  ups : ℕ := 0
  downs : ℕ := 0
  onlines : ℕ := 0
  offlines : ℕ := 0
  writes : ℕ := 0
  /-- There is an update that is not committed yet. -/
  pending : Bool := false
deriving DecidableEq

/-- One more operation. -/
def Tally.add (u : UserId) (x : Tally) : (o : Op) → Except Exc o.Res → Tally
  | .incrementAndExpire userId _, .ok n =>
    if userId = u ∧ n = 1 then { x with ups := x.ups + 1 } else x
  | .decrementAndFloor userId, .ok n =>
    if userId = u ∧ n ≤ 0 then { x with downs := x.downs + 1 } else x
  | .redisPublish (.presence userId event), .ok _ =>
    if userId = u then
      match event.state with
      | .online => { x with onlines := x.onlines + 1 }
      | .offline => { x with offlines := x.offlines + 1 }
    else x
  | .updateLastSeen userId _, .ok _ => if userId = u then { x with pending := true } else x
  | .commit, .ok _ => if x.pending then { x with writes := x.writes + 1, pending := false } else x
  | .rollback, .ok _ => { x with pending := false }
  | _, _ => x

/-- What connection `t` has told of user `u` so far. -/
def tally (u : UserId) (t : T) : List (Entry T Op Op.Res Exc) → Tally
  | [] => {}
  | x :: tr => if x.proc = t then (tally u t tr).add u x.op x.answer else tally u t tr

/-- One online event for each answer 1, one offline event and one write for each answer 0. -/
structure Tally.Settled (x : Tally) : Prop where
  onlines : x.onlines = x.ups
  offlines : x.offlines = x.downs
  writes : x.writes = x.downs
  pending : x.pending = false

/-- Connection `t` has come from a settled tally to the present one by the change `g`. -/
def After (t : T) (g : UserId → Tally → Tally) (w : WsWorld T I) : Prop :=
  ∃ f : UserId → Tally, (∀ u, (f u).Settled) ∧ ∀ u, tally u t w.trace = g u (f u)

/-- Connection `t` has told everything. -/
def Told (t : T) (w : WsWorld T I) : Prop := ∀ u, (tally u t w.trace).Settled

/-- Steps of a smooth run. -/
def telling (inst : T → I) (u : UserId) : Contract (machine inst) where
  inv _ := True
  pre := smooth u
  guar _ _ _ _ _ := True

variable {g : UserId → Tally → Tally} {u' : UserId}

theorem tally_cons_of_ne (h : x.proc ≠ t) : tally u t (x :: tr) = tally u t tr := if_neg h

theorem tally_cons {r : Except Exc o.Res} :
    tally u t (⟨t, o, r⟩ :: tr) = (tally u t tr).add u o r := if_pos rfl

theorem stable_after : (telling inst u').Stable t (After t g) := by
  rintro w w' - - ho ⟨f, hf, ht⟩
  cases ho with
  | proc hne hpre hexec hguar => exact ⟨f, hf, fun u => (tally_cons_of_ne hne).trans (ht u)⟩
  | event hpre hexec => exact ⟨f, hf, ht⟩

theorem stable_told : (telling inst u').Stable t (Told t) := by
  rintro w w' - - ho h u
  cases ho with
  | proc hne hpre hexec hguar =>
    show (tally u t (_ :: w.trace)).Settled
    rw [tally_cons_of_ne hne]
    exact h u
  | event hpre hexec => exact h u

/-- An operation adds what it answers. -/
theorem stepOk_after : (telling inst u').StepOk t (After t g) o (Contract.Outcome
    (fun v => After t fun u x => (g u x).add u o (.ok v)) fun _ _ => False) := by
  rintro w c r s - ⟨f, hf, ht⟩ hC hexec
  refine ⟨trivial, trivial, ?_⟩
  obtain ⟨v, c, rfl, -⟩ := ok_of_succeeds hC hexec
  exact ⟨f, hf, fun u => tally_cons.trans (by rw [ht u])⟩

theorem safe_perform_after : (telling inst u').Safe t (Prog.perform o : Async o.Res) (After t g)
    (fun v => After t fun u x => (g u x).add u o (.ok v)) fun _ _ => False :=
  Contract.Safe.perform (fun _ => stable_after) (fun _ => .const False) stepOk_after

omit [DecidableEq I] in
theorem after_of_told (h : Told t w) : After t (fun _ x => x) w :=
  ⟨fun u => tally u t w.trace, h, fun _ => rfl⟩

omit [DecidableEq I] in
theorem told_of_after (hg : ∀ u x, x.Settled → (g u x).Settled) (h : After t g w) : Told t w := by
  obtain ⟨f, hf, ht⟩ := h
  intro u
  rw [ht u]
  exact hg u (f u) (hf u)

/-- Operations that tell nothing. -/
def Silent : Op → Prop
  | .incrementAndExpire .. | .decrementAndFloor _ | .redisPublish (.presence ..)
  | .updateLastSeen .. => False
  | _ => True

theorem silent_of_routine (h : o.routine = true) : Silent o := by
  cases o with
  | redisPublish event => cases event <;> trivial
  | _ => trivial

theorem Tally.Settled.add_silent {x : Tally} (h : x.Settled) (ho : Silent o) :
    x.add u o r = x := by
  have hp := h.pending
  cases o with
  | redisPublish event =>
    cases event with
    | presence userId event => exact ho.elim
    | typing topic event => cases r <;> rfl
  | incrementAndExpire | decrementAndFloor | updateLastSeen => exact ho.elim
  | commit =>
    cases r with
    | error e => rfl
    | ok a => simp [Tally.add, hp]
  | rollback =>
    cases r with
    | error e => rfl
    | ok a => simp [Tally.add, ← hp]
  | _ => cases r <;> rfl

theorem stepOk_told (ho : Silent o) :
    (telling inst u').StepOk t (Told t) o fun _ => Told t := by
  intro w c r s _ hw _ _
  refine ⟨trivial, trivial, fun u => ?_⟩
  show (tally u t (⟨t, o, r⟩ :: w.trace)).Settled
  rw [tally_cons, (hw u).add_silent ho]
  exact hw u

theorem safe_perform_failOpen {default : o.Res} : (telling inst u').Safe t
    (redisFailOpen (Prog.perform o : Async o.Res) default) (After t g)
    (fun v => After t fun u x => (g u x).add u o (.ok v)) fun _ _ => False :=
  safe_redisFailOpen safe_perform_after fun _ _ _ _ hw => hw.elim

theorem safe_silent {p : Async α} (hp : p.Only Silent) :
    (telling inst u').Safe t p (Told t) (fun _ => Told t) fun _ => Told t :=
  Contract.Safe.only hp stable_told fun _ => stepOk_told

/-- A connect that finds the count at 1 publishes one online event. -/
theorem safe_handleConnect_told {ttl : ℕ} : (telling inst u').Safe t
    (Presence.handleConnect u ttl) (Told t) (fun _ => Told t) fun _ _ => False := by
  refine Contract.Safe.bind (safe_perform_failOpen.weaken fun _ _ => after_of_told) fun n => ?_
  split
  · rename_i hn
    refine safe_perform_failOpen.mono (fun _ _ hw => hw) (fun _ _ _ => told_of_after ?_)
      fun _ _ _ hw => hw
    rintro userId x ⟨hon, hoff, hwr, hpend⟩
    by_cases hu : u = userId
    · constructor <;> simp [Tally.add, Presence.buildPresenceEvent, hu, hn, hon, hoff, hwr, hpend]
    · constructor <;> simp [Tally.add, hu, hon, hoff, hwr, hpend]
  · rename_i hn
    refine fun w _ => told_of_after ?_
    rintro userId x ⟨hon, hoff, hwr, hpend⟩
    constructor <;> simp [Tally.add, hn, hon, hoff, hwr, hpend]

/-- A disconnect that finds the count at 0 writes `last_seen` and publishes one offline event. -/
theorem safe_handleDisconnect_told : (telling inst u').Safe t (Presence.handleDisconnect u)
    (Told t) (fun _ => Told t) fun _ _ => False := by
  refine Contract.Safe.bind (safe_perform_failOpen.weaken fun _ _ => after_of_told) fun n => ?_
  split
  · rename_i hn
    have hn' : ¬ (n : ℤ) ≤ 0 := Int.not_le.mpr hn
    refine fun w _ => told_of_after ?_
    rintro userId x ⟨hon, hoff, hwr, hpend⟩
    constructor <;> simp [Tally.add, hn', hon, hoff, hwr, hpend]
  · rename_i hn
    have hn' : (n : ℤ) ≤ 0 := Int.not_lt.mp hn
    refine safe_perform_after.bind fun lastSeen => safe_perform_after.bind fun _ =>
      safe_perform_after.bind fun _ => safe_perform_failOpen.mono (fun _ _ hw => hw)
        (fun _ _ _ => told_of_after ?_) fun _ _ _ hw => hw
    rintro userId x ⟨hon, hoff, hwr, hpend⟩
    by_cases hu : u = userId
    · constructor <;> simp [Tally.add, Presence.buildPresenceEvent, hu, hn', hon, hoff, hwr]
    · constructor <;> simp [Tally.add, hu, hon, hoff, hwr, hpend]

/-- **In a smooth run an endpoint tells all it has to.** -/
theorem safe_websocketEndpoint_told (frames : ℕ) : (telling inst u').Safe t
    (websocketEndpoint settings frames) (Told t) (fun _ => Told t) fun _ => Told t := by
  refine (safe_silent (only_authenticateAndAccept fun o ho _ => silent_of_routine ho)).bind fun userId => ?_
  cases userId with
  | none => exact fun _ _ hw => hw
  | some userId =>
    refine Contract.Safe.bind (Q := fun _ => Told t) (safe_silent (Prog.only_perform trivial))
      fun _ => ?_
    have hfin : (telling inst u').Safe t
        (do
          Prog.perform Op.unregister
          dbSession (Presence.handleDisconnect userId) : Async Unit)
        (Told t) (fun _ => Told t) fun _ => Told t := by
      refine Contract.Safe.bind (Q := fun _ => Told t) (safe_silent (Prog.only_perform trivial))
        fun _ => ?_
      exact safe_dbSession (safe_handleDisconnect_told.mono (fun _ _ hw => hw)
        (fun _ _ _ hw => hw) fun _ _ _ hw => hw.elim) stable_told (stepOk_told trivial)
        (stepOk_told trivial)
    refine Contract.Safe.tryFinally (Q := fun _ => Told t) (R := fun _ => Told t) ?_
      (fun _ => hfin) fun _ => hfin
    refine Contract.Safe.bind (Q := fun _ => Told t) (safe_silent (Prog.only_perform trivial))
      fun _ => Contract.Safe.bind (Q := fun _ => Told t) ?_ fun _ => safe_silent ?_
    · exact safe_handleConnect_told.mono (fun _ _ hw => hw) (fun _ _ _ hw => hw)
        fun _ _ _ hw => hw.elim
    · exact (Prog.only_perform trivial).bind fun now =>
        only_connectionLoop (fun o => silent_of_routine) trivial _ _ _

theorem Start.sound_telling (hp : Start settings task p) :
    (telling inst u').Sound (fun t _ => Told t) (fun t _ => Told t) p where
  inv := trivial
  safe t := by
    refine ⟨Told t, stable_told, fun u => ?_, ?_⟩
    · rw [hp.trace]
      exact ⟨rfl, rfl, rfl, rfl⟩
    · rw [hp.prog t]
      cases task t with
      | connection frames => exact (safe_websocketEndpoint_told frames).bind fun _ _ _ hw => hw
      | isOnline userId =>
        refine safe_silent (Prog.Only.bind (only_redisFailOpen false ?_) fun _ => trivial)
        exact (Prog.only_perform trivial).bind fun _ => trivial

/-- A process that has ended has told everything. -/
theorem told_of_ended (hp : Start settings task p) (hC : (machine inst).Meets (smooth u) p ls)
    (hr : (machine inst).run p ls = some q) (hend : ∀ o k, q.prog t ≠ .call o k) :
    Told t q.world := by
  have hsound := hp.sound_telling.run (K := telling inst u) (fun _ _ _ _ _ _ => trivial) hC hr
  cases hq : q.prog t with
  | ret a => exact hsound.ret hq
  | raise e => exact hsound.raise hq
  | call o k => exact absurd hq (hend o k)

/-! ### Changes between 0 and 1 -/

/-- The changes from no open connection to one that `t` made. -/
def rises (u : UserId) (t : T) : List (Entry T Op Op.Res Exc) → ℕ
  | [] => 0
  | x :: tr => rises u t tr +
    if x.proc = t ∧ opened u tr = [] ∧ opened u (x :: tr) ≠ [] then 1 else 0

/-- The changes from one open connection to none that `t` made. -/
def falls (u : UserId) (t : T) : List (Entry T Op Op.Res Exc) → ℕ
  | [] => 0
  | x :: tr => falls u t tr +
    if x.proc = t ∧ opened u tr ≠ [] ∧ opened u (x :: tr) = [] then 1 else 0

theorem Tally.add_of_elsewhere (x : Tally) (h : Elsewhere u o) :
    (x.add u o r).ups = x.ups ∧ (x.add u o r).downs = x.downs := by
  cases r with
  | error e => cases o <;> first | exact ⟨rfl, rfl⟩ | (rename_i event; cases event <;> exact ⟨rfl, rfl⟩)
  | ok a =>
    cases o with
    | incrementAndExpire userId ttl | decrementAndFloor userId =>
      have hu : userId ≠ u := h
      simp [Tally.add, hu]
    | redisPublish event =>
      cases event with
      | typing topic event => exact ⟨rfl, rfl⟩
      | presence userId event =>
        simp only [Tally.add]
        split
        · split <;> exact ⟨rfl, rfl⟩
        · exact ⟨rfl, rfl⟩
    | updateLastSeen userId lastSeen =>
      simp only [Tally.add]
      split <;> exact ⟨rfl, rfl⟩
    | commit =>
      simp only [Tally.add]
      split <;> exact ⟨rfl, rfl⟩
    | _ => exact ⟨rfl, rfl⟩

/-- Where every answer is exact, the answers that say 1 are the changes from 0 to 1, and those that
say 0 are the changes from 1 to 0. -/
theorem tally_of_exact (h : AnswersExact u tr) :
    (tally u t tr).ups = rises u t tr ∧ (tally u t tr).downs = falls u t tr := by
  induction tr with
  | nil => exact ⟨rfl, rfl⟩
  | cons x tr ih =>
    obtain ⟨hup, hdown⟩ := ih h.1
    by_cases hx : x.proc = t
    · obtain ⟨t, o, r⟩ := x
      subst hx
      rw [tally_cons, rises, falls]
      by_cases hsame : Elsewhere u o
      · rw [opened_of_elsewhere (x := ⟨t, o, r⟩) hsame]
        obtain ⟨h₁, h₂⟩ := (tally u t tr).add_of_elsewhere (r := r) hsame
        rw [h₁, h₂, hup, hdown]
        constructor <;> simp
      · cases o with
        | incrementAndExpire userId ttl =>
          obtain rfl := not_not.mp hsame
          have hr := h.2 rfl
          rw [opened_increment] at hr ⊢
          subst hr
          cases opened userId tr with
          | nil => simp [Tally.add, hup, hdown]
          | cons y ys =>
            have hmore : ¬ ((ys.length : ℤ) + 1 + 1 = 1) := by omega
            simp [Tally.add, hup, hdown, hmore]
        | decrementAndFloor userId =>
          obtain rfl := not_not.mp hsame
          obtain ⟨hin, hr⟩ := h.2 rfl
          rw [opened_decrement] at hr ⊢
          subst hr
          have hne : opened userId tr ≠ [] := List.ne_nil_of_mem hin
          by_cases he : (opened userId tr).erase t = []
          · simp [Tally.add, hup, hdown, he, hne]
          · simp [Tally.add, hup, hdown, he, hne]
        | _ => exact absurd trivial hsame
    · rw [tally_cons_of_ne hx, rises, falls, hup, hdown]
      simp [hx]

/-- **The count of a user.**  In every run a registered connection that has entered its loop is one
of the open connections, and no process that has ended is.  As long as no decrement is lost, the
count is at most the number of open connections, each of which is registered or has just been
unregistered.  Where nothing fails and the count is not lost, it is that number, and every connection
that has ended has published one online event for each change from 0 to 1 it made, and one offline
event, with one write of `last_seen`, for each change from 1 to 0. -/
theorem presence_count (hp : Start settings task p) (hr : (machine inst).run p ls = some q) :
    (∀ t, (Serves t u q.world.state → Did t .monotonic q.world.trace → t ∈ opened u q.world.trace) ∧
      ((∀ o k, q.prog t ≠ .call o k) → t ∉ opened u q.world.trace)) ∧
    ((machine inst).Meets (noLostDecrement inst u) p ls →
      count u q.world.state ≤ (opened u q.world.trace).length ∧ (opened u q.world.trace).Nodup ∧
        ∀ t ∈ opened u q.world.trace, Serves t u q.world.state ∨
          ∃ x ∈ q.world.trace, x.proc = t ∧ x.op = .unregister) ∧
    ((machine inst).Meets (smooth u) p ls →
      count u q.world.state = (opened u q.world.trace).length ∧
        ∀ t, (∀ o k, q.prog t ≠ .call o k) →
          (tally u t q.world.trace).onlines = rises u t q.world.trace ∧
          (tally u t q.world.trace).offlines = falls u t q.world.trace ∧
          (tally u t q.world.trace).writes = falls u t q.world.trace) := by
  refine ⟨fun t => ⟨counted hp hr, closed_of_ended hp hr⟩, ?_, ?_⟩
  · intro hC
    obtain ⟨hle, hatt⟩ := covered hp hC hr
    have hdist := hp.sound_ordering.run (K := ordering inst settings) eventsOk_ordering
      (Machine.meets_always ls) hr
    exact ⟨hle, hdist.inv.nodup u, hatt⟩
  · intro hC
    obtain ⟨heq, hans⟩ := exact_of_smooth hp hC hr
    refine ⟨heq, fun t hend => ?_⟩
    obtain ⟨hon, hoff, hwr, -⟩ := told_of_ended hp hC hr hend u
    obtain ⟨hup, hdown⟩ := tally_of_exact (t := t) hans
    exact ⟨hon.trans hup, hoff.trans hdown, hwr.trans hdown⟩

/-- The connection opens, waits a second, and closes. -/
def visit : List (Label ℕ Choice (WsEvent ℕ)) :=
  .proc 0 (.authenticated 7) :: List.replicate 9 (.proc 0 .ok) ++
    [.event (.tick 1000), .proc 0 (.received .disconnect)] ++ List.replicate 8 (.proc 0 .ok)

theorem presence_count_visit : ∃ q, (machine (I := ℕ) id).run onePool visit = some q ∧
    0 ∉ opened 7 q.world.trace ∧ count 7 q.world.state ≤ (opened 7 q.world.trace).length ∧
    (tally 7 0 q.world.trace).onlines = rises 7 0 q.world.trace ∧ rises 7 0 q.world.trace = 1 := by
  obtain ⟨q, hq⟩ : ∃ q, (machine (I := ℕ) id).run onePool visit = some q :=
    Option.isSome_iff_exists.mp (by decide +kernel)
  have hp : Start {} (fun t => if t = 0 then Task.connection 1 else .isOnline 7) onePool :=
    ⟨⟨0, fun _ => none, rfl⟩, rfl, fun _ => rfl⟩
  have hend : ((machine (I := ℕ) id).run onePool visit).any (fun q =>
      (q.prog 0).next.isNone && rises 7 0 q.world.trace = 1) := by
    decide +kernel
  rw [hq, Option.any_some, Bool.and_eq_true, decide_eq_true_eq] at hend
  have hended : ∀ o k, q.prog 0 ≠ .call o k := by
    intro o k hk
    rw [hk] at hend
    cases hend.1
  obtain ⟨hopen, hle, heq⟩ := presence_count (u := 7) hp hq
  exact ⟨q, hq, (hopen 0).2 hended, (hle (by decide +kernel)).1,
    ((heq (by decide +kernel)).2 0 hended).1, hend.2⟩

end Chatspace.Ws
