import Chatspace.Ws.Revalidation

/-!
# What a connection is subscribed to

A connection is registered with nothing and subscribed to the topic of its user; from then on its
frames decide.

* `framesOf`, `subscribedBy` — the frames a connection has received, and what they ask for;
* `JoinsAuthorised` — every join was answered with the topic it names;
* `Follows` — the connection is subscribed to what its frames ask for;
* `following` — **a connection that goes for the next frame is subscribed to what those before it
  ask for.**
-/

namespace Chatspace.Ws

open Interleave

variable {T I α : Type} [DecidableEq T] [DecidableEq I] {inst : T → I} {settings : Settings}
  {task : T → Task} {t : T} {u : UserId} {w : WsWorld T I} {h : List (Entry T Op Op.Res Exc)}
  {x : Entry T Op Op.Res Exc} {cs : ConnectionState} {f : Option ClientFrame}

/-! ### What the frames ask for -/

/-- The frames received, oldest first. -/
def framesOf : List (Entry T Op Op.Res Exc) → List (Option ClientFrame)
  | [] => []
  | x :: h => framesOf h ++ (receivedFrame x).toList

/-- What one more frame does to the topics. -/
def askFor (u : UserId) (topics : List Topic) : Option ClientFrame → List Topic
  | some (.join conversation) => topics.insert (topicFor conversation u)
  | some (.leave conversation) => topics.filter (· ≠ topicFor conversation u)
  | some (.typing _) | some .ping | none => topics

/-- The topics of a connection of user `u` that has received these frames. -/
def subscribedBy (u : UserId) (frames : List (Option ClientFrame)) : List Topic :=
  frames.foldl (askFor u) [.user u]

/-- A conversation is not authorised, or its topic is another than the one it names. -/
def refuses : Entry T Op Op.Res Exc → Bool
  | ⟨_, .authorizeConversation conversation callerId, r⟩ =>
    r ≠ .ok (.ok (topicFor conversation callerId))
  | _ => false

/-- The last frame received is a `join`. -/
def Joining (h : List (Entry T Op Op.Res Exc)) : Prop :=
  ∃ conversation, (framesOf h).getLast? = some (some (.join conversation))

/-- Whenever a `join` was received, the conversation was authorised. -/
def JoinsAuthorised : List (Entry T Op Op.Res Exc) → Prop
  | [] => True
  | x :: h => (Joining h → refuses x = false) ∧ JoinsAuthorised h

instance (h : List (Entry T Op Op.Res Exc)) : Decidable (Joining h) :=
  match hlast : (framesOf h).getLast? with
  | some (some (.join conversation)) => .isTrue ⟨conversation, hlast⟩
  | none | some none | some (some (.leave _)) | some (some (.typing _)) | some (some .ping) =>
    .isFalse fun ⟨_, hjoin⟩ => nomatch hlast.symm.trans hjoin

instance decidableJoinsAuthorised :
    (h : List (Entry T Op Op.Res Exc)) → Decidable (JoinsAuthorised h)
  | [] => .isTrue trivial
  | x :: h =>
    have := decidableJoinsAuthorised h
    inferInstanceAs (Decidable ((Joining h → refuses x = false) ∧ JoinsAuthorised h))

theorem subscribedBy_concat (frames : List (Option ClientFrame)) :
    subscribedBy u (frames ++ [f]) = askFor u (subscribedBy u frames) f := by
  rw [subscribedBy, List.foldl_append]
  rfl

omit [DecidableEq T] in
theorem framesOf_cons (hx : receivedFrame x = none) : framesOf (x :: h) = framesOf h := by
  simp [framesOf, hx]

/-! ### What a connection knows -/

/-- If the connection is still registered, what it has done and its entry satisfy `P`. -/
def Holds (t : T) (P : List (Entry T Op Op.Res Exc) → ConnectionState → Prop) (w : WsWorld T I) :
    Prop := ∀ cs, w.state.connections t = some cs → P (w.own t) cs

/-- Every join authorised, the connection is subscribed to what its frames ask for. -/
def Follows (u : UserId) (h : List (Entry T Op Op.Res Exc)) (cs : ConnectionState) : Prop :=
  JoinsAuthorised h → cs = ⟨u, subscribedBy u (framesOf h)⟩

/-- The same, but for the last frame. -/
def Lags (u : UserId) (f : Option ClientFrame) (h : List (Entry T Op Op.Res Exc))
    (cs : ConnectionState) : Prop :=
  JoinsAuthorised h → ∃ frames, framesOf h = frames ++ [f] ∧ cs = ⟨u, subscribedBy u frames⟩

/-- A connection that goes for the next frame has acted on those before it; a crash takes the
connections of its instance. -/
def following (inst : T → I) : Contract (machine inst) where
  inv w := ∀ t, w.state.crashed (inst t) = true → w.state.connections t = none
  pre := .always
  guar t o _ w _ := ∀ deadline, o = .receive deadline → ∃ u, Holds t (Follows u) w

theorem eventsOk_following : (following inst).EventsOk := by
  intro ev w s hi _ hexec t hcrashed
  cases hexec
  cases ev with
  | tick ms => exact hi t hcrashed
  | crash i =>
    show (if inst t = i then none else w.state.connections t) = none
    split
    · rfl
    · rename_i hne
      exact hi t ((Function.update_of_ne hne ..).symm.trans hcrashed)
  | wipe => exact hi t hcrashed
  | save => exact hi t hcrashed
  | restart => exact hi t hcrashed

/-- Nobody else changes the entry of a connection, but by a crash. -/
theorem stable_holds (P : List (Entry T Op Op.Res Exc) → ConnectionState → Prop) :
    (following inst).Stable t (Holds t P) := by
  intro w w' _ _ ho hw cs hcs
  cases ho with
  | proc hne hpre hexec hguar =>
    rw [World.own_after_of_ne hne]
    refine hw cs ?_
    rcases effect_of_exec hexec with rfl | ⟨v, c, hd⟩
    · exact hcs
    · rw [← (frame_of_done hd).2 t hne.symm]
      exact hcs
  | @event ev s hpre hexec =>
    cases hexec
    refine hw cs ?_
    cases ev with
    | crash i =>
      have hcs' : (if inst t = i then none else w.state.connections t) = some cs := hcs
      split at hcs'
      · cases hcs'
      · exact hcs'
    | tick ms => exact hcs
    | wipe => exact hcs
    | save => exact hcs
    | restart => exact hcs

/-! ### Operations -/

/-- Operations that do not touch the connection managers. -/
def Op.unmanaged : Op → Bool
  | .register _ | .unregister | .subscribe _ | .unsubscribe _ => false
  | _ => true

omit [DecidableEq I] in
theorem connections_of_unmanaged {o : Op} {c : Choice} {s s' : State T I} {v : o.Res}
    (ho : o.unmanaged = true) (h : o.done t c s = some (v, s')) : s'.connections = s.connections := by
  unfold Op.done at h
  split at h
  case h_5 | h_6 =>
    split at h
    · cases h
      rfl
    · cases h
  case h_9 | h_10 | h_11 | h_12 => cases ho
  all_goals cases h
  all_goals rfl

/-- Operations that neither touch the connection managers nor receive anything. -/
def Unmoved (o : Op) : Prop := o.unmanaged = true ∧ ∀ deadline, o ≠ .receive deadline

omit [DecidableEq T] in
theorem receivedFrame_of_unmoved (hx : Unmoved x.op) : receivedFrame x = none := by
  obtain ⟨t, o, r⟩ := x
  cases o with
  | receive deadline => exact absurd rfl (hx.2 deadline)
  | _ => rfl

theorem inv_following {o : Op} {c : Choice} {s : State T I} {r : Except Exc o.Res}
    (hi : (following inst).inv w) (hexec : (machine inst).exec t o c w.state = some (r, s)) :
    (following inst).inv (w.after t o r s) := by
  intro t' hcrashed
  have hup := (exec_eq_some hexec).1
  rcases effect_of_exec hexec with rfl | ⟨v, c, hd⟩
  · exact hi t' hcrashed
  · obtain ⟨hsame, hothers⟩ := frame_of_done hd
    rw [World.after_state, hsame] at hcrashed
    by_cases ht : t' = t
    · rw [ht, hup] at hcrashed
      cases hcrashed
    · exact (hothers t' ht).trans (hi t' hcrashed)

variable {P P' : List (Entry T Op Op.Res Exc) → ConnectionState → Prop}

/-- An operation that does not touch the connection managers. -/
theorem stepOk_unmanaged (inst : T → I) {o : Op}
    {Q : Except Exc o.Res → List (Entry T Op Op.Res Exc) → ConnectionState → Prop}
    (ho : o.unmanaged = true)
    (hdue : ∀ deadline, o = .receive deadline → ∃ u, ∀ h cs, P h cs → Follows u h cs)
    (hQ : ∀ r h cs, P h cs → Q r (⟨t, o, r⟩ :: h) cs) :
    (following inst).StepOk t (Holds t P) o fun r => Holds t (Q r) := by
  intro w c r s hi hw _ hexec
  refine ⟨inv_following hi hexec, fun deadline hd => ?_, fun cs hcs => ?_⟩
  · obtain ⟨u, hu⟩ := hdue deadline hd
    exact ⟨u, fun cs hcs => hu _ cs (hw cs hcs)⟩
  · rw [World.own_after]
    refine hQ r _ cs (hw cs ?_)
    rcases effect_of_exec hexec with rfl | ⟨v, c, hd⟩
    · exact hcs
    · rw [← connections_of_unmanaged ho hd]
      exact hcs

/-- What quiet operations keep, a program that performs nothing else keeps. -/
theorem safe_unmoved {p : Async α} (hP : ∀ h x cs, receivedFrame x = none → P h cs → P (x :: h) cs)
    (hp : p.Only Unmoved) : (following inst).Safe t p (Holds t P) (fun _ => Holds t P)
      fun _ _ => True := by
  refine (Contract.Safe.only hp (stable_holds P) fun o ho => ?_).mono (fun _ _ hw => hw)
    (fun _ _ _ hw => hw) fun _ _ _ _ => trivial
  exact stepOk_unmanaged inst ho.1 (fun deadline hd => absurd hd (ho.2 deadline))
    fun r h cs => hP h _ cs (receivedFrame_of_unmoved ho)

/-- A program that receives nothing and of which nothing is asked. -/
theorem safe_unobserved {p : Async α} (hp : p.Only fun o => ∀ deadline, o ≠ .receive deadline) :
    (following inst).Safe t p (fun _ => True) (fun _ _ => True) fun _ _ => True := by
  refine Contract.Safe.only hp (.const True) fun o ho w c r s hi _ _ hexec => ?_
  exact ⟨inv_following hi hexec, fun deadline hd => absurd hd (ho deadline), trivial⟩

/-- A synchronous change of the entry. -/
theorem safe_change {o : Op} {g : ConnectionState → ConnectionState} (ho : o.awaits = false)
    (hg : ∀ c (s s' : State T I) v, o.done t c s = some (v, s') →
      s'.connections t = (s.connections t).map g)
    (hP : ∀ r h cs, P h cs → P' (⟨t, o, r⟩ :: h) (g cs)) :
    (following inst).Safe t (Prog.perform o : Async o.Res) (Holds t P) (fun _ => Holds t P')
      fun _ _ => True := by
  refine Contract.Safe.perform (fun _ => stable_holds P') (fun _ => .const True) ?_
  intro w c r s hi hw _ hexec
  refine ⟨inv_following hi hexec, fun deadline hd => ?_, ?_⟩
  · rw [hd] at ho
    cases ho
  · obtain ⟨-, ⟨v, c, rfl, hd⟩ | ⟨e, -, hawaits, -⟩⟩ := exec_eq_some hexec
    · intro cs hcs
      rw [World.own_after]
      obtain ⟨cs', hcs', rfl⟩ := Option.map_eq_some_iff.mp ((hg _ _ _ _ hd).symm.trans hcs)
      exact hP _ _ cs' (hw cs' hcs')
    · rw [ho] at hawaits
      cases hawaits

/-- What a session keeps of the value of its body. -/
theorem safe_dbSession_holds {body : Async α} {A : WsWorld T I → Prop}
    {Q : α → List (Entry T Op Op.Res Exc) → ConnectionState → Prop}
    (hbody : (following inst).Safe t body A (fun a => Holds t (Q a)) fun _ _ => True)
    (hQ : ∀ a h x cs, receivedFrame x = none → Q a h cs → Q a (x :: h) cs) :
    (following inst).Safe t (dbSession body) A (fun a => Holds t (Q a)) fun _ _ => True := by
  have hrollback : (following inst).Safe t (Prog.perform Op.rollback : Async Unit)
      (fun _ => True) (fun _ _ => True) fun _ _ => True :=
    safe_unobserved (Prog.only_perform nofun)
  have hkeep : ∀ a o, Unmoved o → (following inst).Safe t (Prog.perform o : Async o.Res)
      (Holds t (Q a)) (fun _ => Holds t (Q a)) fun _ _ => True := by
    intro a o ho
    exact safe_unmoved (hQ a) (Prog.only_perform ho)
  refine Contract.Safe.tryFinally (Q := fun a => Holds t (Q a)) (R := fun _ _ => True) ?_
    (fun a => hkeep a .rollback ⟨rfl, nofun⟩) fun _ => hrollback
  refine Contract.Safe.handle (R := fun _ _ => True) ?_ fun e => ?_
  · exact hbody.bind fun a => (hkeep a .commit ⟨rfl, nofun⟩).bind fun _ _ _ hw => hw
  · split
    · exact hrollback.bind fun _ _ _ _ => trivial
    · exact fun _ _ _ => trivial

/-! ### Frames -/

omit [DecidableEq T] in
theorem Follows.cons (hh : Follows u h cs) (hx : receivedFrame x = none) :
    Follows u (x :: h) cs := by
  intro hjoins
  rw [framesOf_cons hx]
  exact hh hjoins.2

omit [DecidableEq T] in
theorem Lags.cons (hh : Lags u f h cs) (hx : receivedFrame x = none) : Lags u f (x :: h) cs := by
  intro hjoins
  rw [framesOf_cons hx]
  exact hh hjoins.2

omit [DecidableEq T] in
/-- A frame is received. -/
theorem Follows.receive (hh : Follows u h cs) (deadline : Time) (f : Option ClientFrame) :
    Lags u f (⟨t, .receive deadline, .ok (.frame f)⟩ :: h) cs :=
  fun hjoins => ⟨framesOf h, rfl, hh hjoins.2⟩

omit [DecidableEq T] in
/-- The frame has been acted on. -/
theorem Lags.follows (hh : Lags u f h cs) {cs' : ConnectionState} (hx : receivedFrame x = none)
    (hask : ∀ frames, JoinsAuthorised (x :: h) → framesOf h = frames ++ [f] →
      cs = ⟨u, subscribedBy u frames⟩ → cs' = ⟨u, askFor u (subscribedBy u frames) f⟩) :
    Follows u (x :: h) cs' := by
  intro hjoins
  obtain ⟨frames, hframes, hcs⟩ := hh hjoins.2
  rw [framesOf_cons hx, hframes, subscribedBy_concat]
  exact hask frames hjoins hframes hcs

omit [DecidableEq T] in
/-- A frame that asks for nothing. -/
theorem Lags.idle (hh : Lags u f h cs) (hf : ∀ topics, askFor u topics f = topics) :
    Follows u h cs := by
  intro hjoins
  obtain ⟨frames, hframes, hcs⟩ := hh hjoins
  rw [hframes, subscribedBy_concat, hf]
  exact hcs

/-- A program that is quiet after a frame that asks for nothing. -/
theorem safe_idle {p : Async α} (hf : ∀ topics, askFor u topics f = topics) (hp : p.Only Unmoved) :
    (following inst).Safe t p (Holds t (Lags u f)) (fun _ => Holds t (Follows u))
      fun _ _ => True :=
  (safe_unmoved (fun _ _ _ hx hh => Follows.cons hh hx) hp).weaken
    fun _ _ hw cs hcs => (hw cs hcs).idle hf

theorem only_authorize_unmoved (conversation : ConversationRef) :
    (authorize conversation u).Only Unmoved :=
  only_dbSession (Prog.only_perform ⟨rfl, nofun⟩) ⟨rfl, nofun⟩ ⟨rfl, nofun⟩

/-- The answer to a `join`, and that nothing else has changed. -/
def Granted (u : UserId) (conversation : ConversationRef) (result : ConversationAuthResult Topic)
    (h : List (Entry T Op Op.Res Exc)) (cs : ConnectionState) : Prop :=
  Lags u (some (.join conversation)) h cs ∧
    (JoinsAuthorised h → result = .ok (topicFor conversation u))

/-- A `join` that is answered. -/
theorem safe_authorize_join (conversation : ConversationRef) :
    (following inst).Safe t (authorize conversation u)
      (Holds t (Lags u (some (.join conversation))))
      (fun result => Holds t (Granted u conversation result)) fun _ _ => True := by
  refine safe_dbSession_holds (Q := Granted u conversation) ?_
    fun _ _ _ _ hx hh => ⟨hh.1.cons hx, fun hjoins => hh.2 hjoins.2⟩
  refine Contract.Safe.perform (fun _ => stable_holds _) (fun _ => .const True) ?_
  intro w c r s hi hw hC hexec
  have hstep := stepOk_unmanaged inst (t := t)
    (o := .authorizeConversation conversation u) (P := Lags u (some (.join conversation)))
    (Q := fun r h cs => Lags u (some (.join conversation)) h cs ∧
      (JoinsAuthorised h → r = .ok (.ok (topicFor conversation u)))) rfl nofun
    (fun r h cs hh => ⟨hh.cons rfl, fun hjoins => ?_⟩) w c r s hi hw hC hexec
  · refine ⟨hstep.1, hstep.2.1, ?_⟩
    cases r with
    | ok result =>
      intro cs hcs
      obtain ⟨hlags, hresult⟩ := hstep.2.2 cs hcs
      exact ⟨hlags, fun hjoins => Except.ok.inj (hresult hjoins)⟩
    | error e => trivial
  · obtain ⟨frames, hframes, -⟩ := hh hjoins.2
    have hjoining : Joining h := ⟨conversation, by rw [hframes, List.getLast?_concat]⟩
    have hgranted : decide (r ≠ .ok (.ok (topicFor conversation u))) = false := hjoins.1 hjoining
    exact not_not.mp (of_decide_eq_false hgranted)

/-- **Acting on a frame.** -/
theorem safe_follow (frame : ClientFrame) (hping : frame ≠ .ping) :
    (following inst).Safe t (onFrame u frame) (Holds t (Lags u (some frame)))
      (fun _ => Holds t (Follows u)) fun _ _ => True := by
  cases frame with
  | join conversation =>
    refine Contract.Safe.bind (safe_authorize_join conversation) fun result => ?_
    cases result with
    | error e =>
      refine (safe_unmoved (P := Follows u) (fun _ _ _ hx hh => Follows.cons hh hx)
        (Prog.only_perform (o := .sendJson (.error e.1 e.2)) ⟨rfl, nofun⟩)).weaken fun w _ hw cs hcs hjoins => ?_
      cases (hw cs hcs).2 hjoins
    | ok topic =>
      refine safe_change rfl (g := fun cs => { cs with
        subscribedTopics := cs.subscribedTopics.insert topic }) (fun c s s' v hd => ?_)
        fun r h cs hh => hh.1.follows rfl fun frames hjoins hframes hcs => ?_
      · cases c with
        | ok =>
          cases hd
          exact Function.update_self ..
        | _ => cases hd
      · have htopic : topic = topicFor conversation u := Except.ok.inj (hh.2 hjoins.2)
        rw [hcs, htopic]
        rfl
  | leave conversation =>
    refine safe_change rfl (g := fun cs => { cs with
      subscribedTopics := cs.subscribedTopics.filter (· ≠ topicFor conversation u) })
      (fun c s s' v hd => ?_) fun r h cs hh => hh.follows rfl fun frames hjoins hframes hcs => ?_
    · cases c with
      | ok =>
        cases hd
        exact Function.update_self ..
      | _ => cases hd
    · rw [hcs]
      rfl
  | typing conversation =>
    refine safe_idle (fun _ => rfl) (Prog.Only.bind (only_authorize_unmoved _) fun result => ?_)
    cases result with
    | error e => exact Prog.only_perform (P := Unmoved) (o := .sendJson (.error e.1 e.2)) ⟨rfl, nofun⟩
    | ok topic => exact only_redisFailOpen () (Prog.only_perform ⟨rfl, nofun⟩)
  | ping => exact absurd rfl hping

theorem only_onPing_unmoved : (onPing settings u).Only Unmoved := by
  refine Prog.Only.bind (Presence.only_handleHeartbeat ⟨rfl, nofun⟩) fun _ => Prog.Only.bind
    (only_dbSession (Prog.only_perform ⟨rfl, nofun⟩) ⟨rfl, nofun⟩ ⟨rfl, nofun⟩) fun code => ?_
  cases code with
  | none => exact Prog.Only.bind (Prog.only_perform ⟨rfl, nofun⟩) fun _ => trivial
  | some code => exact Prog.Only.bind (Prog.only_perform ⟨rfl, nofun⟩) fun _ => trivial

/-! ### The endpoint -/

/-- **The loop.** -/
theorem safe_connectionLoop_following (frames : ℕ) (limiter : FrameRateLimiter)
    (deadline : Time) : (following inst).Safe t (connectionLoop settings u frames limiter deadline)
      (Holds t (Follows u)) (fun _ _ => True) fun _ _ => True := by
  have hclose (code : WSCloseCode) : (following inst).Safe t
      (Prog.perform (Op.close code) : Async Unit) (fun _ => True) (fun _ _ => True)
      fun _ _ => True := safe_unobserved (Prog.only_perform nofun)
  have hclock (P : List (Entry T Op Op.Res Exc) → ConnectionState → Prop)
      (hP : ∀ h x cs, receivedFrame x = none → P h cs → P (x :: h) cs) : (following inst).Safe t
      (Prog.perform Op.monotonic : Async Time) (Holds t P) (fun _ => Holds t P) fun _ _ => True :=
    safe_unmoved hP (Prog.only_perform ⟨rfl, nofun⟩)
  have hlags (f : Option ClientFrame) := hclock (Lags u f) fun _ _ _ hx hh => Lags.cons hh hx
  induction frames generalizing limiter deadline with
  | zero => exact fun _ _ _ => trivial
  | succ frames ih =>
    refine Contract.Safe.bind (hclock (Follows u) fun _ _ _ hx hh => Follows.cons hh hx)
      fun now => ?_
    split
    · exact (hclose _).weaken fun _ _ _ => trivial
    refine Contract.Safe.bind (Q := fun received w => ∀ f, received = .frame f →
      Holds t (Lags u f) w) ?_ fun received => ?_
    · refine Contract.Safe.perform (fun _ => .forall fun f => .imp fun _ => stable_holds _)
        (fun _ => .const True) ?_
      intro w c r s hi hw hC hexec
      have hstep := stepOk_unmanaged inst (t := t) (o := .receive deadline)
        (P := Follows u) (Q := fun r h cs => ∀ f, r = .ok (.frame f) → Lags u f h cs) rfl
        (fun _ _ => ⟨u, fun _ _ hh => hh⟩) (fun r h cs hh f hr => hr ▸ hh.receive deadline f)
        w c r s hi hw hC hexec
      refine ⟨hstep.1, hstep.2.1, ?_⟩
      cases r with
      | ok received => exact fun f hf cs hcs => hstep.2.2 cs hcs f (congrArg _ hf)
      | error e => trivial
    cases received with
    | timeout => exact (hclose _).weaken fun _ _ _ => trivial
    | disconnect => exact fun _ _ _ => trivial
    | frame f =>
      refine Contract.Safe.bind ((hlags f).weaken fun w _ hw => hw f rfl) fun now => ?_
      dsimp only
      split
      · exact (hclose _).weaken fun _ _ _ => trivial
      split
      · -- a frame that is rejected
        exact Contract.Safe.bind (safe_idle (fun _ => rfl) (Prog.only_perform (P := Unmoved)
          (o := .sendJson (.error _ _)) ⟨rfl, nofun⟩)) fun _ => ih _ _
      · refine Contract.Safe.bind (hlags _) fun now => Contract.Safe.bind
          (safe_idle (fun _ => rfl) only_onPing_unmoved) fun code => ?_
        cases code with
        | some code => exact fun _ _ _ => trivial
        | none => exact ih _ _
      · rename_i frame hf
        exact Contract.Safe.bind (safe_follow frame fun he => hf (he ▸ rfl)) fun _ => ih _ _

/-- A connection that has received nothing. -/
def Unheard (h : List (Entry T Op Op.Res Exc)) : Prop := framesOf h = []

theorem safe_unheard {p : Async α} (hp : p.Only Unmoved) : (following inst).Safe t p
    (fun w => Unheard (w.own t)) (fun _ w => Unheard (w.own t)) fun _ _ => True := by
  refine (Contract.Safe.only hp (.history Unheard) fun o ho w c r s hi hw _ hexec => ?_).mono
    (fun _ _ hw => hw) (fun _ _ _ hw => hw) fun _ _ _ _ => trivial
  refine ⟨inv_following hi hexec, fun deadline hd => absurd hd (ho.2 deadline), ?_⟩
  show Unheard (World.own t _)
  rw [World.own_after, Unheard, framesOf_cons (receivedFrame_of_unmoved ho)]
  exact hw

theorem safe_authenticateAndAccept_following : (following inst).Safe t authenticateAndAccept
    (fun w => Unheard (w.own t)) (fun _ w => Unheard (w.own t)) fun _ _ => True := by
  refine safe_unheard (Prog.Only.bind (Prog.Only.handle ?_ fun e => ?_) fun userId => ?_)
  · exact (only_dbSession (Prog.only_perform ⟨rfl, nofun⟩) ⟨rfl, nofun⟩ ⟨rfl, nofun⟩).bind
      fun _ => trivial
  · split
    · exact Prog.Only.bind (Prog.only_perform ⟨rfl, nofun⟩) fun _ => trivial
    · trivial
  · cases userId with
    | none => trivial
    | some userId => exact Prog.Only.bind (Prog.only_perform ⟨rfl, nofun⟩) fun _ => trivial

/-- A connection is registered. -/
theorem safe_register : (following inst).Safe t (Prog.perform (Op.register u) : Async Unit)
    (fun w => Unheard (w.own t)) (fun _ => Holds t fun h cs => Unheard h ∧ cs = ⟨u, []⟩)
    fun _ _ => True := by
  refine Contract.Safe.perform (fun _ => stable_holds _) (fun _ => .const True) ?_
  intro w c r s hi hw _ hexec
  refine ⟨inv_following hi hexec, nofun, ?_⟩
  obtain ⟨-, ⟨v, c, rfl, hd⟩ | ⟨e, -, hawaits, -⟩⟩ := exec_eq_some hexec
  · cases c with
    | ok =>
      cases hd
      intro cs hcs
      have hentry : some ⟨u, []⟩ = some cs := by
        rw [← hcs]
        exact (Function.update_self t (some _) w.state.connections).symm
      cases hentry
      rw [World.own_after]
      exact ⟨(framesOf_cons rfl).trans hw, rfl⟩
    | _ => cases hd
  · cases hawaits

/-- **The endpoint.** -/
theorem safe_websocketEndpoint_following (frames : ℕ) :
    (following inst).Safe t (websocketEndpoint settings frames) (fun w => Unheard (w.own t))
      (fun _ _ => True) fun _ _ => True := by
  refine Contract.Safe.bind safe_authenticateAndAccept_following fun userId => ?_
  cases userId with
  | none => exact fun _ _ _ => trivial
  | some u =>
    refine Contract.Safe.bind safe_register fun _ => ?_
    have hfin : (following inst).Safe t
        (do
          Prog.perform Op.unregister
          dbSession (Presence.handleDisconnect u) : Async Unit)
        (fun _ => True) (fun _ _ => True) fun _ _ => True := by
      refine safe_unobserved (Prog.Only.bind (Prog.only_perform nofun) fun _ =>
        only_dbSession ?_ nofun nofun)
      exact Presence.only_handleDisconnect nofun nofun (fun _ => nofun) nofun fun _ => nofun
    refine Contract.Safe.tryFinally (Q := fun _ _ => True) (R := fun _ _ => True) ?_
      (fun _ => hfin) fun _ => hfin
    have hkeep {β : Type} {p : Async β} (hp : p.Only Unmoved) : (following inst).Safe t p
        (Holds t (Follows u)) (fun _ => Holds t (Follows u)) fun _ _ => True :=
      safe_unmoved (fun _ _ _ hx hh => Follows.cons hh hx) hp
    refine Contract.Safe.bind (Q := fun _ => Holds t (Follows u)) (safe_change rfl (g := fun cs => { cs with
      subscribedTopics := cs.subscribedTopics.insert (.user u) }) (fun c s s' v hd => ?_)
      fun r h cs hh hjoins => ?_) fun _ => ?_
    · cases c with
      | ok =>
        cases hd
        exact Function.update_self ..
      | _ => cases hd
    · rw [framesOf_cons rfl, hh.1, hh.2]
      rfl
    refine Contract.Safe.bind (hkeep (Presence.only_handleConnect ⟨rfl, nofun⟩ ⟨rfl, nofun⟩))
      fun _ => ?_
    exact Contract.Safe.bind (hkeep (Prog.only_perform ⟨rfl, nofun⟩)) fun now =>
      safe_connectionLoop_following _ _ _

variable {p q : Pool T Op Op.Res Exc (Option Bool) (State T I)}
  {ls : List (Label T Choice (WsEvent I))}

theorem Start.sound_following (hp : Start settings task p) :
    (following inst).Sound (fun _ _ _ => True) (fun _ _ _ => True) p where
  inv t _ := by
    obtain ⟨clock, lastSeen, hstate⟩ := hp.state
    rw [hstate]
    rfl
  safe t := by
    refine ⟨fun w => Unheard (w.own t), .history Unheard, ?_, ?_⟩
    · show Unheard (World.own t p.world)
      rw [World.own, hp.trace]
      rfl
    · rw [hp.prog t]
      cases task t with
      | connection frames =>
        exact (safe_websocketEndpoint_following frames).bind fun _ _ _ _ => trivial
      | isOnline userId =>
        have honly : ((Task.isOnline userId).program settings).Only
            fun o => ∀ deadline, o ≠ .receive deadline := by
          refine Prog.Only.bind (only_redisFailOpen false ?_) fun _ => trivial
          exact (Prog.only_perform (by simp)).bind fun _ => trivial
        exact (safe_unobserved honly).weaken fun _ _ _ => trivial

/-- **A connection that waits for the next frame is subscribed to what those before it ask for.** -/
theorem subscribed_of_waiting (hp : Start settings task p)
    (hrun : (machine inst).run p ls = some q) {deadline : Time}
    (hwaits : (q.prog t).next = some (.receive deadline))
    (hjoins : JoinsAuthorised (q.world.own t))
    (hcs : q.world.state.connections t = some cs) :
    cs.subscribedTopics = subscribedBy cs.userId (framesOf (q.world.own t)) := by
  have hsound := Contract.Sound.run (K := following inst) eventsOk_following hp.sound_following
    (Machine.meets_always _) hrun
  obtain ⟨k, hk⟩ := Prog.call_of_next hwaits
  obtain ⟨A, -, hA, hsafe⟩ := hsound.safe t
  rw [hk] at hsafe
  obtain ⟨B, -, hstep, -⟩ := hsafe
  -- the instance is up, so the wait can end, and the guarantee speaks of the world as it is
  have hup : q.world.state.crashed (inst t) = false := by
    rw [← Bool.not_eq_true]
    intro hcrashed
    rw [hsound.inv t hcrashed] at hcs
    cases hcs
  have hexec : (machine inst).exec t (.receive deadline) (.fail .cancelledError) q.world.state =
      some (.error .cancelledError, q.world.state) := by
    simp [machine, Op.exec, hup, Op.awaits]
  obtain ⟨u, hu⟩ := (hstep _ _ _ _ hsound.inv hA trivial hexec).2.1 deadline rfl
  rw [hu cs hcs hjoins]

end Chatspace.Ws
