import Chatspace.Rates.Window
import Chatspace.Ws.LastDisconnect

/-!
# How long a session goes without revalidation

Only a `ping` moves the heartbeat deadline, and only a successful revalidation lets the loop go on
after it.

* `FrameRateLimiter.Window` — the limiter counts the frames of its window;
* `Ready` — what a connection has done when it goes for the next frame;
* `Due` — what it has done when it acts on one;
* `revalidation_bound` — **a frame acted on came in time, and not after the connection failed.**
-/

namespace Chatspace.Ws

open Interleave Store

variable {T I α : Type} [DecidableEq T] [DecidableEq I] {inst : T → I} {settings : Settings}
  {task : T → Task} {t : T} {w : WsWorld T I} {limiter : FrameRateLimiter} {deadline now ρ : Time}
  {P P' : List (Entry T Op Op.Res Exc) → Prop} {h old : List (Entry T Op Op.Res Exc)}
  {x : Entry T Op Op.Res Exc} {arr : List Time} {f : Option ClientFrame}

/-! ### The frame limit -/

/-- The frames that came within the window before `now`. -/
def recent (settings : Settings) (now : Time) (arr : List Time) : ℕ :=
  arr.countP fun x => now ≤ x + settings.wsFrameRateLimitWindow

/-- No frame was over the limit when it came; newest first. -/
def WithinLimit (settings : Settings) : List Time → Prop
  | [] => True
  | now :: older =>
    recent settings now (now :: older) ≤ settings.wsFrameRateLimitMaxFrames ∧
      WithinLimit settings older

/-- The limiter remembers what the window needs of the frames that came. -/
structure FrameRateLimiter.Window (settings : Settings) (limiter : FrameRateLimiter)
    (arr : List Time) : Prop where
  maxFrames : limiter.maxFrames = settings.wsFrameRateLimitMaxFrames
  window : limiter.window = settings.wsFrameRateLimitWindow
  sorted : limiter.timestamps.Pairwise (· ≤ ·)
  mem : ∀ x ∈ limiter.timestamps, x ∈ arr
  count : ∀ now, (∀ x ∈ arr, x ≤ now) →
    recent settings now limiter.timestamps = recent settings now arr

/-- What is evicted from the left of a sorted list is what is too old. -/
theorem evict_eq_filter {xs : List Time} (hs : xs.Pairwise (· ≤ ·)) (window now : Time) :
    (xs.dropWhile fun x => x + window < now) = xs.filter fun x => now ≤ x + window := by
  simpa only [Nat.lt_sub_iff_add_lt, Nat.sub_le_iff_le_add] using Rates.dropWhile_lt hs (now - window)

/-- **A frame is limited when more came within the window than are allowed.** -/
theorem FrameRateLimiter.Window.record (hw : limiter.Window settings arr)
    (hnow : ∀ x ∈ arr, x ≤ now) :
    (limiter.recordAndCheck now).2.Window settings (now :: arr) ∧
      ((limiter.recordAndCheck now).1 = true ↔
        settings.wsFrameRateLimitMaxFrames < recent settings now (now :: arr)) := by
  have hsorted : (limiter.timestamps ++ [now]).Pairwise (· ≤ ·) := by
    refine List.pairwise_append.mpr ⟨hw.sorted, List.pairwise_singleton _ _, fun x hx y hy => ?_⟩
    rw [List.mem_singleton.mp hy]
    exact hnow x (hw.mem x hx)
  have hcount : ∀ now', now ≤ now' → recent settings now' (limiter.timestamps ++ [now]) =
      recent settings now' (now :: arr) := by
    intro now' hle
    have harr := hw.count now' fun x hx => Nat.le_trans (hnow x hx) hle
    simp only [recent] at harr
    simp only [recent, List.countP_append, List.countP_cons, List.countP_nil, harr, Nat.zero_add]
  have hkept : (limiter.recordAndCheck now).2.timestamps =
      (limiter.timestamps ++ [now]).filter fun x => now ≤ x + settings.wsFrameRateLimitWindow := by
    rw [← hw.window]
    exact evict_eq_filter hsorted _ _
  refine ⟨⟨hw.maxFrames, hw.window, ?_, fun x hx => ?_, fun now' hle => ?_⟩, ?_⟩
  · rw [hkept]
    exact hsorted.filter _
  · rw [hkept] at hx
    rcases List.mem_append.mp (List.mem_of_mem_filter hx) with hx | hx
    · exact List.mem_cons_of_mem _ (hw.mem x hx)
    · rw [List.mem_singleton.mp hx]
      exact List.mem_cons_self
  · -- what was evicted is too old for every later frame as well
    have hle' : now ≤ now' := hle now List.mem_cons_self
    rw [← hcount now' hle', hkept]
    simp only [recent, List.countP_filter]
    apply List.countP_congr
    intro x _
    simp only [Bool.and_eq_true, decide_eq_true_eq]
    exact ⟨fun hx => hx.1, fun hx => ⟨hx, Nat.le_trans hle' hx⟩⟩
  · have hlength : (limiter.recordAndCheck now).2.timestamps.length =
        recent settings now (now :: arr) := by
      rw [hkept, ← List.countP_eq_length_filter]
      exact hcount now (Nat.le_refl now)
    show decide (limiter.maxFrames < (limiter.recordAndCheck now).2.timestamps.length) = true ↔ _
    rw [decide_eq_true_eq, hlength, hw.maxFrames]

/-! ### What a connection has done -/

/-- The clock, if this reads it. -/
def reading : Entry T Op Op.Res Exc → Option Time
  | ⟨_, .monotonic, .ok now⟩ => some now
  | _ => none

/-- The frame, if this receives one. -/
def receivedFrame : Entry T Op Op.Res Exc → Option (Option ClientFrame)
  | ⟨_, .receive _, .ok (.frame f)⟩ => some f
  | _ => none

/-- The frame received last thing. -/
def justReceived : List (Entry T Op Op.Res Exc) → Option (Option ClientFrame)
  | [] => none
  | x :: _ => receivedFrame x

/-- When the frames came, as read on their receipt; newest first. -/
def arrivals : List (Entry T Op Op.Res Exc) → List Time
  | [] => []
  | x :: h =>
    match reading x, justReceived h with
    | some now, some _ => now :: arrivals h
    | _, _ => arrivals h

/-- A `ping` was received and its arrival read, last thing. -/
def pingArrived : List (Entry T Op Op.Res Exc) → Bool
  | [] => false
  | x :: h => (reading x).isSome && justReceived h = some (some .ping)

/-- The clock as it was read on connect, when the loop began, or on receipt of the last `ping`. -/
def mark : List (Entry T Op Op.Res Exc) → Option Time
  | [] => none
  | x :: h =>
    match reading x with
    | none => mark h
    | some now => if mark h = none ∨ pingArrived h = true then some now else mark h

/-- A `ping` was received. -/
def Pinged (h : List (Entry T Op Op.Res Exc)) : Prop :=
  ∃ x ∈ h, receivedFrame x = some (some .ping)

/-- Revalidation failed, the connection was closed, or nothing more came in time. -/
def Finishes : Entry T Op Op.Res Exc → Prop
  | ⟨_, .close _, _⟩ => True
  | ⟨_, .revalidate, r⟩ => r ≠ .ok none
  | ⟨_, .receive _, r⟩ => ∀ f, r ≠ .ok (.frame f)
  | _ => False

/-- A revalidation succeeded since the last `ping`. -/
def Revalidated (t : T) (h : List (Entry T Op Op.Res Exc)) : Prop :=
  ∃ newer older, h = newer ++ ⟨t, .revalidate, .ok none⟩ :: older ∧ mark older = mark h

/-- The frame is all taken in: neither it nor the reading of its arrival is what was done last. -/
def TakenIn : List (Entry T Op Op.Res Exc) → Prop
  | [] => True
  | x :: h => receivedFrame x = none ∧ (reading x = none ∨ justReceived h = none)

/-- With these operations acting on a frame begins. -/
def Begins : Op → Prop
  | .authorizeConversation .. | .unsubscribe _ | .heartbeatRenew .. => True
  | _ => False

/-- The operation with which acting on this frame begins. -/
def ActsOn : ClientFrame → Op → Prop
  | .join conversation, .authorizeConversation conversation' _ => conversation' = conversation
  | .typing conversation, .authorizeConversation conversation' _ => conversation' = conversation
  | .leave conversation, .unsubscribe topic => ∃ userId, topic = topicFor conversation userId
  | .ping, .heartbeatRenew .. => True
  | _, _ => False

/-- Operations that are none of the loop's own. -/
def Neutral : Op → Prop
  | .receive _ | .monotonic | .close _ | .revalidate => False
  | _ => True

/-- Operations besides the loop's own and those with which acting on a frame begins. -/
def Aside (o : Op) : Prop := Neutral o ∧ ¬Begins o

omit [DecidableEq T] in
theorem receivedFrame_of_neutral (hx : Neutral x.op) : receivedFrame x = none := by
  obtain ⟨t, o, r⟩ := x
  cases o <;> first | rfl | exact hx.elim

omit [DecidableEq T] in
theorem reading_of_neutral (hx : Neutral x.op) : reading x = none := by
  obtain ⟨t, o, r⟩ := x
  cases o <;> first | rfl | exact hx.elim

omit [DecidableEq T] in
theorem not_finishes_of_neutral (hx : Neutral x.op) : ¬Finishes x := by
  obtain ⟨t, o, r⟩ := x
  cases o <;> first | exact id | exact hx.elim

omit [DecidableEq T] in
theorem mark_cons (hx : reading x = none) : mark (x :: h) = mark h := by
  simp only [mark, hx]

omit [DecidableEq T] in
theorem arrivals_cons (hx : reading x = none) : arrivals (x :: h) = arrivals h := by
  simp only [arrivals, hx]

omit [DecidableEq T] in
theorem takenIn_of_neutral (hx : Neutral x.op) : TakenIn (x :: h) :=
  ⟨receivedFrame_of_neutral hx, .inl (reading_of_neutral hx)⟩

omit [DecidableEq T] in
theorem TakenIn.justReceived (hh : TakenIn h) : justReceived h = none := by
  cases h with
  | nil => rfl
  | cons x h => exact hh.1

omit [DecidableEq T] in
theorem TakenIn.pingArrived (hh : TakenIn h) : pingArrived h = false := by
  cases h with
  | nil => rfl
  | cons x h =>
    rcases hh.2 with hx | hx
    · simp only [Ws.pingArrived, hx, Option.isSome_none, Bool.false_and]
    · simp only [Ws.pingArrived, hx, reduceCtorEq, decide_false, Bool.and_false]

omit [DecidableEq T] in
/-- Once everything is taken in, another reading of the clock is no mark and no arrival. -/
theorem TakenIn.mark_cons (hh : TakenIn h) (hm : mark h = some ρ) : mark (x :: h) = mark h := by
  cases hx : reading x with
  | none => exact Ws.mark_cons hx
  | some now => simp [mark, hx, hm, hh.pingArrived]

omit [DecidableEq T] in
theorem TakenIn.arrivals_cons (hh : TakenIn h) : arrivals (x :: h) = arrivals h := by
  cases hx : reading x with
  | none => exact Ws.arrivals_cons hx
  | some now => simp only [arrivals, hx, hh.justReceived]

omit [DecidableEq T] in
theorem TakenIn.cons (hh : TakenIn h) (hx : receivedFrame x = none) : TakenIn (x :: h) :=
  ⟨hx, .inr hh.justReceived⟩

omit [DecidableEq T] in
theorem Revalidated.cons (hr : Revalidated t h) (hm : mark (x :: h) = mark h) :
    Revalidated t (x :: h) := by
  obtain ⟨newer, older, rfl, hmark⟩ := hr
  exact ⟨x :: newer, older, rfl, hmark.trans hm.symm⟩

omit [DecidableEq T] in
/-- The mark was read. -/
theorem mem_of_mark (hm : mark h = some ρ) : ∃ x ∈ h, reading x = some ρ := by
  induction h with
  | nil => cases hm
  | cons x h ih =>
    have hold : mark h = some ρ → ∃ y ∈ x :: h, reading y = some ρ := by
      intro hm
      obtain ⟨y, hy, hread⟩ := ih hm
      exact ⟨y, List.mem_cons_of_mem x hy, hread⟩
    cases hx : reading x with
    | none => exact hold ((mark_cons hx).symm.trans hm)
    | some now =>
      simp only [mark, hx] at hm
      split at hm
      · exact ⟨x, List.mem_cons_self, hx.trans hm⟩
      · exact hold hm

omit [DecidableEq T] in
/-- The arrivals were read. -/
theorem mem_of_arrivals (hn : now ∈ arrivals h) : ∃ x ∈ h, reading x = some now := by
  induction h with
  | nil => cases hn
  | cons x h ih =>
    have hold : now ∈ arrivals h → ∃ y ∈ x :: h, reading y = some now := by
      intro hn
      obtain ⟨y, hy, hread⟩ := ih hn
      exact ⟨y, List.mem_cons_of_mem x hy, hread⟩
    simp only [arrivals] at hn
    split at hn
    · rename_i n _ hx _
      rcases List.mem_cons.mp hn with rfl | hn
      · exact ⟨x, List.mem_cons_self, hx⟩
      · exact hold hn
    · exact hold hn

/-! ### What holds in the loop -/

/-- While the loop goes on: where its deadline and its limiter come from, and that nothing ended the
connection. -/
structure Running (settings : Settings) (limiter : FrameRateLimiter) (deadline : Time)
    (h : List (Entry T Op Op.Res Exc)) : Prop where
  mark : ∃ ρ, mark h = some ρ ∧ deadline = ρ + settings.wsHeartbeatTimeout
  window : limiter.Window settings (arrivals h)
  within : WithinLimit settings (arrivals h)
  unfinished : ∀ x ∈ h, ¬Finishes x

/-- The loop goes for the next frame. -/
structure Ready (settings : Settings) (t : T) (limiter : FrameRateLimiter) (deadline : Time)
    (h : List (Entry T Op Op.Res Exc)) : Prop
    extends Running settings limiter deadline h where
  takenIn : TakenIn h
  revalidated : Pinged h → Revalidated t h

/-- The last frame received is `f`, what was done before is `old`, and since then only the clock
was read. -/
def Took (t : T) (f : ClientFrame) (deadline : Time) (old h : List (Entry T Op Op.Res Exc)) :
    Prop :=
  ∃ readings, h = readings ++ ⟨t, .receive deadline, .ok (.frame (some f))⟩ :: old ∧
    ∀ x ∈ readings, x.op = .monotonic

/-- What a connection has done before it acts on a frame, or waits for one. -/
structure Due (settings : Settings) (t : T) (o : Op) (h : List (Entry T Op Op.Res Exc)) : Prop where
  receive : ∀ deadline, o = .receive deadline →
    ∃ ρ, mark h = some ρ ∧ deadline = ρ + settings.wsHeartbeatTimeout
  act : Begins o → ∃ f deadline old, Took t f deadline old h ∧ ActsOn f o ∧
    (f ≠ .ping → Pinged old → Revalidated t old) ∧ (∀ x ∈ old, ¬Finishes x) ∧
    WithinLimit settings (arrivals h)

/-- Every step is due, and no clock reading lies ahead. -/
def heeding (inst : T → I) (settings : Settings) : Contract (machine inst) where
  inv w := ∀ x ∈ w.trace, ∀ now, reading x = some now → now ≤ w.state.clock
  pre := .always
  guar t o _ w _ := Due settings t o (w.own t)

theorem eventsOk_heeding : (heeding inst settings).EventsOk := by
  intro ev w s hi _ hexec x hx now hnow
  have hle := hi x hx now hnow
  cases hexec
  cases ev with
  | tick ms => exact Nat.le_trans hle (Nat.le_add_right _ _)
  | crash i => exact hle
  | wipe => exact hle
  | save => exact hle
  | restart => exact hle

theorem clock_of_exec {o : Op} {c : Choice} {s s' : State T I} {r : Except Exc o.Res}
    (hexec : (machine inst).exec t o c s = some (r, s')) : s'.clock = s.clock := by
  rcases effect_of_exec hexec with rfl | ⟨v, c, hd⟩
  · rfl
  · exact clock_of_done hd

/-- What is read is the clock. -/
theorem reading_of_exec {o : Op} {c : Choice} {s s' : State T I} {r : Except Exc o.Res}
    (hexec : (machine inst).exec t o c s = some (r, s')) (hr : reading ⟨t, o, r⟩ = some now) :
    now = s.clock := by
  cases o with
  | monotonic =>
    obtain ⟨-, ⟨v, c, rfl, hd⟩ | ⟨e, -, ho, -⟩⟩ := exec_eq_some hexec
    · cases hr
      cases c with
      | ok =>
        cases hd
        rfl
      | _ => cases hd
    · cases ho
  | _ => cases hr

theorem inv_heeding {o : Op} {c : Choice} {s : State T I} {r : Except Exc o.Res}
    (hi : (heeding inst settings).inv w)
    (hexec : (machine inst).exec t o c w.state = some (r, s)) :
    (heeding inst settings).inv (w.after t o r s) := by
  intro x hx now hnow
  rw [World.after_state, clock_of_exec hexec]
  rcases List.mem_cons.mp hx with rfl | hx
  · exact Nat.le_of_eq (reading_of_exec hexec hnow)
  · exact hi x hx now hnow

/-- An operation that is due. -/
theorem stepOk_heeding {o : Op} {B : Except Exc o.Res → List (Entry T Op Op.Res Exc) → Prop}
    (hdue : ∀ h, P h → Due settings t o h)
    (hB : ∀ w c r s, (heeding inst settings).inv w → P (w.own t) →
      (machine inst).exec t o c w.state = some (r, s) → B r (⟨t, o, r⟩ :: w.own t)) :
    (heeding inst settings).StepOk t (fun w => P (w.own t)) o fun r w => B r (w.own t) := by
  intro w c r s hi hw _ hexec
  refine ⟨inv_heeding hi hexec, hdue _ hw, ?_⟩
  show B r (World.own t _)
  rw [World.own_after]
  exact hB w c r s hi hw hexec

/-- An operation that is due, whose exceptions end the connection. -/
theorem safe_heeding {o : Op} {Q : o.Res → List (Entry T Op Op.Res Exc) → Prop}
    (hdue : ∀ h, P h → Due settings t o h)
    (hQ : ∀ w c v s, (heeding inst settings).inv w → P (w.own t) →
      (machine inst).exec t o c w.state = some (.ok v, s) → Q v (⟨t, o, .ok v⟩ :: w.own t)) :
    (heeding inst settings).Safe t (Prog.perform o : Async o.Res) (fun w => P (w.own t))
      (fun v w => Q v (w.own t)) fun _ _ => True := by
  refine Contract.Safe.perform (fun v => .history (Q v)) (fun _ => .const True) ?_
  intro w c r s hi hw hC hexec
  have hstep := stepOk_heeding (B := fun r h => ∀ v, r = .ok v → Q v h) hdue
    (fun w c r s hi hw hexec v hv => by
      subst hv
      exact hQ w c v s hi hw hexec) w c r s hi hw hC hexec
  refine ⟨hstep.1, hstep.2.1, ?_⟩
  cases r with
  | ok v => exact hstep.2.2 v rfl
  | error e => trivial

omit [DecidableEq T] in
theorem due_of_aside {o : Op} (ho : Aside o) : Due settings t o h where
  receive deadline hd := by
    subst hd
    exact ho.1.elim
  act hb := (ho.2 hb).elim

/-- What neutral operations keep, a program that performs nothing else keeps. -/
theorem safe_aside {p : Async α} (hP : ∀ h x, Neutral x.op → P h → P (x :: h)) (hp : p.Only Aside) :
    (heeding inst settings).Safe t p (fun w => P (w.own t)) (fun _ w => P (w.own t))
      fun _ w => P (w.own t) := by
  refine Contract.Safe.only hp (.history P) fun o ho => ?_
  exact stepOk_heeding (B := fun _ => P) (fun h _ => due_of_aside ho)
    fun w c r s _ hw _ => hP _ _ ho.1 hw

/-- Operations that are always due. -/
def Free (o : Op) : Prop := ¬Begins o ∧ ∀ deadline, o ≠ .receive deadline

omit [DecidableEq T] in
theorem due_of_free {o : Op} (ho : Free o) : Due settings t o h where
  receive deadline hd := absurd hd (ho.2 deadline)
  act hb := (ho.1 hb).elim

theorem safe_free {p : Async α} (hp : p.Only Free) :
    (heeding inst settings).Safe t p (fun _ => True) (fun _ _ => True) fun _ _ => True := by
  refine Contract.Safe.only hp (.const True) fun o ho => ?_
  exact stepOk_heeding (P := fun _ => True) (B := fun _ _ => True) (fun h _ => due_of_free ho)
    fun _ _ _ _ _ _ _ => trivial

omit [DecidableEq T] in
theorem Running.cons (hr : Running settings limiter deadline h) (hx : Neutral x.op) :
    Running settings limiter deadline (x :: h) where
  mark := by
    rw [mark_cons (reading_of_neutral hx)]
    exact hr.mark
  window := by
    rw [arrivals_cons (reading_of_neutral hx)]
    exact hr.window
  within := by
    rw [arrivals_cons (reading_of_neutral hx)]
    exact hr.within
  unfinished := List.forall_mem_cons.mpr ⟨not_finishes_of_neutral hx, hr.unfinished⟩

omit [DecidableEq T] in
theorem pinged_cons (hx : receivedFrame x ≠ some (some .ping)) (hp : Pinged (x :: h)) :
    Pinged h := by
  obtain ⟨y, hy, hping⟩ := hp
  rcases List.mem_cons.mp hy with rfl | hy
  · exact absurd hping hx
  · exact ⟨y, hy, hping⟩

omit [DecidableEq T] in
theorem pinged_cons_neutral (hx : Neutral x.op) (hp : Pinged (x :: h)) : Pinged h := by
  refine pinged_cons ?_ hp
  rw [receivedFrame_of_neutral hx]
  exact nofun

omit [DecidableEq T] in
/-- A neutral operation leaves the loop ready. -/
theorem Running.ready (hr : Running settings limiter deadline h)
    (hv : Pinged h → Revalidated t h) (hx : Neutral x.op) :
    Ready settings t limiter deadline (x :: h) where
  toRunning := hr.cons hx
  takenIn := takenIn_of_neutral hx
  revalidated hp := (hv (pinged_cons_neutral hx hp)).cons (mark_cons (reading_of_neutral hx))

omit [DecidableEq T] in
theorem Ready.cons (hr : Ready settings t limiter deadline h) (hx : Neutral x.op) :
    Ready settings t limiter deadline (x :: h) := hr.toRunning.ready hr.revalidated hx

omit [DecidableEq T] in
/-- Reading the clock at the top of the loop changes nothing. -/
theorem Ready.reading (hr : Ready settings t limiter deadline h) (hx : x.op = .monotonic) :
    Ready settings t limiter deadline (x :: h) := by
  obtain ⟨ρ, hmark, hdeadline⟩ := hr.mark
  have hframe : receivedFrame x = none := by
    obtain ⟨t, o, r⟩ := x
    cases hx
    rfl
  have hm := hr.takenIn.mark_cons (x := x) hmark
  have ha := hr.takenIn.arrivals_cons (x := x)
  refine ⟨⟨⟨ρ, hm.trans hmark, hdeadline⟩, ?_, ?_, ?_⟩, hr.takenIn.cons hframe, fun hp => ?_⟩
  · rw [ha]
    exact hr.window
  · rw [ha]
    exact hr.within
  · refine List.forall_mem_cons.mpr ⟨?_, hr.unfinished⟩
    obtain ⟨t, o, r⟩ := x
    cases hx
    exact id
  · refine (hr.revalidated (pinged_cons ?_ hp)).cons hm
    rw [hframe]
    exact nofun

/-! ### A frame -/

/-- The frame was received, and its arrival read. -/
def Arrived (settings : Settings) (t : T) (limiter : FrameRateLimiter) (deadline : Time)
    (f : Option ClientFrame) (now : Time) (h : List (Entry T Op Op.Res Exc)) : Prop :=
  ∃ old, h = ⟨t, .monotonic, .ok now⟩ :: ⟨t, .receive deadline, .ok (.frame f)⟩ :: old ∧
    Ready settings t limiter deadline old ∧ ∀ x ∈ arrivals old, x ≤ now

/-- The connection is about to act on the frame. -/
structure Acting (settings : Settings) (t : T) (limiter : FrameRateLimiter) (deadline : Time)
    (f : ClientFrame) (h : List (Entry T Op Op.Res Exc)) : Prop
    extends Running settings limiter deadline h where
  took : ∃ deadline old, Took t f deadline old h ∧ (f ≠ .ping → Pinged old → Revalidated t old) ∧
    ∀ x ∈ old, ¬Finishes x
  revalidated : f ≠ .ping → Pinged h → Revalidated t h

omit [DecidableEq T] in
/-- A frame within the limit leaves the deadline where it was. -/
theorem Arrived.running (ha : Arrived settings t limiter deadline f now h)
    (hl : (limiter.recordAndCheck now).1 = false) :
    Running settings (limiter.recordAndCheck now).2 deadline h ∧
      (f ≠ some .ping → Pinged h → Revalidated t h) := by
  obtain ⟨old, rfl, hready, hnow⟩ := ha
  obtain ⟨ρ, hmark, hdeadline⟩ := hready.mark
  obtain ⟨hwindow, hlimited⟩ := hready.window.record hnow
  have hm : mark (⟨t, .monotonic, .ok now⟩ :: ⟨t, .receive deadline, .ok (.frame f)⟩ :: old) =
      mark old := by
    have hreceive : mark (⟨t, .receive deadline, .ok (.frame f)⟩ :: old) = mark old := rfl
    have hpinged : pingArrived (⟨t, .receive deadline, .ok (.frame f)⟩ :: old) = false := rfl
    simp [mark, reading, hmark, hpinged]
  constructor
  · refine ⟨⟨ρ, hm.trans hmark, hdeadline⟩, hwindow, ⟨?_, hready.within⟩, ?_⟩
    · exact Nat.not_lt.mp fun hlt => absurd (hlimited.mpr hlt) (by simp [hl])
    · refine List.forall_mem_cons.mpr ⟨id, List.forall_mem_cons.mpr ⟨fun hf => ?_, ?_⟩⟩
      · exact hf f rfl
      · exact hready.unfinished
  · intro hf hp
    have hpinged : Pinged old := by
      refine pinged_cons (fun hx => ?_) (pinged_cons (fun hx => ?_) hp)
      · exact hf (Option.some.inj hx)
      · cases hx
    obtain ⟨newer, older, rfl, hmark'⟩ := hready.revalidated hpinged
    exact ⟨_ :: _ :: newer, older, rfl, hmark'.trans hm.symm⟩

omit [DecidableEq T] in
theorem Arrived.acting {frame : ClientFrame}
    (ha : Arrived settings t limiter deadline (some frame) now h)
    (hl : (limiter.recordAndCheck now).1 = false) :
    Acting settings t (limiter.recordAndCheck now).2 deadline frame h := by
  obtain ⟨hrunning, hrevalidated⟩ := ha.running hl
  obtain ⟨old, rfl, hready, -⟩ := ha
  refine ⟨hrunning, ⟨deadline, old, ⟨[_], rfl, ?_⟩, fun _ => hready.revalidated,
    hready.unfinished⟩, fun hne => hrevalidated fun he => hne (Option.some.inj he)⟩
  intro x hx
  rw [List.mem_singleton.mp hx]

omit [DecidableEq T] in
/-- **A `ping` moves the deadline.** -/
theorem Arrived.pinged (ha : Arrived settings t limiter deadline (some .ping) now h)
    (hl : (limiter.recordAndCheck now).1 = false) (now' : Time) :
    Acting settings t (limiter.recordAndCheck now).2 (now' + settings.wsHeartbeatTimeout) .ping
      (⟨t, .monotonic, .ok now'⟩ :: h) := by
  obtain ⟨hrunning, -⟩ := ha.running hl
  obtain ⟨old, rfl, hready, -⟩ := ha
  refine ⟨⟨⟨now', ?_, rfl⟩, hrunning.window, hrunning.within,
    List.forall_mem_cons.mpr ⟨id, hrunning.unfinished⟩⟩,
    ⟨deadline, old, ⟨[_, _], rfl, ?_⟩, fun hne => absurd rfl hne, hready.unfinished⟩,
    fun hne => absurd rfl hne⟩
  · simp [mark, reading, pingArrived, justReceived, receivedFrame]
  · intro x hx
    simp only [List.mem_cons, List.not_mem_nil, or_false] at hx
    rcases hx with rfl | rfl
    · rfl
    · rfl

omit [DecidableEq T] in
theorem Acting.due {frame : ClientFrame} {o : Op} (ha : Acting settings t limiter deadline frame h)
    (ho : ActsOn frame o) (hn : Neutral o) : Due settings t o h where
  receive deadline hd := by
    subst hd
    exact hn.elim
  act _ := by
    obtain ⟨deadline', old, htook, hrevalidated, hold⟩ := ha.took
    exact ⟨frame, deadline', old, htook, ho, hrevalidated, hold, ha.within⟩

/-- Acting on a frame begins. -/
theorem safe_begin (frame : ClientFrame) {o : Op} (ho : ActsOn frame o) (hn : Neutral o)
    (hP : ∀ h x, x.op = o → Acting settings t limiter deadline frame h → P (x :: h)) :
    (heeding inst settings).Safe t (Prog.perform o : Async o.Res)
      (fun w => Acting settings t limiter deadline frame (w.own t)) (fun _ w => P (w.own t))
      fun _ w => P (w.own t) := by
  refine Contract.Safe.perform (fun _ => .history P) (fun _ => .history P) ?_
  intro w c r s hi hw hC hexec
  have hstep := stepOk_heeding (B := fun _ => P) (fun h hh => Acting.due hh ho hn)
    (fun w c r s _ hw _ => hP _ _ rfl hw) w c r s hi hw hC hexec
  refine ⟨hstep.1, hstep.2.1, ?_⟩
  cases r with
  | ok v => exact hstep.2.2
  | error e => exact hstep.2.2

/-- What a session keeps of the value of its body. -/
theorem safe_dbSession_value {body : Async α} {A : WsWorld T I → Prop}
    {Q : α → List (Entry T Op Op.Res Exc) → Prop}
    (hbody : (heeding inst settings).Safe t body A (fun a w => Q a (w.own t)) fun _ _ => True)
    (hQ : ∀ a h x, Neutral x.op → Q a h → Q a (x :: h)) :
    (heeding inst settings).Safe t (dbSession body) A (fun a w => Q a (w.own t))
      fun _ _ => True := by
  have hrollback : (heeding inst settings).Safe t (Prog.perform Op.rollback : Async Unit)
      (fun _ => True) (fun _ _ => True) fun _ _ => True :=
    safe_free (Prog.only_perform (P := Free) (o := .rollback) ⟨id, nofun⟩)
  have hkeep : ∀ a o, Aside o → (heeding inst settings).Safe t (Prog.perform o : Async o.Res)
      (fun w => Q a (w.own t)) (fun _ w => Q a (w.own t)) fun _ _ => True := by
    intro a o ho
    exact (safe_aside (hQ a) (Prog.only_perform ho)).mono (fun _ _ hw => hw) (fun _ _ _ hw => hw)
      fun _ _ _ _ => trivial
  refine Contract.Safe.tryFinally (Q := fun a w => Q a (w.own t)) (R := fun _ _ => True) ?_
    (fun a => hkeep a .rollback ⟨trivial, id⟩) fun _ => hrollback
  refine Contract.Safe.handle (R := fun _ _ => True) ?_ fun e => ?_
  · exact hbody.bind fun a => (hkeep a .commit ⟨trivial, id⟩).bind fun _ _ _ hw => hw
  · split
    · exact hrollback.bind fun _ _ _ _ => trivial
    · exact fun _ _ _ => trivial

/-- The assertion of a loop that goes on. -/
abbrev ReadyAt (settings : Settings) (t : T) (limiter : FrameRateLimiter) (deadline : Time)
    (w : WsWorld T I) : Prop := Ready settings t limiter deadline (w.own t)

theorem safe_ready {p : Async α} (hp : p.Only Aside) :
    (heeding inst settings).Safe t p (ReadyAt settings t limiter deadline)
      (fun _ => ReadyAt settings t limiter deadline) fun _ _ => True :=
  (safe_aside (fun _ _ hx hr => Ready.cons hr hx) hp).mono (fun _ _ hw => hw) (fun _ _ _ hw => hw)
    fun _ _ _ _ => trivial

theorem safe_authorize {frame : ClientFrame} {conversation : ConversationRef} {userId : UserId}
    (hf : frame ≠ .ping) (ho : ActsOn frame (.authorizeConversation conversation userId)) :
    (heeding inst settings).Safe t (authorize conversation userId)
      (fun w => Acting settings t limiter deadline frame (w.own t))
      (fun _ => ReadyAt settings t limiter deadline) fun _ _ => True := by
  refine safe_dbSession_value (Q := fun _ => Ready settings t limiter deadline) ?_
    fun _ _ _ hx hr => hr.cons hx
  refine (safe_begin frame ho trivial fun h x hx ha => ?_).mono (fun _ _ hw => hw)
    (fun _ _ _ hw => hw) fun _ _ _ _ => trivial
  exact ha.toRunning.ready (ha.revalidated hf) (by rw [hx]; trivial)

/-- Acting on a frame other than a `ping`. -/
theorem safe_onFrame {frame : ClientFrame} {userId : UserId} (hf : frame ≠ .ping) :
    (heeding inst settings).Safe t (onFrame userId frame)
      (fun w => Acting settings t limiter deadline frame (w.own t))
      (fun _ => ReadyAt settings t limiter deadline) fun _ _ => True := by
  cases frame with
  | join conversation =>
    refine Contract.Safe.bind (safe_authorize hf rfl) fun result => ?_
    cases result with
    | error e => exact safe_ready (Prog.only_perform ⟨trivial, id⟩)
    | ok topic => exact safe_ready (Prog.only_perform ⟨trivial, id⟩)
  | leave conversation =>
    refine (safe_begin (.leave conversation) (o := .unsubscribe (topicFor conversation userId))
      ⟨userId, rfl⟩ trivial fun h x hx ha => ?_).mono (fun _ _ hw => hw) (fun _ _ _ hw => hw)
      fun _ _ _ _ => trivial
    exact ha.toRunning.ready (ha.revalidated hf) (by rw [hx]; trivial)
  | typing conversation =>
    refine Contract.Safe.bind (safe_authorize hf rfl) fun result => ?_
    cases result with
    | error e => exact safe_ready (Prog.only_perform ⟨trivial, id⟩)
    | ok topic => exact safe_ready (only_redisFailOpen () (Prog.only_perform ⟨trivial, id⟩))
  | ping => exact absurd rfl hf

/-- Acting on a `ping`: the loop is ready again unless the connection is to be closed. -/
theorem safe_onPing {userId : UserId} : (heeding inst settings).Safe t (onPing settings userId)
    (fun w => Acting settings t limiter deadline .ping (w.own t))
    (fun code w => code = none → ReadyAt settings t limiter deadline w) fun _ _ => True := by
  refine Contract.Safe.bind
    (Q := fun _ w => Running settings limiter deadline (w.own t)) ?_ fun _ => ?_
  · refine Contract.Safe.handle (R := fun _ w => Running settings limiter deadline (w.own t)) ?_
      fun e => ?_
    · refine Contract.Safe.bind (safe_begin .ping trivial trivial fun h x hx ha => ?_)
        fun _ _ _ hw => hw
      exact ha.toRunning.cons (by rw [hx]; trivial)
    · split
      · exact fun _ _ hw => hw
      · exact fun _ _ _ => trivial
  · have hrevalidate : (heeding inst settings).Safe t (Prog.perform Op.revalidate : Async _)
        (fun w => Running settings limiter deadline (w.own t))
        (fun code w => code = none → ReadyAt settings t limiter deadline w) fun _ _ => True := by
      refine safe_heeding (P := Running settings limiter deadline)
        (Q := fun code h => code = none → Ready settings t limiter deadline h)
        (fun h _ => due_of_free (o := .revalidate) ⟨id, nofun⟩) ?_
      rintro w c code s - hrunning - rfl
      obtain ⟨ρ, hmark, hdeadline⟩ := hrunning.mark
      refine ⟨⟨⟨ρ, hmark, hdeadline⟩, hrunning.window, hrunning.within,
        List.forall_mem_cons.mpr ⟨fun hne => hne rfl, hrunning.unfinished⟩⟩,
        ⟨rfl, .inl rfl⟩, fun _ => ⟨[], w.own t, rfl, rfl⟩⟩
    refine Contract.Safe.bind (Q := fun code w => code = none →
      ReadyAt settings t limiter deadline w) ?_ fun code => ?_
    · exact safe_dbSession_value (Q := fun code h => code = none →
        Ready settings t limiter deadline h) hrevalidate fun code _ _ hx hr hc => (hr hc).cons hx
    · cases code with
      | some code =>
        refine Contract.Safe.bind (Q := fun _ _ => True) ?_ fun _ _ _ _ => nofun
        exact (safe_free (Prog.only_perform (P := Free) (o := .close code) ⟨id, nofun⟩)).weaken
          fun _ _ _ => trivial
      | none =>
        refine Contract.Safe.bind (Q := fun _ => ReadyAt settings t limiter deadline) ?_
          fun _ _ _ hw _ => hw
        exact (safe_ready (Prog.only_perform (P := Aside) (o := .sendJson .pong)
          ⟨trivial, id⟩)).weaken fun _ _ hw => hw rfl

/-! ### The loop -/

/-- The arrival of a frame is read. -/
theorem safe_arrived : (heeding inst settings).Safe t (Prog.perform Op.monotonic : Async Time)
    (fun w => ∃ old, w.own t = ⟨t, .receive deadline, .ok (.frame f)⟩ :: old ∧
      Ready settings t limiter deadline old)
    (fun now w => Arrived settings t limiter deadline f now (w.own t)) fun _ _ => True := by
  refine safe_heeding (Q := fun now h => Arrived settings t limiter deadline f now h)
    (P := fun h => ∃ old, h = ⟨t, .receive deadline, .ok (.frame f)⟩ :: old ∧
      Ready settings t limiter deadline old)
    (fun h _ => due_of_free (o := .monotonic) ⟨id, nofun⟩) ?_
  rintro w c now s hi ⟨old, hown, hready⟩ hexec
  refine ⟨old, congrArg _ hown, hready, fun x hx => ?_⟩
  -- no arrival lies ahead of the clock, which is what is read
  have hnow : reading (⟨t, .monotonic, .ok now⟩ : Entry T Op Op.Res Exc) = some now := rfl
  rw [reading_of_exec hexec hnow]
  obtain ⟨y, hy, hread⟩ := mem_of_arrivals hx
  have hmem : y ∈ w.own t := by
    rw [hown]
    exact List.mem_cons_of_mem _ hy
  exact hi y (World.mem_own.mp hmem).1 x hread

/-- **The loop.** From a state in which it is ready, every step is due. -/
theorem safe_connectionLoop {userId : UserId} (frames : ℕ) (limiter : FrameRateLimiter)
    (deadline : Time) : (heeding inst settings).Safe t
      (connectionLoop settings userId frames limiter deadline)
      (ReadyAt settings t limiter deadline) (fun _ _ => True) fun _ _ => True := by
  have hclose (code : WSCloseCode) : (heeding inst settings).Safe t
      (Prog.perform (Op.close code) : Async Unit) (fun _ => True) (fun _ _ => True)
      fun _ _ => True := safe_free (Prog.only_perform (P := Free) (o := .close code) ⟨id, nofun⟩)
  induction frames generalizing limiter deadline with
  | zero => exact fun _ _ _ => trivial
  | succ frames ih =>
    refine Contract.Safe.bind (Q := fun _ => ReadyAt settings t limiter deadline) ?_ fun now => ?_
    · exact safe_heeding (P := Ready settings t limiter deadline)
        (Q := fun _ => Ready settings t limiter deadline)
        (fun h _ => due_of_free (o := .monotonic) ⟨id, nofun⟩)
        fun w c v s _ hready _ => hready.reading rfl
    split
    · exact (hclose _).weaken fun _ _ _ => trivial
    refine Contract.Safe.bind (Q := fun received w => ∀ f, received = .frame f →
      ∃ old, w.own t = ⟨t, .receive deadline, .ok (.frame f)⟩ :: old ∧
        Ready settings t limiter deadline old) ?_ fun received => ?_
    · refine safe_heeding (o := .receive deadline) (P := Ready settings t limiter deadline)
        (Q := fun received h => ∀ f, received = .frame f →
          ∃ old, h = ⟨t, .receive deadline, .ok (.frame f)⟩ :: old ∧
            Ready settings t limiter deadline old) (fun h hready => ?_) ?_
      · refine ⟨fun deadline' hd => ?_, fun hb => hb.elim⟩
        cases hd
        exact hready.mark
      · rintro w c _ s - hready - f rfl
        exact ⟨w.own t, rfl, hready⟩
    cases received with
    | timeout => exact (hclose _).weaken fun _ _ _ => trivial
    | disconnect => exact fun _ _ _ => trivial
    | frame f =>
      refine Contract.Safe.bind (safe_arrived.weaken fun w _ hw => hw f rfl) fun now => ?_
      dsimp only
      split
      · exact (hclose _).weaken fun _ _ _ => trivial
      rename_i hlimited
      have hl : (limiter.recordAndCheck now).1 = false := by simpa using hlimited
      split
      · -- a frame that is rejected
        refine Contract.Safe.bind (Q := fun _ =>
          ReadyAt settings t (limiter.recordAndCheck now).2 deadline) ?_ fun _ => ih _ _
        refine safe_heeding (P := Arrived settings t limiter deadline none now)
          (Q := fun _ => Ready settings t (limiter.recordAndCheck now).2 deadline)
          (fun h _ => due_of_aside ⟨trivial, id⟩) fun w c v s _ harrived _ => ?_
        obtain ⟨hrunning, hrevalidated⟩ := harrived.running hl
        exact hrunning.ready (hrevalidated nofun) trivial
      · -- a ping
        refine Contract.Safe.bind (Q := fun now' w => Acting settings t
          (limiter.recordAndCheck now).2 (now' + settings.wsHeartbeatTimeout) .ping (w.own t)) ?_
          fun now' => Contract.Safe.bind safe_onPing fun code => ?_
        · exact safe_heeding (P := Arrived settings t limiter deadline (some .ping) now)
            (Q := fun now' h => Acting settings t
              (limiter.recordAndCheck now).2 (now' + settings.wsHeartbeatTimeout) .ping h)
            (fun h _ => due_of_free (o := .monotonic) ⟨id, nofun⟩)
            fun w c now' s _ harrived _ => harrived.pinged hl now'
        · cases code with
          | some code => exact fun _ _ _ => trivial
          | none => exact (ih _ _).weaken fun _ _ hw => hw rfl
      · rename_i frame hf
        refine Contract.Safe.bind ((safe_onFrame fun he => hf (he ▸ rfl)).weaken
          fun w _ hw => Arrived.acting hw hl) fun _ => ih _ _

/-! ### The endpoint -/

/-- The loop has not begun. -/
def Beginning (h : List (Entry T Op Op.Res Exc)) : Prop := ∀ x ∈ h, Neutral x.op

omit [DecidableEq T] in
theorem Beginning.cons (hh : Beginning h) (hx : Neutral x.op) : Beginning (x :: h) :=
  List.forall_mem_cons.mpr ⟨hx, hh⟩

omit [DecidableEq T] in
theorem Beginning.mark (hh : Beginning h) : mark h = none := by
  induction h with
  | nil => rfl
  | cons x h ih =>
    rw [mark_cons (reading_of_neutral (hh x List.mem_cons_self))]
    exact ih fun y hy => hh y (List.mem_cons_of_mem x hy)

omit [DecidableEq T] in
theorem Beginning.arrivals (hh : Beginning h) : arrivals h = [] := by
  induction h with
  | nil => rfl
  | cons x h ih =>
    rw [arrivals_cons (reading_of_neutral (hh x List.mem_cons_self))]
    exact ih fun y hy => hh y (List.mem_cons_of_mem x hy)

omit [DecidableEq T] in
theorem Beginning.takenIn (hh : Beginning h) : TakenIn h := by
  cases h with
  | nil => trivial
  | cons x h => exact takenIn_of_neutral (hh x List.mem_cons_self)

omit [DecidableEq T] in
/-- The loop begins with the deadline and the limiter of a connection on which nothing came. -/
theorem Beginning.ready (hh : Beginning h) (now : Time) :
    Ready settings t ⟨settings.wsFrameRateLimitMaxFrames, settings.wsFrameRateLimitWindow, []⟩
      (now + settings.wsHeartbeatTimeout) (⟨t, .monotonic, .ok now⟩ :: h) := by
  have ha : Ws.arrivals (⟨t, .monotonic, .ok now⟩ :: h) = [] :=
    hh.takenIn.arrivals_cons.trans hh.arrivals
  refine ⟨⟨⟨now, ?_, rfl⟩, ?_, ?_, ?_⟩, ⟨rfl, .inr hh.takenIn.justReceived⟩, ?_⟩
  · simp [Ws.mark, reading, hh.mark]
  · rw [ha]
    exact ⟨rfl, rfl, .nil, fun x hx => hx, fun _ _ => rfl⟩
  · rw [ha]
    trivial
  · exact List.forall_mem_cons.mpr ⟨id, fun x hx => not_finishes_of_neutral (hh x hx)⟩
  · rintro ⟨x, hx, hping⟩
    rcases List.mem_cons.mp hx with rfl | hx
    · cases hping
    · rw [receivedFrame_of_neutral (hh x hx)] at hping
      cases hping

theorem safe_beginning {p : Async α} (hp : p.Only Aside) :
    (heeding inst settings).Safe t p (fun w => Beginning (w.own t)) (fun _ w => Beginning (w.own t))
      fun _ _ => True :=
  (safe_aside (fun _ _ hx hh => Beginning.cons hh hx) hp).mono (fun _ _ hw => hw)
    (fun _ _ _ hw => hw) fun _ _ _ _ => trivial

theorem safe_authenticateAndAccept : (heeding inst settings).Safe t authenticateAndAccept
    (fun w => Beginning (w.own t)) (fun userId w => userId ≠ none → Beginning (w.own t))
    fun _ _ => True := by
  refine Contract.Safe.bind (Q := fun userId w => userId ≠ none → Beginning (w.own t))
    (Contract.Safe.handle (R := fun _ _ => True) ?_ fun e => ?_) fun userId => ?_
  · refine Contract.Safe.bind (safe_beginning (only_dbSession ?_ ⟨trivial, id⟩ ⟨trivial, id⟩))
      fun _ _ _ hw _ => hw
    exact Prog.only_perform ⟨trivial, id⟩
  · split
    · refine Contract.Safe.bind (Q := fun _ _ => True) ?_ fun _ _ _ _ hne => absurd rfl hne
      exact safe_free (Prog.only_perform (P := Free) (o := .close .authFailed) ⟨id, nofun⟩)
    · exact fun _ _ _ => trivial
  · cases userId with
    | none => exact fun _ _ _ hne => absurd rfl hne
    | some userId =>
      refine Contract.Safe.bind (Q := fun _ w => Beginning (w.own t)) ?_ fun _ _ _ hw _ => hw
      exact (safe_beginning (Prog.only_perform (P := Aside) (o := .accept) ⟨trivial, id⟩)).weaken
        fun _ _ hw => hw nofun

/-- **The endpoint heeds the deadline.** -/
theorem safe_websocketEndpoint_heeding (frames : ℕ) :
    (heeding inst settings).Safe t (websocketEndpoint settings frames)
      (fun w => Beginning (w.own t)) (fun _ _ => True) fun _ _ => True := by
  refine Contract.Safe.bind safe_authenticateAndAccept fun userId => ?_
  cases userId with
  | none => exact fun _ _ _ => trivial
  | some userId =>
    refine Contract.Safe.bind (Q := fun _ w => Beginning (w.own t)) ?_ fun _ => ?_
    · exact (safe_beginning (Prog.only_perform (P := Aside) (o := .register userId)
        ⟨trivial, id⟩)).weaken fun _ _ hw => hw nofun
    have hfin : (heeding inst settings).Safe t
        (do
          Prog.perform Op.unregister
          dbSession (Presence.handleDisconnect userId) : Async Unit)
        (fun _ => True) (fun _ _ => True) fun _ _ => True := by
      refine safe_free (Prog.Only.bind (Prog.only_perform ⟨id, nofun⟩) fun _ =>
        only_dbSession ?_ ⟨id, nofun⟩ ⟨id, nofun⟩)
      exact Presence.only_handleDisconnect ⟨id, nofun⟩ ⟨id, nofun⟩ (fun _ => ⟨id, nofun⟩)
        ⟨id, nofun⟩ fun _ => ⟨id, nofun⟩
    refine Contract.Safe.tryFinally (Q := fun _ _ => True) (R := fun _ _ => True) ?_
      (fun _ => hfin) fun _ => hfin
    refine Contract.Safe.bind (safe_beginning (Prog.only_perform (P := Aside) ⟨trivial, id⟩))
      fun _ => ?_
    refine Contract.Safe.bind (safe_beginning
      (Presence.only_handleConnect ⟨trivial, id⟩ ⟨trivial, id⟩)) fun _ => ?_
    refine Contract.Safe.bind (Q := fun now => ReadyAt settings t
      ⟨settings.wsFrameRateLimitMaxFrames, settings.wsFrameRateLimitWindow, []⟩
      (now + settings.wsHeartbeatTimeout)) ?_ fun now => safe_connectionLoop _ _ _
    exact safe_heeding (P := Beginning) (Q := fun now => Ready settings t
        ⟨settings.wsFrameRateLimitMaxFrames, settings.wsFrameRateLimitWindow, []⟩
        (now + settings.wsHeartbeatTimeout))
      (fun h _ => due_of_free (o := .monotonic) ⟨id, nofun⟩) fun w c now s _ hh _ => hh.ready now

variable {p q q' : Pool T Op Op.Res Exc (Option Bool) (State T I)}
  {ls : List (Label T Choice (WsEvent I))} {o : Op} {c : Choice}
  {k : Except Exc o.Res → Prog Op Op.Res Exc (Option Bool)}

theorem Start.sound_heeding (hp : Start settings task p) :
    (heeding inst settings).Sound (fun _ _ _ => True) (fun _ _ _ => True) p where
  inv x hx := by
    rw [hp.trace] at hx
    cases hx
  safe t := by
    refine ⟨fun w => Beginning (w.own t), .history Beginning, fun x hx => ?_, ?_⟩
    · rw [World.own, hp.trace] at hx
      cases hx
    · rw [hp.prog t]
      cases task t with
      | connection frames =>
        exact (safe_websocketEndpoint_heeding frames).bind fun _ _ _ _ => trivial
      | isOnline userId =>
        have honly : ((Task.isOnline userId).program settings).Only Free := by
          refine Prog.Only.bind (only_redisFailOpen false ?_) fun _ => trivial
          exact (Prog.only_perform ⟨id, by simp⟩).bind fun _ => trivial
        exact (safe_free honly).weaken fun _ _ _ => trivial

/-- The deadline has passed, and no frame is being taken in. -/
def Lapsed (settings : Settings) (t : T) (w : WsWorld T I) : Prop :=
  ∃ ρ, mark (w.own t) = some ρ ∧ ρ + settings.wsHeartbeatTimeout < w.state.clock ∧
    TakenIn (w.own t)

/-- A frame is received before the deadline only. -/
theorem clock_of_receive {s s' : State T I}
    (hexec : (machine inst).exec t (.receive deadline) c s = some (.ok (.frame f), s')) :
    s.clock ≤ deadline := by
  obtain ⟨-, ⟨v, c, hv, hd⟩ | ⟨e, he, -⟩⟩ := exec_eq_some hexec
  · cases hv
    cases c with
    | received r =>
      cases r with
      | timeout =>
        simp only [Op.done] at hd
        split at hd <;> cases hd
      | disconnect =>
        simp only [Op.done] at hd
        split at hd <;> cases hd
      | frame f' =>
        simp only [Op.done] at hd
        split at hd
        · assumption
        · cases hd
    | _ => cases hd
  · cases he

/-- Once the deadline has passed, no frame is received. -/
theorem lapsed_for_good
    (hm : (heeding inst settings).Sound (fun _ _ _ => True) (fun _ _ _ => True) p)
    (hl : Lapsed settings t p.world) (hr : (machine inst).run p ls = some q) :
    ∃ newer, q.world.own t = newer ++ p.world.own t ∧ ∀ x ∈ newer, receivedFrame x = none := by
  refine (hm.invariant (C := .always) (P := fun w => Lapsed settings t w ∧
    ∃ newer, w.own t = newer ++ p.world.own t ∧ ∀ x ∈ newer, receivedFrame x = none)
    (fun _ _ _ _ _ => trivial) (fun _ _ _ => trivial) ?_ ?_ eventsOk_heeding
    ⟨hl, [], rfl, nofun⟩ (Machine.meets_always ls) hr).2.2
  · rintro t' o c r w s ⟨⟨ρ, hmark, hlt, htaken⟩, newer, hown, hnew⟩ - hexec hdue
    by_cases ht : t' = t
    · subst ht
      have hframe : receivedFrame (⟨t', o, r⟩ : Entry T Op Op.Res Exc) = none := by
        by_contra hne
        obtain ⟨f, hf⟩ := Option.ne_none_iff_exists'.mp hne
        unfold receivedFrame at hf
        split at hf
        · rename_i h
          cases h
          -- the deadline awaited is the one that has passed
          obtain ⟨ρ', hmark', rfl⟩ := hdue.receive _ rfl
          cases hmark.symm.trans hmark'
          exact absurd (clock_of_receive hexec) (Nat.not_le.mpr hlt)
        · cases hf
      refine ⟨⟨ρ, ?_, ?_, ?_⟩, ⟨t', o, r⟩ :: newer, ?_, List.forall_mem_cons.mpr ⟨hframe, hnew⟩⟩
      · rw [World.own_after]
        exact (htaken.mark_cons hmark).trans hmark
      · rw [World.after_state, clock_of_exec hexec]
        exact hlt
      · rw [World.own_after]
        exact htaken.cons hframe
      · rw [World.own_after, hown]
        rfl
    · rw [World.own_after_of_ne ht]
      refine ⟨⟨ρ, ?_, ?_, ?_⟩, newer, hown, hnew⟩
      · rw [World.own_after_of_ne ht]
        exact hmark
      · rw [World.after_state, clock_of_exec hexec]
        exact hlt
      · rw [World.own_after_of_ne ht]
        exact htaken
  · rintro ev w s ⟨⟨ρ, hmark, hlt, htaken⟩, hrest⟩ hexec
    refine ⟨⟨ρ, hmark, ?_, htaken⟩, hrest⟩
    cases hexec
    cases ev with
    | tick ms => exact Nat.lt_of_lt_of_le hlt (Nat.le_add_right _ _)
    | crash i => exact hlt
    | wipe => exact hlt
    | save => exact hlt
    | restart => exact hlt

/-- The frame that `t` acts on with `o`, at the end of the run. -/
structure Heeded (inst : T → I) (settings : Settings)
    (p : Pool T Op Op.Res Exc (Option Bool) (State T I)) (ls : List (Label T Choice (WsEvent I)))
    (t : T) (o : Op) (w : WsWorld T I) (f : ClientFrame) (deadline : Time)
    (old : List (Entry T Op Op.Res Exc)) (w₁ : WsWorld T I) : Prop where
  /-- It is the last frame received, -/
  took : Took t f deadline old (w.own t)
  actsOn : ActsOn f o
  /-- in `w₁`, -/
  performed : (machine inst).Performed p ls t ⟨t, .receive deadline, .ok (.frame (some f))⟩ old w₁
  /-- within the timeout of the connect or of the last `ping`. -/
  inTime : ∃ ρ, mark old = some ρ ∧ w₁.state.clock ≤ ρ + settings.wsHeartbeatTimeout
  /-- If it is no `ping` and there was one, a revalidation succeeded at most the timeout ago. -/
  revalidated : f ≠ .ping → Pinged old → ∃ newer older w₂,
    old = newer ++ ⟨t, .revalidate, .ok none⟩ :: older ∧
      (machine inst).Performed p ls t ⟨t, .revalidate, .ok none⟩ older w₂ ∧
      w₁.state.clock ≤ w₂.state.clock + settings.wsHeartbeatTimeout
  /-- No revalidation had failed, -/
  unfinished : ∀ x ∈ old, ¬Finishes x
  /-- no frame up to this one was over the limit, -/
  withinLimit : WithinLimit settings (arrivals (w.own t))
  /-- and the deadline had not passed before. -/
  unlapsed : ∀ ls₁ ls₂ m, ls = ls₁ ++ ls₂ → (machine inst).run p ls₁ = some m →
    m.world.own t <:+ old → ¬Lapsed settings t m.world

/-- **Whenever a connection acts on a frame, the frame came in time, and nothing had ended the
connection.** -/
theorem revalidation_bound (hp : Start settings task p) (hr : (machine inst).run p ls = some q)
    (hcall : q.prog t = .call o k) (ho : Begins o)
    (hstep : (machine inst).step q (.proc t c) = some q') :
    ∃ f deadline old w₁, Heeded inst settings p ls t o q.world f deadline old w₁ := by
  have hsound {ls q} (hr : (machine inst).run p ls = some q) :=
    hp.sound_heeding.run (K := heeding inst settings) eventsOk_heeding (Machine.meets_always ls) hr
  have hown₀ : p.world.own t = [] := by
    rw [World.own, hp.trace]
    rfl
  obtain ⟨o', k', r, s, hcall', -, -, hdue⟩ :=
    (hsound hr).guar (K := heeding inst settings) (fun _ _ _ => trivial) hstep
  obtain ⟨rfl, -⟩ := Prog.call.inj (hcall.symm.trans hcall')
  obtain ⟨f, deadline, old, ⟨readings, hown, hreadings⟩, hacts, hrevalidated, hold, hwithin⟩ :=
    hdue.act ho
  obtain ⟨w₁, hw₁⟩ := Machine.performed_of_own hown₀ hr hown
  -- the receipt was due, so it awaited the deadline in force
  obtain ⟨c₁, s₁, hexec₁⟩ := hw₁.exec
  have hmark : ∃ ρ, mark old = some ρ ∧ deadline = ρ + settings.wsHeartbeatTimeout := by
    obtain ⟨ls₁, c, ls₂, m, m', -, hm, hs, rfl, hown₁, hown₁'⟩ := hw₁
    obtain ⟨o₁, k₁, r₁, s', -, -, rfl, hdue₁⟩ :=
      (hsound hm).guar (K := heeding inst settings) (fun _ _ _ => trivial) hs
    have hentry := (World.own_after.symm.trans hown₁')
    rw [hown₁] at hentry
    cases hentry
    rw [← hown₁]
    exact hdue₁.receive _ rfl
  obtain ⟨ρ, hmark, hdeadline⟩ := hmark
  have hclock : w₁.state.clock ≤ ρ + settings.wsHeartbeatTimeout := by
    rw [← hdeadline]
    exact clock_of_receive hexec₁
  refine ⟨f, deadline, old, w₁, ⟨readings, hown, hreadings⟩, hacts, hw₁, ⟨ρ, hmark, hclock⟩,
    fun hf hpinged => ?_, hold, hwithin, ?_⟩
  · obtain ⟨newer, older, rfl, hmark₂⟩ := hrevalidated hf hpinged
    have hown₂ : q.world.own t = (readings ++
        ⟨t, .receive deadline, .ok (.frame (some f))⟩ :: newer) ++
          ⟨t, .revalidate, .ok none⟩ :: older := by
      rw [hown, List.append_assoc]
      rfl
    obtain ⟨w₂, hw₂⟩ := Machine.performed_of_own hown₀ hr hown₂
    refine ⟨newer, older, w₂, rfl, hw₂, Nat.le_trans hclock (Nat.add_le_add_right ?_ _)⟩
    -- the mark was read before the revalidation
    obtain ⟨x, hx, hread⟩ := mem_of_mark (hmark₂.trans hmark)
    obtain ⟨ls₁, c, ls₂, m, m', -, hm, -, rfl, hown₂, -⟩ := hw₂
    rw [← hown₂] at hx
    exact (hsound hm).inv x (World.mem_own.mp hx).1 ρ hread
  · rintro ls₁ ls₂ m rfl hm ⟨between, hbetween⟩ hl
    rw [Machine.run_append, hm] at hr
    obtain ⟨newer, hown', hnew⟩ := lapsed_for_good (hsound hm) hl hr
    have hsplit : newer = readings ++
        ⟨t, .receive deadline, .ok (.frame (some f))⟩ :: between := by
      apply List.append_cancel_right (hown'.symm.trans _)
      rw [hown, ← hbetween, List.append_assoc]
      rfl
    have hnone := hnew ⟨t, .receive deadline, .ok (.frame (some f))⟩ (by rw [hsplit]; simp)
    cases hnone

/-- One connection, for two frames. -/
def oneTab : Pool ℕ Op Op.Res Exc (Option Bool) (State ℕ ℕ) where
  world := ⟨.initial 0 fun _ => none, []⟩
  prog _ := (Task.connection 2).program defaults

/-- The connection opens, is revalidated on a `ping`, and receives a `join` two seconds later. -/
def pingThenJoin : List (Label ℕ Choice (WsEvent ℕ)) :=
  .proc 0 (.authenticated 7) :: List.replicate 9 (.proc 0 .ok) ++
    [.event (.tick 1000), .proc 0 (.received (.frame (some .ping))), .proc 0 .ok, .proc 0 .ok,
      .proc 0 .ok, .proc 0 (.revalidated none)] ++ List.replicate 4 (.proc 0 .ok) ++
    [.event (.tick 2000), .proc 0 (.received (.frame (some (.join (.channel 3))))), .proc 0 .ok]

theorem revalidation_bound_join : ∃ q q', (machine (I := ℕ) id).run oneTab pingThenJoin = some q ∧
    (machine (I := ℕ) id).step q (.proc 0 (.authorized (.ok (.chan 3)))) = some q' ∧
    ∃ f deadline old w₁, Heeded id {} oneTab pingThenJoin 0 (.authorizeConversation (.channel 3) 7)
      q.world f deadline old w₁ := by
  obtain ⟨q, hq⟩ : ∃ q, (machine (I := ℕ) id).run oneTab pingThenJoin = some q :=
    Option.isSome_iff_exists.mp (by decide +kernel)
  have hnext : ((machine (I := ℕ) id).run oneTab pingThenJoin).any (fun q =>
      decide ((q.prog 0).next = some (.authorizeConversation (.channel 3) 7)) &&
        ((machine (I := ℕ) id).step q (.proc 0 (.authorized (.ok (.chan 3))))).isSome) = true := by
    decide +kernel
  rw [hq, Option.any_some, Bool.and_eq_true, decide_eq_true_eq] at hnext
  obtain ⟨hcall, hstep⟩ := hnext
  obtain ⟨k, hk⟩ := Prog.call_of_next hcall
  obtain ⟨q', hq'⟩ := Option.isSome_iff_exists.mp hstep
  have hp : Start {} (fun _ => Task.connection 2) oneTab :=
    ⟨⟨0, fun _ => none, rfl⟩, rfl, fun _ => rfl⟩
  exact ⟨q, q', hq, hq', revalidation_bound hp hq hk trivial hq'⟩

end Chatspace.Ws
