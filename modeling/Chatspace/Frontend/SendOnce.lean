import Chatspace.Frontend.HistoryIsolation
import Chatspace.Services.Authorship
import Chatspace.Ws.Wire

/-!
# What is typed once is stored once

`useMessageHistory.ts` with the server behind it.  A send or a retry makes a request; any number of
processes may serve it, none or several (the request or the answer was lost, or `httpClient` made it
again), step by step with those of the others and failing at any await; an answer comes at any time,
or a failure, whatever the server has done.

* `rows_asked` — the server's side: a row is what the send that generated its id has asked for;
* `Entry`, `Tab`, `Tab.step` — a message that was typed; the hook, the server, and what was typed;
* `Accounted` — what holds of them in every state;
* `pendingIds_step` — a pending row stays until it is answered or given up;
* `sends_stored_once` — **every message that was typed is stored at most once, as it was typed; and
  one that is no longer pending is stored, unless the user has discarded it, reloaded the history or
  gone to another conversation.**
-/

namespace Chatspace.SendOnce

open Interleave Store Messages IdempotentSend Frontend

/-! ### The server stores what it is asked to -/

section Server

variable {T : Type} [DecidableEq T] {hash : RawToken → TokenHash} {call : T → SendCall}
  {w₀ w w' : BackendWorld T} {t : T} {m : MessageId} {s : State T} {o : Op} {r : Except Exc o.Res}

/-- The send that generated the id has asked for the row. -/
def AskedBy (call : T → SendCall) (w : BackendWorld T) (t : T) (m : MessageId) (x : Message) :
    Prop :=
  Generated w t m ∧ ∃ now, x = Authorship.posted (call t) now

/-- A row that was not there at the start, committed or not, is one that was asked for. -/
structure RowsAsked (call : T → SendCall) (w₀ w : BackendWorld T) : Prop where
  committed : ∀ m x, row w m = some x → row w₀ m = some x ∨ ∃ t, AskedBy call w t m x
  pending : ∀ m t v, (w.state.db .messages).hold m = some ⟨t, some v⟩ →
    ∃ x, v = some x ∧ AskedBy call w t m x

def asking (hash : RawToken → TokenHash) (call : T → SendCall) (w₀ : BackendWorld T) :
    Contract (machine T hash) where
  inv := RowsAsked call w₀
  pre := .always
  guar _ _ _ _ _ := True

omit [DecidableEq T] in
theorem AskedBy.after {t' : T} {x : Message} (h : AskedBy call w t m x) :
    AskedBy call (w.after t' o r s) t m x :=
  ⟨h.1.after t' o r s, h.2⟩

omit [DecidableEq T] in
theorem RowsAsked.of_eq (h : RowsAsked call w₀ w) (hs : s.db .messages = w.state.db .messages) :
    RowsAsked call w₀ (w.after t o r s) where
  committed m x hx := by
    unfold row at hx
    rw [World.after_state, hs] at hx
    exact (h.committed m x hx).imp_right fun hasked => hasked.imp fun _ => AskedBy.after
  pending m t' v hv := by
    rw [World.after_state, hs] at hv
    obtain ⟨x, hx, hasked⟩ := h.pending m t' v hv
    exact ⟨x, hx, hasked.after⟩

/-- What a send that has generated id `m` may do: anything that writes no message, and the insert of
the row it was asked for. -/
def Asks (call : SendCall) (m : MessageId) (o : Op) : Prop :=
  Leaves .messages o ∨ o = .sql (.insert .messages m (Authorship.posted call))

theorem RowsAsked.leaves (h : RowsAsked call w₀ w) (ho : Leaves .messages o) {ch : Choice}
    (hx : (machine T hash).exec t o ch w.state = some (r, s)) :
    RowsAsked call w₀ (w.after t o r s) := by
  rcases ho.spares with hspares | rfl | rfl
  · exact h.of_eq (exec_spares hspares hx)
  · rcases exec_commitAll hx with ⟨rfl, -⟩ | ⟨rfl, -⟩
    · exact h.of_eq rfl
    refine ⟨fun m x hrow => ?_, fun m t' v hv => ?_⟩
    · have hview : (w.state.db .messages).view t m = some x := hrow
      rcases (w.state.db .messages).view_cases t m with heq | ⟨v, hhold, hv⟩
      · exact (h.committed m x (heq.symm.trans hview)).imp_right
          fun hasked => hasked.imp fun _ => AskedBy.after
      · obtain ⟨y, rfl, hasked⟩ := h.pending m t v hhold
        obtain rfl := Option.some.inj (hv.symm.trans hview)
        exact .inr ⟨t, hasked.after⟩
    · obtain ⟨x, hx, hasked⟩ := h.pending m t' v (Table.release_eq_some hv).1
      exact ⟨x, hx, hasked.after⟩
  · rcases exec_rollbackAll hx with ⟨rfl, -⟩ | ⟨rfl, -⟩
    · exact h.of_eq rfl
    refine ⟨fun m x hrow => ?_, fun m t' v hv => ?_⟩
    · exact (h.committed m x hrow).imp_right fun hasked => hasked.imp fun _ => AskedBy.after
    · obtain ⟨x, hx, hasked⟩ := h.pending m t' v (Table.release_eq_some hv).1
      exact ⟨x, hx, hasked.after⟩

theorem step_leaves (ho : Leaves .messages o) :
    (asking hash call w₀).StepOk t (fun _ => True) o fun _ _ => True :=
  fun _ _ _ _ hi _ _ hx => ⟨hi.leaves ho hx, trivial, trivial⟩

/-- A send inserts the row it was asked for, under the id it has generated. -/
theorem step_asks (ho : Asks (call t) m o) :
    (asking hash call w₀).StepOk t (fun w => Generated w t m) o fun _ w => Generated w t m := by
  intro w ch r s hi hgen _ hx
  refine ⟨?_, trivial, hgen.after ..⟩
  rcases ho with ho | rfl
  · exact hi.leaves ho hx
  rcases exec_insertTable hx with ⟨rfl, -⟩ | ⟨now, -, -, rfl, -⟩
  · exact hi.of_eq rfl
  refine ⟨fun m' x hrow => ?_, fun m' t' v hv => ?_⟩
  · unfold row at hrow
    rw [World.after_state, State.set_db, Table.committed_write] at hrow
    exact (hi.committed m' x hrow).imp_right fun hasked => hasked.imp fun _ => AskedBy.after
  · rw [World.after_state, State.set_db] at hv
    by_cases hm : m' = m
    · subst hm
      rw [Table.hold_write_self] at hv
      cases hv
      exact ⟨_, rfl, hgen.after .., now, rfl⟩
    · rw [Table.hold_write_of_ne hm] at hv
      obtain ⟨x, hx, hasked⟩ := hi.pending m' t' v hv
      exact ⟨x, hx, hasked.after⟩

theorem stable_generated : (asking hash call w₀).Stable t fun w => Generated w t m := by
  intro w w' _ _ ho hgen
  cases ho with
  | proc hne hpre hexec hguar => exact hgen.after ..
  | event hpre hexec => exact hgen

theorem safe_leaves {α : Type} {p : Py α} (hp : p.Only (Leaves .messages)) :
    (asking hash call w₀).Safe t p (fun _ => True) (fun _ _ => True) fun _ _ => True :=
  Contract.Safe.only hp (.const True) fun _ => step_leaves

theorem safe_claimAndPersist {senderId : UserId} {key : Text} {mediaIds : List AttachmentId} :
    (asking hash call w₀).Safe t
      (claimAndPersistMessage senderId key mediaIds (Authorship.posted (call t))) (fun _ => True)
      (fun _ _ => True) fun _ _ => True := by
  refine Contract.Safe.await (fun m w => Generated w t m) (fun _ => stable_generated)
    (fun _ => .const True) (fun w ch r s hi _ _ hx => ?_) fun m => ?_
  · refine ⟨hi.leaves trivial hx, trivial, ?_⟩
    cases r with
    | error e => trivial
    | ok m => exact List.mem_cons_self
  · exact (Contract.Safe.only (Authorship.only_claimRounds (P := Asks (call t) m) (.inr rfl)
      (fun _ _ _ => .inl nofun) (fun _ ho => .inl (ho .messages)) _) stable_generated
      fun _ => step_asks).mono (fun _ _ hw => hw) (fun _ _ _ _ => trivial) fun _ _ _ _ => trivial

theorem safe_send : (asking hash call w₀).Safe t (call t).send (fun _ => True) (fun _ _ => True)
    fun _ _ => True := by
  have hresolve : ∀ u key, (resolveExistingClaim u key).Only (Leaves .messages) :=
    only_resolveExistingClaim (fun _ _ => trivial) (fun _ _ => trivial) (fun _ => trivial) trivial
      trivial
  have hmedia : ∀ mediaIds u, (validateAndLoadMedia mediaIds u).Only (Leaves .messages) :=
    only_validateAndLoadMedia fun _ _ => trivial
  unfold SendCall.send
  split
  all_goals
    rename_i htarget
    refine Contract.Safe.bind (safe_leaves (hresolve _ _)) fun resolved => ?_
    cases resolved with
    | some x => exact fun _ _ _ => trivial
    | none => ?_
  · refine Contract.Safe.bind (safe_leaves
      (only_ensureChannelAndMembership (fun _ _ => trivial) _ _)) fun _ => ?_
    show Contract.Safe _ _ (if _ then _ else _) _ _ _
    split
    · exact fun _ _ _ => trivial
    · refine Contract.Safe.bind (safe_leaves (hmedia _ _)) fun _ => ?_
      rw [← Authorship.posted_channel htarget]
      exact safe_claimAndPersist
  · refine Contract.Safe.bind (safe_leaves (only_rejectSelfDm _ _)) fun _ => ?_
    refine Contract.Safe.bind (safe_leaves
      (only_ensureActiveRecipientExists (fun _ _ => trivial) _)) fun _ => ?_
    show Contract.Safe _ _ (if _ then _ else _) _ _ _
    split
    · exact fun _ _ _ => trivial
    · refine Contract.Safe.bind (safe_leaves (hmedia _ _)) fun _ => ?_
      rw [← Authorship.posted_dm htarget]
      exact safe_claimAndPersist

theorem safe_request : (asking hash call w₀).Safe t (call t).request (fun _ => True)
    (fun _ _ => True) fun _ _ => True := by
  refine Py.safe_outcome safe_send fun r => ?_
  have hclose : (Py.closeSession r).Only (Leaves .messages) :=
    Py.only_closeSession (fun _ _ => trivial) trivial
  exact (safe_leaves hclose).mono (fun _ _ _ => trivial) (fun _ _ _ _ => trivial)
    fun _ _ _ _ => trivial

/-- **The rows of a run are what was asked for.** -/
theorem rows_asked {p₀ p : SendPool T} {ls : List (Label T Choice Tick)} (h₀ : Start call p₀)
    (hp : (machine T hash).run p₀ ls = some p) : RowsAsked call p₀.world p.world := by
  have hsound : (asking hash call p₀.world).Sound (fun _ _ _ => True) (fun _ _ _ => True) p₀ := by
    refine ⟨⟨fun m x hx => .inl hx, fun m t v hv => ?_⟩, fun t => ⟨fun _ => True, .const True,
      trivial, ?_⟩⟩
    · rw [h₀.hold] at hv
      cases hv
    · rw [h₀.prog]
      exact safe_request
  refine (hsound.run (fun e w s hi _ hx => ?_) (Machine.meets_always ls) hp).inv
  cases hx
  exact ⟨hi.committed, hi.pending⟩

end Server

/-! ### The hook -/

/-- A message that was typed: where, and with the ids it was given. -/
structure Entry where
  target : ConversationTarget
  tempId : Text
  content : Text
  mediaIds : List Text
  idempotencyKey : Text
deriving DecidableEq

/-- What it is sent with, each time. -/
def Entry.request (x : Entry) : Request :=
  .performSend x.target x.tempId x.content x.mediaIds x.idempotencyKey

/-- What the row stands for while the hook is in this conversation. -/
def entryOf (target : ConversationTarget) (pending : PendingSend) : Entry :=
  ⟨target, pending.id, pending.content, pending.mediaIds, pending.idempotencyKey⟩

/-- The entry that a call of `sendMessage` adds. -/
def typedBy (s : MessageHistory) : HistoryEvent → Option Entry
  | .sendMessage content mediaIds tempId idempotencyKey _ =>
    if TextChecks.validateMessageContent content = none ∧ s.currentUserId ≠ none then
      s.target.map fun target => ⟨target, tempId, content, mediaIds, idempotencyKey⟩
    else none
  | _ => none

def pendingIds (s : MessageHistory) : List Text := s.pendingSends.map PendingSend.id

/-- What is pending and what is asked for was typed. -/
structure Backed (typed : List Entry) (s : MessageHistory) : Prop where
  pending : ∀ p ∈ s.pendingSends, ∃ target, s.target = some target ∧ entryOf target p ∈ typed
  requests : ∀ x : Entry, x.request ∈ s.requests → x ∈ typed

variable {s s' : MessageHistory} {typed typed' : List Entry} {home : Text → ConversationTarget}
  {e : HistoryEvent} {x : Entry}

theorem Entry.request_inj {y : Entry} (h : x.request = y.request) : x = y := by
  cases x
  cases y
  cases h
  rfl

theorem Backed.mono (h : Backed typed s) (hsub : ∀ x ∈ typed, x ∈ typed') : Backed typed' s where
  pending p hp := by
    obtain ⟨target, htarget, hmem⟩ := h.pending p hp
    exact ⟨target, htarget, hsub _ hmem⟩
  requests x hx := hsub x (h.requests x hx)

/-- Nothing new is pending, and nothing new is asked for with a send. -/
theorem Backed.of_sub (h : Backed typed s) (htarget : s'.target = s.target)
    (hpending : ∀ p' ∈ s'.pendingSends, ∃ p ∈ s.pendingSends, ∀ target,
      entryOf target p' = entryOf target p)
    (hrequests : ∀ x : Entry, x.request ∈ s'.requests → x.request ∈ s.requests) :
    Backed typed s' where
  pending p' hp' := by
    obtain ⟨p, hp, heq⟩ := hpending p' hp'
    obtain ⟨target, hs, hmem⟩ := h.pending p hp
    exact ⟨target, htarget.trans hs, heq target ▸ hmem⟩
  requests x hx := h.requests x (hrequests x hx)

theorem backed_runEffect (h : Backed typed s) (target : Option ConversationTarget) :
    Backed typed (s.runEffect target) where
  pending p hp := nomatch hp
  requests x hx := by
    rcases List.mem_append.mp hx with hx | hx
    · obtain ⟨request, hrequest, heq⟩ := List.mem_map.mp hx
      cases request with
      | performSend target tempId content mediaIds key =>
        have hsame : Request.performSend target tempId content mediaIds key = x.request := heq
        rw [hsame] at hrequest
        exact h.requests x hrequest
      | initialLoad => cases heq
      | loadOlder => cases heq
      | editMessage => cases heq
      | deleteMessage => cases heq
    · obtain ⟨target', -, heq⟩ := List.mem_map.mp hx
      cases heq

theorem backed_setTarget (h : Backed typed s) (target : Option ConversationTarget) :
    Backed typed (s.setTarget target) := by
  unfold MessageHistory.setTarget
  split
  · rename_i hkey
    obtain rfl := targetKeyOf_inj.mp hkey
    exact ⟨h.pending, h.requests⟩
  · exact backed_runEffect h target

/-- One more request that is no send. -/
theorem requests_append {requests : List Request} {request : Request}
    (hrequest : ∀ x : Entry, x.request ≠ request) (hx : x.request ∈ requests ++ [request]) :
    x.request ∈ requests := by
  rcases List.mem_append.mp hx with hx | hx
  · exact hx
  · exact absurd (List.mem_singleton.mp hx) (hrequest x)

theorem backed_loadOlder (h : Backed typed s) : Backed typed s.loadOlder := by
  unfold MessageHistory.loadOlder
  split
  · split
    · exact h
    · exact h.of_sub rfl (fun p hp => ⟨p, hp, fun _ => rfl⟩) fun x hx =>
        requests_append (fun y h => by cases h) hx
  · exact h

theorem backed_editMessage (h : Backed typed s) (messageId content : Text) :
    Backed typed (s.editMessage messageId content) := by
  unfold MessageHistory.editMessage
  split
  · exact h.of_sub rfl (fun p hp => ⟨p, hp, fun _ => rfl⟩) fun x hx => hx
  · exact h.of_sub rfl (fun p hp => ⟨p, hp, fun _ => rfl⟩) fun x hx =>
        requests_append (fun y h => by cases h) hx

@[simp] theorem pendingSends_performSend (tempId content : Text) (mediaIds : List Text)
    (key : Text) :
    (s.performSend tempId content mediaIds key).pendingSends = s.pendingSends := by
  unfold MessageHistory.performSend
  split <;> rfl

theorem backed_performSend (h : Backed typed s) (hentry : ∀ target, s.target = some target →
      ⟨target, x.tempId, x.content, x.mediaIds, x.idempotencyKey⟩ ∈ typed) :
    Backed typed (s.performSend x.tempId x.content x.mediaIds x.idempotencyKey) := by
  unfold MessageHistory.performSend
  split
  · exact h
  · rename_i current hcurrent
    refine ⟨h.pending, fun y hy => ?_⟩
    rcases List.mem_append.mp hy with hy | hy
    · exact h.requests y hy
    · obtain rfl : y = ⟨current, x.tempId, x.content, x.mediaIds, x.idempotencyKey⟩ :=
        Entry.request_inj (List.mem_singleton.mp hy)
      exact hentry current hcurrent

theorem backed_retrySend (h : Backed typed s) (tempId : Text) :
    Backed typed (s.retrySend tempId) := by
  unfold MessageHistory.retrySend
  split
  · exact h
  · rename_i pending hfind
    have hid : pending.id = tempId := by simpa using List.find?_some hfind
    have hmarked : Backed typed { s with pendingSends := s.pendingSends.map fun candidate =>
        if candidate.id = tempId then candidate.resend else candidate } := by
      refine h.of_sub rfl (fun p' hp' => ?_) fun x hx => hx
      obtain ⟨p, hp, rfl⟩ := List.mem_map.mp hp'
      refine ⟨p, hp, fun target => ?_⟩
      split <;> rfl
    -- the request is the one the row was typed with
    refine backed_performSend (x := ⟨.channel [], tempId, pending.content, pending.mediaIds,
      pending.idempotencyKey⟩) hmarked fun target htarget => ?_
    obtain ⟨target', htarget', hmem⟩ := h.pending pending (List.mem_of_find?_eq_some hfind)
    obtain rfl := Option.some.inj (htarget.symm.trans htarget')
    rw [← hid]
    exact hmem

theorem backed_sendMessage (h : Backed typed s) (content : Text) (mediaIds : List Text)
    (tempId key createdAt : Text) :
    Backed (typed ++ (typedBy s (.sendMessage content mediaIds tempId key createdAt)).toList)
      (s.sendMessage content mediaIds tempId key createdAt) := by
  have hmono : Backed (typed ++ (typedBy s (.sendMessage content mediaIds tempId key
      createdAt)).toList) s := h.mono fun _ => List.mem_append_left _
  unfold MessageHistory.sendMessage
  split
  · exact hmono.of_sub rfl (fun p hp => ⟨p, hp, fun _ => rfl⟩) fun x hx => hx
  rename_i hvalid
  dsimp only
  split
  · exact hmono.of_sub rfl (fun p hp => ⟨p, hp, fun _ => rfl⟩) fun x hx => hx
  · rename_i hsigned
    obtain ⟨huser, htarget⟩ := not_or.mp hsigned
    obtain ⟨target, htarget⟩ := Option.ne_none_iff_exists'.mp htarget
    have htyped : typedBy s (.sendMessage content mediaIds tempId key createdAt) =
        some ⟨target, tempId, content, mediaIds, key⟩ := by
      rw [typedBy, if_pos ⟨hvalid, huser⟩, htarget]
      rfl
    have hnew : (⟨target, tempId, content, mediaIds, key⟩ : Entry) ∈
        typed ++ (typedBy s (.sendMessage content mediaIds tempId key createdAt)).toList := by
      rw [htyped]
      simp
    refine backed_performSend (x := ⟨target, tempId, content, mediaIds, key⟩) ⟨fun p hp => ?_,
      hmono.requests⟩ fun target' htarget' => ?_
    · rcases List.mem_append.mp hp with hp | hp
      · exact hmono.pending p hp
      · obtain rfl := List.mem_singleton.mp hp
        exact ⟨target, htarget, hnew⟩
    · obtain rfl := Option.some.inj (htarget.symm.trans htarget')
      exact hnew

theorem backed_complete (h : Backed typed s) (request : Request) (answer : Answer) :
    Backed typed (s.complete request answer) := by
  have hsame : ∀ {s' : MessageHistory}, s'.target = s.target →
      s'.pendingSends = s.pendingSends → s'.requests = s.requests → Backed typed s' := by
    intro s' htarget hpending hrequests
    refine h.of_sub htarget (fun p hp => ⟨p, hpending ▸ hp, fun _ => rfl⟩) fun x hx => ?_
    rw [← hrequests]
    exact hx
  unfold MessageHistory.complete
  split
  · split
    · exact h
    · exact hsame rfl rfl rfl
  · split
    · exact h
    · exact hsame rfl rfl rfl
  · exact hsame rfl rfl rfl
  · exact hsame rfl rfl rfl
  · exact h.of_sub rfl (fun p hp => ⟨p, List.mem_of_mem_filter hp, fun _ => rfl⟩) fun x hx => hx
  · refine h.of_sub rfl (fun p' hp' => ?_) fun x hx => hx
    obtain ⟨p, hp, rfl⟩ := List.mem_map.mp hp'
    refine ⟨p, hp, fun target => ?_⟩
    split <;> rfl
  · exact hsame rfl rfl rfl
  · split
    · exact h
    · exact hsame rfl rfl rfl
  · exact hsame rfl rfl rfl
  · exact hsame rfl rfl rfl
  · exact h

/-- **Whatever happens to the hook, what it sends was typed.** -/
theorem backed_step (h : Backed typed s) (hstep : s.step home e = some s') :
    Backed (typed ++ (typedBy s e).toList) s' := by
  have hmono : Backed (typed ++ (typedBy s e).toList) s := h.mono fun _ => List.mem_append_left _
  cases e with
  | setTarget target =>
    cases hstep
    exact backed_setTarget hmono target
  | render =>
    cases hstep
    exact hmono.of_sub rfl (fun p hp => ⟨p, hp, fun _ => rfl⟩) fun x hx => hx
  | retryInitialLoad =>
    cases hstep
    exact backed_runEffect hmono s.target
  | loadOlder =>
    cases hstep
    exact backed_loadOlder hmono
  | sendMessage content mediaIds tempId key createdAt =>
    cases hstep
    exact backed_sendMessage h content mediaIds tempId key createdAt
  | retrySend tempId =>
    cases hstep
    exact backed_retrySend hmono tempId
  | discardFailedSend tempId =>
    cases hstep
    exact hmono.of_sub rfl (fun p hp => ⟨p, List.mem_of_mem_filter hp, fun _ => rfl⟩)
      fun x hx => hx
  | editMessage messageId content =>
    cases hstep
    exact backed_editMessage hmono messageId content
  | deleteMessage messageId =>
    cases hstep
    exact hmono.of_sub rfl (fun p hp => ⟨p, hp, fun _ => rfl⟩) fun x hx =>
        requests_append (fun y h => by cases h) hx
  | answer k answer =>
    unfold MessageHistory.step at hstep
    have hless : Backed (typed ++ (typedBy s (.answer k answer)).toList)
        { s with requests := s.requests.eraseIdx k } :=
      hmono.of_sub rfl (fun p hp => ⟨p, hp, fun _ => rfl⟩) fun x hx => List.mem_of_mem_eraseIdx hx
    cases hrequest : s.requests[k]? with
    | none => simp [hrequest] at hstep
    | some request =>
      simp only [hrequest] at hstep
      split at hstep
      · cases hstep
        exact backed_complete hless request answer
      · cases hstep

/-! ### What is pending -/

/-- The event is a message in answer to a send. -/
def answersSend (s : MessageHistory) : HistoryEvent → Bool
  | .answer k (.message _) =>
    match s.requests[k]? with
    | some (.performSend ..) => true
    | _ => false
  | _ => false

/-- The event may take the row away: the user discards it, or the effect empties the list. -/
def givesUp (tempId : Text) : HistoryEvent → Bool
  | .setTarget _ | .retryInitialLoad => true
  | .discardFailedSend discarded => discarded = tempId
  | _ => false

/-- The rows are changed and not taken away. -/
theorem ids_map {rows : List PendingSend} {f : PendingSend → PendingSend}
    (hf : ∀ p, (f p).id = p.id) : (rows.map f).map PendingSend.id = rows.map PendingSend.id := by
  rw [List.map_map]
  exact List.map_congr_left fun p _ => hf p

theorem pendingIds_complete {request : Request} {answer : Answer}
    (hsend : ∀ target tempId content mediaIds key message,
      request = .performSend target tempId content mediaIds key → answer ≠ .message message) :
    pendingIds (s.complete request answer) = pendingIds s := by
  unfold MessageHistory.complete
  split
  · split <;> rfl
  · split <;> rfl
  · rfl
  · rfl
  · exact absurd rfl (hsend _ _ _ _ _ _ rfl)
  · refine ids_map fun p => ?_
    split <;> rfl
  · rfl
  · split <;> rfl
  · rfl
  · rfl
  · rfl

/-- **A pending row stays until its send is answered or it is given up.** -/
theorem pendingIds_step (hanswer : answersSend s e = false) (hstep : s.step home e = some s')
    {tempId : Text} (hpending : tempId ∈ pendingIds s) :
    tempId ∈ pendingIds s' ∨ givesUp tempId e = true := by
  cases e with
  | setTarget target => exact .inr rfl
  | render =>
    cases hstep
    exact .inl hpending
  | retryInitialLoad => exact .inr rfl
  | loadOlder =>
    cases hstep
    refine .inl ?_
    unfold MessageHistory.loadOlder
    split
    · split <;> exact hpending
    · exact hpending
  | sendMessage content mediaIds id key createdAt =>
    cases hstep
    refine .inl ?_
    unfold MessageHistory.sendMessage
    split
    · exact hpending
    · dsimp only
      split
      · exact hpending
      · rw [pendingIds, pendingSends_performSend, List.map_append]
        exact List.mem_append_left _ hpending
  | retrySend id =>
    cases hstep
    refine .inl ?_
    unfold MessageHistory.retrySend
    split
    · exact hpending
    · rw [pendingIds, pendingSends_performSend, ids_map fun p => by split <;> rfl]
      exact hpending
  | discardFailedSend id =>
    cases hstep
    by_cases hid : id = tempId
    · exact .inr (by simpa [givesUp] using hid)
    · obtain ⟨p, hp, rfl⟩ := List.mem_map.mp hpending
      exact .inl (List.mem_map_of_mem (List.mem_filter.mpr ⟨hp, by simpa using Ne.symm hid⟩))
  | editMessage messageId content =>
    cases hstep
    refine .inl ?_
    unfold MessageHistory.editMessage
    split <;> exact hpending
  | deleteMessage messageId =>
    cases hstep
    exact .inl hpending
  | answer k answer =>
    unfold MessageHistory.step at hstep
    cases hrequest : s.requests[k]? with
    | none => simp [hrequest] at hstep
    | some request =>
      simp only [hrequest] at hstep
      split at hstep
      · cases hstep
        refine .inl ?_
        rw [pendingIds_complete]
        · exact hpending
        · rintro target id content mediaIds key message rfl rfl
          rw [answersSend, hrequest] at hanswer
          cases hanswer
      · cases hstep

/-! ### The hook and the server -/

/-- `UUID(s)` of an id in a path or a body. -/
def idOfText (s : Text) : Option ℕ := (Uuid.ofStr s).map Fin.val

/-- The route's path parameter. -/
def pathTarget : ConversationTarget → Option MessageTarget
  | .channel channelId => (idOfText channelId).map .channel
  | .dm userId => (idOfText userId).map .dm

/-- The call that the route makes of the request, for a bearer token of user `me`. -/
def Entry.call (me : UserId) (x : Entry) : Option SendCall := do
  let target ← pathTarget x.target
  let key ← Uuid.ofStr x.idempotencyKey
  let mediaIds ← x.mediaIds.mapM idOfText
  return ⟨me, key.str, target, x.content, mediaIds⟩

/-- What `generateClientId` gives is a UUID, and another one each time. -/
def isFresh (typed : List Entry) (x : Entry) : Bool :=
  (typed.all fun y => y.tempId ≠ x.tempId && y.idempotencyKey ≠ x.idempotencyKey) &&
    (Uuid.ofStr x.idempotencyKey).map Uuid.str = some x.idempotencyKey

variable {T : Type} [DecidableEq T]

variable (T) in
/-- The hook and the server; what has been typed, given up, and answered. -/
structure Tab where
  hook : MessageHistory
  pool : SendPool T
  typed : List Entry
  dropped : List Text
  answered : List T

inductive TabEvent (T : Type) where
  /-- Anything but the answer to a send. -/
  | ui (event : HistoryEvent)
  /-- The answer of process `t` to `requests[k]`. -/
  | answer (k : ℕ) (t : T)
  | server (label : Label T Choice Tick)

variable (hash : RawToken → TokenHash) (home : Text → ConversationTarget) (iso : Time → Text)
  (served : T → Option Entry)

/-- What happens; process `t` serves what `served t` was sent with, and not before it was typed, or
a request of somebody else. -/
def Tab.step (s : Tab T) : TabEvent T → Option (Tab T)
  | .ui event =>
    if answersSend s.hook event || (typedBy s.hook event).any fun x => !isFresh s.typed x then none
    else
      (s.hook.step home event).map fun hook =>
        { s with
          hook
          typed := s.typed ++ (typedBy s.hook event).toList
          dropped := s.dropped ++ (pendingIds s.hook).filter (givesUp · event) }
  | .answer k t =>
    match s.pool.prog t with
    | .ret (.ok result) =>
      if (served t).isSome ∧ s.hook.requests[k]? = (served t).map Entry.request then
        (s.hook.step home (.answer k (.message
            (Wire.messageObject iso result.id result.message result.media)))).map fun hook =>
          { s with hook, answered := s.answered ++ [t] }
      else none
    | _ => none
  | .server label =>
    match label with
    | .proc t _ =>
      if ∀ x ∈ served t, x ∈ s.typed then
        ((machine T hash).step s.pool label).map fun pool => { s with pool }
      else none
    | .event _ => ((machine T hash).step s.pool label).map fun pool => { s with pool }

def Tab.run (s : Tab T) : List (TabEvent T) → Option (Tab T)
  | [] => some s
  | e :: es => (s.step hash home iso served e).bind fun s' => s'.run es

/-- The server's part of a run. -/
def serverLabels (es : List (TabEvent T)) : List (Label T Choice Tick) :=
  es.filterMap fun
    | .server label => some label
    | _ => none

variable {hash home iso served} {s s' : Tab T} {e : TabEvent T} {es : List (TabEvent T)}
  {call : T → SendCall} {me : UserId}

/-- A process that has ended stays so. -/
theorem prog_ret {pool pool' : SendPool T} {label : Label T Choice Tick} {t : T}
    {a : Except Exc SendMessageResult} (hstep : (machine T hash).step pool label = some pool')
    (hret : pool.prog t = .ret a) : pool'.prog t = .ret a := by
  cases label with
  | event e =>
    obtain ⟨s, -, rfl⟩ := Machine.step_event hstep
    exact hret
  | proc t' c =>
    obtain ⟨o, k, r, s, hk, -, rfl⟩ := Machine.step_proc hstep
    have hne : t ≠ t' := by
      rintro rfl
      cases hret.symm.trans hk
    exact (Function.update_of_ne hne _ _).trans hret

/-- A process that has just begun took the step. -/
theorem first_step {pool pool' : SendPool T} {label : Label T Choice Tick} {t : T}
    (hstep : (machine T hash).step pool label = some pool') (hold : pool.world.own t = [])
    (hnew : pool'.world.own t ≠ []) : ∃ c, label = .proc t c := by
  cases label with
  | event e =>
    obtain ⟨s, -, rfl⟩ := Machine.step_event hstep
    exact absurd hold hnew
  | proc t' c =>
    obtain ⟨o, k, r, s, -, -, rfl⟩ := Machine.step_proc hstep
    by_cases ht : t' = t
    · subst ht
      exact ⟨c, rfl⟩
    · exact absurd ((World.own_after_of_ne ht).trans hold) hnew

/-- What holds in every state: what was typed has its own ids and is pending, dropped or answered,
and the server has been asked for nothing else. -/
structure Accounted (served : T → Option Entry) (s : Tab T) : Prop where
  tempIds : ∀ x ∈ s.typed, ∀ y ∈ s.typed, x.tempId = y.tempId → x = y
  keys : ∀ x ∈ s.typed, ∀ y ∈ s.typed, x.idempotencyKey = y.idempotencyKey → x = y
  uuids : ∀ x ∈ s.typed, (Uuid.ofStr x.idempotencyKey).map Uuid.str = some x.idempotencyKey
  backed : Backed s.typed s.hook
  fate : ∀ x ∈ s.typed, x.tempId ∈ pendingIds s.hook ∨ x.tempId ∈ s.dropped ∨
    ∃ t ∈ s.answered, served t = some x
  answered : ∀ t ∈ s.answered, ∃ result, s.pool.prog t = .ret (.ok result)
  asked : ∀ t, s.pool.world.own t ≠ [] → ∀ x ∈ served t, x ∈ s.typed

/-- One more entry with fresh ids. -/
theorem unique_append {β : Type} {typed : List Entry} {x : Option Entry} {f : Entry → β}
    (h : ∀ y ∈ typed, ∀ z ∈ typed, f y = f z → y = z) (hx : ∀ y ∈ typed, ∀ z ∈ x, f y ≠ f z) :
    ∀ y ∈ typed ++ x.toList, ∀ z ∈ typed ++ x.toList, f y = f z → y = z := by
  intro y hy z hz heq
  rcases List.mem_append.mp hy with hy | hy
  · rcases List.mem_append.mp hz with hz | hz
    · exact h y hy z hz heq
    · exact absurd heq (hx y hy z (Option.mem_toList.mp hz))
  · rcases List.mem_append.mp hz with hz | hz
    · exact absurd heq.symm (hx z hz y (Option.mem_toList.mp hy))
    · exact Option.some.inj ((Option.mem_toList.mp hy).symm.trans (Option.mem_toList.mp hz))

theorem isFresh_iff {typed : List Entry} {x : Entry} : isFresh typed x = true ↔
    (∀ y ∈ typed, y.tempId ≠ x.tempId ∧ y.idempotencyKey ≠ x.idempotencyKey) ∧
      (Uuid.ofStr x.idempotencyKey).map Uuid.str = some x.idempotencyKey := by
  simp [isFresh]

/-- A new entry is pending. -/
theorem pending_of_typed {s s' : MessageHistory} {event : HistoryEvent} {x : Entry}
    (hx : typedBy s event = some x) (hstep : s.step home event = some s') :
    x.tempId ∈ pendingIds s' := by
  cases event with
  | sendMessage content mediaIds tempId key createdAt =>
    rw [typedBy] at hx
    split at hx
    · rename_i hsigned
      obtain ⟨target, htarget, rfl⟩ := Option.map_eq_some_iff.mp hx
      cases hstep
      unfold MessageHistory.sendMessage
      split
      · rename_i hinvalid
        cases hinvalid.symm.trans hsigned.1
      dsimp only
      split
      · rename_i hnone
        rcases hnone with hnone | hnone
        · exact absurd hnone hsigned.2
        · cases hnone.symm.trans htarget
      · simp [pendingIds, pendingSends_performSend]
    · cases hx
  | _ => cases hx

/-- A row leaves the pending ones when its send is answered. -/
theorem pendingIds_answer {s s' : MessageHistory} {k : ℕ} {x : Entry} {message : Frontend.Message}
    (hk : s.requests[k]? = some x.request)
    (hstep : s.step home (.answer k (.message message)) = some s') {tempId : Text}
    (hpending : tempId ∈ pendingIds s) : tempId ∈ pendingIds s' ∨ tempId = x.tempId := by
  by_cases hid : tempId = x.tempId
  · exact .inr hid
  · unfold MessageHistory.step at hstep
    simp only [hk] at hstep
    split at hstep
    · cases hstep
      obtain ⟨p, hp, rfl⟩ := List.mem_map.mp hpending
      exact .inl (List.mem_map_of_mem (List.mem_filter.mpr ⟨hp, by simpa using hid⟩))
    · cases hstep

theorem accounted_ui (h : Accounted served s) {event : HistoryEvent}
    (hstep : s.step hash home iso served (.ui event) = some s') : Accounted served s' := by
  rw [Tab.step] at hstep
  split at hstep
  · cases hstep
  rename_i hallowed
  obtain ⟨hook, hhook, rfl⟩ := Option.map_eq_some_iff.mp hstep
  rw [Bool.or_eq_true, not_or, Bool.not_eq_true] at hallowed
  obtain ⟨hanswer, hallowed⟩ := hallowed
  have hfresh : ∀ x ∈ typedBy s.hook event, isFresh s.typed x = true := by
    intro x hx
    rw [Option.mem_def.mp hx] at hallowed
    simpa using hallowed
  refine ⟨unique_append h.tempIds fun y hy z hz => ?_, unique_append h.keys fun y hy z hz => ?_,
    fun x hx => ?_, backed_step h.backed hhook, fun x hx => ?_, h.answered, fun t ht => ?_⟩
  · exact ((isFresh_iff.mp (hfresh z hz)).1 y hy).1
  · exact ((isFresh_iff.mp (hfresh z hz)).1 y hy).2
  · rcases List.mem_append.mp hx with hx | hx
    · exact h.uuids x hx
    · exact (isFresh_iff.mp (hfresh x (Option.mem_toList.mp hx))).2
  · rcases List.mem_append.mp hx with hx | hx
    · rcases h.fate x hx with hpending | hdropped | hanswered
      · rcases pendingIds_step hanswer hhook hpending with hstill | hgivesUp
        · exact .inl hstill
        · exact .inr (.inl (List.mem_append_right _ (List.mem_filter.mpr ⟨hpending, hgivesUp⟩)))
      · exact .inr (.inl (List.mem_append_left _ hdropped))
      · exact .inr (.inr hanswered)
    · exact .inl (pending_of_typed (Option.mem_toList.mp hx) hhook)
  · exact fun x hx => List.mem_append_left _ (h.asked t ht x hx)

theorem accounted_answer (h : Accounted served s) {k : ℕ} {t : T}
    (hstep : s.step hash home iso served (.answer k t) = some s') : Accounted served s' := by
  rw [Tab.step] at hstep
  split at hstep
  · rename_i result hret
    split at hstep
    · rename_i hserves
      obtain ⟨x, hserved⟩ := Option.isSome_iff_exists.mp hserves.1
      have hk : s.hook.requests[k]? = some x.request := by
        rw [hserves.2, hserved]
        rfl
      obtain ⟨hook, hhook, rfl⟩ := Option.map_eq_some_iff.mp hstep
      have htyped : x ∈ s.typed := h.backed.requests _ (List.mem_of_getElem? hk)
      have hbacked := backed_step h.backed hhook
      have hnone : typedBy s.hook (.answer k (.message
          (Wire.messageObject iso result.id result.message result.media))) = none := rfl
      rw [hnone, Option.toList_none, List.append_nil] at hbacked
      refine ⟨h.tempIds, h.keys, h.uuids, hbacked, fun y hy => ?_, fun t' ht' => ?_, h.asked⟩
      · rcases h.fate y hy with hpending | hdropped | ⟨t', ht', heq⟩
        · rcases pendingIds_answer hk hhook hpending with hstill | hid
          · exact .inl hstill
          · obtain rfl := h.tempIds y hy x htyped hid
            exact .inr (.inr ⟨t, List.mem_append_right _ (List.mem_singleton.mpr rfl), hserved⟩)
        · exact .inr (.inl hdropped)
        · exact .inr (.inr ⟨t', List.mem_append_left _ ht', heq⟩)
      · rcases List.mem_append.mp ht' with ht' | ht'
        · exact h.answered t' ht'
        · obtain rfl := List.mem_singleton.mp ht'
          exact ⟨result, hret⟩
    · cases hstep
  · cases hstep

/-- A step of the server. -/
theorem Accounted.pool (h : Accounted served s) {label : Label T Choice Tick} {pool : SendPool T}
    (hserved : ∀ t c, label = .proc t c → ∀ x ∈ served t, x ∈ s.typed)
    (hstep : (machine T hash).step s.pool label = some pool) :
    Accounted served { s with pool } := by
  refine ⟨h.tempIds, h.keys, h.uuids, h.backed, h.fate, fun t ht => ?_, fun t ht => ?_⟩
  · obtain ⟨result, hret⟩ := h.answered t ht
    exact ⟨result, prog_ret hstep hret⟩
  · by_cases hstarted : s.pool.world.own t = []
    · exact hserved t _ (first_step hstep hstarted ht).choose_spec
    · exact h.asked t hstarted

theorem accounted_server (h : Accounted served s) {label : Label T Choice Tick}
    (hstep : s.step hash home iso served (.server label) = some s') : Accounted served s' := by
  cases label with
  | proc t c =>
    rw [Tab.step] at hstep
    split at hstep
    · rename_i hserved
      obtain ⟨pool, hpool, rfl⟩ := Option.map_eq_some_iff.mp hstep
      exact h.pool (fun t' c' heq => by cases heq; exact hserved) hpool
    · cases hstep
  | event e =>
    rw [Tab.step] at hstep
    obtain ⟨pool, hpool, rfl⟩ := Option.map_eq_some_iff.mp hstep
    exact h.pool (fun t' c' heq => by cases heq) hpool

theorem accounted_step (h : Accounted served s) (hstep : s.step hash home iso served e = some s') :
    Accounted served s' := by
  cases e with
  | ui event => exact accounted_ui h hstep
  | answer k t => exact accounted_answer h hstep
  | server label => exact accounted_server h hstep

theorem accounted_run (h : Accounted served s) (hrun : s.run hash home iso served es = some s') :
    Accounted served s' := by
  induction es generalizing s with
  | nil =>
    cases hrun
    exact h
  | cons e es ih =>
    obtain ⟨m, hm, hrest⟩ := Option.bind_eq_some_iff.mp hrun
    exact ih (accounted_step h hm) hrest

/-- What the client does, the server does not see. -/
theorem pool_step (hstep : s.step hash home iso served e = some s') :
    (machine T hash).run s.pool (serverLabels [e]) = some s'.pool := by
  cases e with
  | ui event =>
    rw [Tab.step] at hstep
    split at hstep
    · cases hstep
    · obtain ⟨hook, -, rfl⟩ := Option.map_eq_some_iff.mp hstep
      rfl
  | answer k t =>
    rw [Tab.step] at hstep
    split at hstep
    · split at hstep
      · obtain ⟨hook, -, rfl⟩ := Option.map_eq_some_iff.mp hstep
        rfl
      · cases hstep
    · cases hstep
  | server label =>
    have hpool : (machine T hash).step s.pool label = some s'.pool := by
      cases label with
      | proc t c =>
        rw [Tab.step] at hstep
        split at hstep
        · obtain ⟨pool, hpool, rfl⟩ := Option.map_eq_some_iff.mp hstep
          exact hpool
        · cases hstep
      | event e =>
        rw [Tab.step] at hstep
        obtain ⟨pool, hpool, rfl⟩ := Option.map_eq_some_iff.mp hstep
        exact hpool
    show ((machine T hash).step s.pool label).bind _ = _
    rw [hpool]
    rfl

/-- The run of the server that is in a run of both. -/
theorem pool_run (hrun : s.run hash home iso served es = some s') :
    (machine T hash).run s.pool (serverLabels es) = some s'.pool := by
  induction es generalizing s with
  | nil =>
    cases hrun
    rfl
  | cons e es ih =>
    obtain ⟨m, hm, hrest⟩ := Option.bind_eq_some_iff.mp hrun
    have hcut : serverLabels (e :: es) = serverLabels [e] ++ serverLabels es :=
      List.filterMap_append (l := [e])
    rw [hcut, Machine.run_append, pool_step hm]
    exact ih hrest

/-! ### The result -/

/-- Nothing is typed yet, and the server has not been asked. -/
structure Opened (call : T → SendCall) (s : Tab T) : Prop where
  hook : ∃ currentUserId, s.hook = .unmounted currentUserId
  pool : IdempotentSend.Start call s.pool
  typed : s.typed = []
  answered : s.answered = []

/-- A process serves what it is sent for user `me`; those that serve somebody else have other claim
keys. -/
structure Serving (me : UserId) (call : T → SendCall) (served : T → Option Entry) : Prop where
  asked : ∀ t x, served t = some x → x.call me = some (call t)
  others : ∀ t t', (call t).claimKey = (call t').claimKey → served t = none → served t' = none

/-- A process that serves the entry has stored the message under this id. -/
def Stored (served : T → Option Entry) (w : BackendWorld T) (x : Entry) (id : MessageId) : Prop :=
  ∃ t, served t = some x ∧ Generated w t id ∧ row w id ≠ none

/-- What is typed once is stored once. -/
structure Once (me : UserId) (call : T → SendCall) (served : T → Option Entry)
    (w₀ : BackendWorld T) (s : Tab T) : Prop where
  /-- An entry is stored under one id at most, and two entries are under two. -/
  unique : ∀ x y id id', Stored served s.pool.world x id → Stored served s.pool.world y id' →
    (id = id' ↔ x = y)
  /-- A message that is new was sent; one that this hook has sent is as it was typed. -/
  stored : ∀ id m, row s.pool.world id = some m → row w₀ id = none → ∃ t now,
    Generated s.pool.world t id ∧ m = Authorship.posted (call t) now ∧
      ∀ x ∈ served t, x ∈ s.typed ∧ Stored served s.pool.world x id
  /-- An entry is still pending, was given up, or was answered with the message stored for it. -/
  fate : ∀ x ∈ s.typed, x.tempId ∈ pendingIds s.hook ∨ x.tempId ∈ s.dropped ∨
    ∃ t ∈ s.answered, ∃ result, s.pool.prog t = .ret (.ok result) ∧
      Stored served s.pool.world x result.id

variable {w : BackendWorld T} {t : T} {y : Entry} {id id' : MessageId}

theorem Opened.accounted (h : Opened call s) : Accounted served s := by
  obtain ⟨currentUserId, hhook⟩ := h.hook
  refine ⟨?_, ?_, ?_, ⟨?_, ?_⟩, ?_, ?_, fun t ht => ?_⟩
  · rw [h.typed]
    exact fun x hx => nomatch hx
  · rw [h.typed]
    exact fun x hx => nomatch hx
  · rw [h.typed]
    exact fun x hx => nomatch hx
  · rw [hhook]
    exact fun p hp => nomatch hp
  · rw [hhook]
    exact fun x hx => nomatch hx
  · rw [h.typed]
    exact fun x hx => nomatch hx
  · rw [h.answered]
    exact fun t ht => nomatch ht
  · refine absurd ?_ ht
    rw [World.own, h.pool.trace]
    rfl

/-- The claim key of a call is the key that was typed, under the caller's name. -/
theorem Entry.claimKey_of_call {c : SendCall} (hcall : x.call me = some c) {key : Text}
    (hkey : (Uuid.ofStr x.idempotencyKey).map Uuid.str = some key) :
    c.claimKey = idempotencyRedisKey me key := by
  rw [Entry.call] at hcall
  obtain ⟨target, -, hcall⟩ := Option.bind_eq_some_iff.mp hcall
  obtain ⟨uuid, huuid, hcall⟩ := Option.bind_eq_some_iff.mp hcall
  obtain ⟨mediaIds, -, hcall⟩ := Option.bind_eq_some_iff.mp hcall
  cases hcall
  rw [huuid] at hkey
  cases hkey
  rfl

theorem generated_own (h : Generated w t id) : w.own t ≠ [] :=
  List.ne_nil_of_mem (World.mem_own.mpr ⟨h, rfl⟩)

section Run

variable {s₀ : Tab T}

/-- What a returned send knows. -/
theorem sound_run (h₀ : Opened call s₀) (hrun : s₀.run hash home iso served es = some s)
    {k₀ : RedisKey} (hstand : (machine T hash).Meets (claimStands k₀) s₀.pool (serverLabels es)) :
    (IdempotentSend.contract hash call k₀).Sound (fun t r w => ∀ m, r = .ok m → Sent call t m w)
      (fun _ _ _ => True) s.pool :=
  h₀.pool.sound.run eventsOk hstand (pool_run hrun)

/-- **What is typed once is stored once.** -/
theorem sends_stored_once (h₀ : Opened call s₀) (hserving : Serving me call served)
    (hrun : s₀.run hash home iso served es = some s)
    (hstand : ∀ t, (machine T hash).Meets (claimStands (call t).claimKey) s₀.pool
      (serverLabels es)) :
    Once me call served s₀.pool.world s := by
  have hacc : Accounted served s := accounted_run h₀.accounted hrun
  have hsound := fun t => sound_run h₀ hrun (hstand t)
  refine ⟨fun x y id id' hx hy => ?_, fun id m hrow hnone => ?_, fun x hx => ?_⟩
  · obtain ⟨t, ht, hgen, hrow⟩ := hx
    obtain ⟨t', ht', hgen', hrow'⟩ := hy
    constructor
    · rintro rfl
      obtain rfl := (hsound t).inv.unique t t' id hgen hgen'
      exact Option.some.inj (ht.symm.trans ht')
    · rintro rfl
      have hsame : call t = call t' :=
        Option.some.inj ((hserving.asked t x ht).symm.trans (hserving.asked t' x ht'))
      exact (hsound t).inv.row_unique ⟨⟨t, rfl, hgen⟩, hrow⟩
        ⟨⟨t', by rw [hsame], hgen'⟩, hrow'⟩
  · rcases (rows_asked h₀.pool (pool_run hrun)).committed id m hrow with hold | ⟨t, hgen, now, rfl⟩
    · cases hnone.symm.trans hold
    refine ⟨t, now, hgen, rfl, fun x hx => ⟨hacc.asked t (generated_own hgen) x hx, t, hx, hgen,
      ?_⟩⟩
    rw [hrow]
    exact Option.some_ne_none _
  · rcases hacc.fate x hx with hpending | hdropped | ⟨t, ht, hserved⟩
    · exact .inl hpending
    · exact .inr (.inl hdropped)
    obtain ⟨result, hret⟩ := hacc.answered t ht
    obtain ⟨⟨⟨t', hkey, hgen⟩, hrow⟩, -⟩ := (hsound t).ret hret result rfl
    refine .inr (.inr ⟨t, ht, result, hret, t', ?_, hgen, hrow⟩)
    -- the send that stored it has the same claim key, so that it serves the same entry
    cases hserved' : served t' with
    | none =>
      have := hserving.others t' t hkey hserved'
      rw [hserved] at this
      cases this
    | some y =>
      have hy : y ∈ s.typed := hacc.asked t' (generated_own hgen) y hserved'
      have hkeys := hkey
      rw [Entry.claimKey_of_call (hserving.asked t x hserved) (hacc.uuids x hx),
        Entry.claimKey_of_call (hserving.asked t' y hserved') (hacc.uuids y hy)] at hkeys
      cases hacc.keys y hy x hx (RedisKey.idempotency.inj hkeys).2
      rfl

end Run

/-! ### An answer is lost, and the send is retried -/

/-- User 10 writes to channel 1. -/
def hi : Entry :=
  ⟨.channel (Wire.idText 1), ['t'], ['h', 'i'], [], Wire.idText 7⟩

def hiCall : SendCall := ⟨10, Wire.idText 7, .channel 1, ['h', 'i'], []⟩

def opened : Tab Bool where
  hook := .unmounted (some (Wire.idText 10))
  pool := ⟨twoSends.world, fun _ => hiCall.request⟩
  typed := []
  dropped := []
  answered := []

/-- The first process stores the message, its answer is lost, and the second finds it. -/
def answerLost : List (TabEvent Bool) :=
  .ui (.setTarget (some hi.target)) ::
  .ui (.sendMessage hi.content hi.mediaIds hi.tempId hi.idempotencyKey []) ::
  (wholeSend false 1).map .server ++
  .ui (.answer 1 (.failed [] none)) :: .ui (.retrySend hi.tempId) ::
  (List.replicate 5 (await true 2)).map .server ++ [.answer 1 true]

theorem sends_stored_once_retried :
    ∃ s, opened.run (fun n => n) (fun _ => hi.target) (fun _ => []) (fun _ => some hi) answerLost =
        some s ∧ pendingIds s.hook = [] ∧
      Once 10 (fun _ => hiCall) (fun _ => some hi) opened.pool.world s := by
  have hopened : Opened (fun _ => hiCall) opened :=
    ⟨⟨_, rfl⟩, ⟨fun _ => rfl, rfl, fun _ => rfl, fun _ h => absurd rfl h, fun _ _ => rfl, rfl⟩, rfl,
      rfl⟩
  have hserving : Serving 10 (fun _ : Bool => hiCall) fun _ => some hi :=
    ⟨fun t x hx => by cases hx; rfl, fun t t' _ h => nomatch h⟩
  have hrun : ((opened.run (fun n => n) (fun _ => hi.target) (fun _ => []) (fun _ => some hi)
      answerLost).map fun s => pendingIds s.hook) = some [] := by decide +kernel
  obtain ⟨s, hs, hpending⟩ := Option.map_eq_some_iff.mp hrun
  exact ⟨s, hs, hpending, sends_stored_once hopened hserving hs (by decide +kernel)⟩

end Chatspace.SendOnce
