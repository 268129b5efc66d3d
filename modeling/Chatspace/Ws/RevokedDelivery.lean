import Chatspace.Reactive.Runs
import Chatspace.Ws.Fanout

/-!
# What a former member is still sent

Memberships begin and end, connections of any number of instances join and leave topics, and the
relay of each instance hands what Redis delivers to one connection after the other.  A join looks at
the membership and subscribes some time later; a delivery looks at the subscription only; and what
ends a membership looks at no connection.

* `handleMessage_eq_flatMap` — the relay of an event is its turns;
* `step`, `sent` — the system, and what a step sends;
* `Withheld` — nothing about a channel is sent to a former member that was published since;
* `Unsubscribed` — a membership ends only when none of the user's connections is subscribed, and a
  connection is subscribed only while the user is a member;
* `former_member_unsent` — **then everything is withheld; and where it is not so, something need
  not be.**
-/

namespace Chatspace.RevokedDelivery

open Codec Topics Fanout Reactive

/-! ### The relay, one connection at a time -/

/-- A connection manager with one connection. -/
def only (state : ConnectionState) : ConnectionManager := ⟨[state], List.nodup_singleton _⟩

theorem handleMessage_only (sends : Uuid → Bool) (topic : Text) (payload : Json)
    (state : ConnectionState) : handleMessage (only state) sends topic payload =
      if Reaches sends topic payload state then [(state.connectionId, payload)] else [] := by
  have hbroadcast : handleMessage (only state) sends topic payload =
      if payload.isObject then (if topic ∉ state.subscribedTopics then []
        else if typingTyperId payload = some state.userId then []
        else if state.connected = false then []
        else if sends state.connectionId then [(state.connectionId, payload)]
        else []) else [] := by
    unfold handleMessage ConnectionManager.broadcastToTopic only
    rw [List.filterMap_cons, List.filterMap_nil]
    split_ifs <;> rfl
  rw [hbroadcast]
  unfold Reaches
  split_ifs <;> simp_all

/-- **The relay of an event is its turns.** -/
theorem handleMessage_eq_flatMap (manager : ConnectionManager) (sends : Uuid → Bool) (topic : Text)
    (payload : Json) : handleMessage manager sends topic payload =
      manager.connections.flatMap fun state => handleMessage (only state) sends topic payload := by
  unfold handleMessage
  split
  · unfold ConnectionManager.broadcastToTopic only
    induction manager.connections with
    | nil => rfl
    | cons state rest ih =>
      rw [List.filterMap_cons, List.flatMap_cons, ← ih, List.filterMap_cons, List.filterMap_nil]
      split <;> rfl
  · simp

/-! ### The system -/

/-- A connection of the endpoint: its instance, its entry, and the topic that a `join` has been
authorized for and the connection is not yet subscribed to. -/
structure Connection (I : Type) where
  instance_ : I
  state : ConnectionState
  authorized : Option Text

/-- A published event, with the number of those published before it. -/
structure Published where
  topic : Text
  payload : Json
  index : ℕ

structure State (I : Type) where
  db : Topics.Db
  /-- A connection that is not registered any more may still be in the middle of a relay. -/
  connections : Uuid → Option (Connection I)
  /-- The keys of `_connections` on each instance. -/
  registered : I → List Uuid
  /-- What Redis holds for the relay of each instance. -/
  inbox : I → List Published
  /-- The event that a relay hands on, and the connections that are left. -/
  relaying : I → Option (Published × List Uuid)
  published : ℕ
  /-- How many events were published before a membership ended that has not begun again. -/
  endedAt : Uuid → Uuid → Option ℕ

def initial {I : Type} (db : Topics.Db) : State I where
  db := db
  connections _ := none
  registered _ := []
  inbox _ := []
  relaying _ := none
  published := 0
  endedAt _ _ := none

inductive Event (I : Type) where
  /-- A join, or an addition by an admin, commits. -/
  | joined (channelId userId : Uuid)
  /-- A leave, or a removal, commits. -/
  | removed (channelId userId : Uuid)
  /-- A user is created, deactivated or reactivated. -/
  | account (userId : Uuid) (isActive : Bool)
  | register (instance_ : I) (connectionId userId : Uuid)
  /-- A `join` frame, up to the end of `authorize_conversation`. -/
  | join (connectionId : Uuid) (conversation : Conversation)
  | subscribe (connectionId : Uuid)
  | leave (connectionId : Uuid) (conversation : Conversation)
  /-- The socket is closed. -/
  | closed (connectionId : Uuid)
  | unregister (connectionId : Uuid)
  | publish (topic : Text) (payload : Json) (listening : I → Bool)
  /-- A relay loses its connection to Redis. -/
  | cut (instance_ : I)
  | receive (instance_ : I)
  | turn (instance_ : I) (sends : Bool)

variable {I : Type}

/-- A connection whose endpoint is at work. -/
def State.serving (s : State I) (connectionId : Uuid) : Option (Connection I) :=
  (s.connections connectionId).filter fun connection =>
    connectionId ∈ s.registered connection.instance_

def State.put (s : State I) (connectionId : Uuid) (connection : Connection I) : State I :=
  { s with connections := Function.update s.connections connectionId (some connection) }

/-- A function of a channel and a user, changed at one place. -/
def set₂ {α : Type} (f : Uuid → Uuid → α) (channelId userId : Uuid) (v : α) : Uuid → Uuid → α :=
  Function.update f channelId (Function.update (f channelId) userId v)

/-- One step; what cannot happen has none. -/
def step [DecidableEq I] (s : State I) : Event I → Option (State I)
  | .joined channelId userId =>
    if s.db.isMember channelId userId then none
    else some { s with
      db := { s.db with isMember := set₂ s.db.isMember channelId userId true }
      endedAt := set₂ s.endedAt channelId userId none }
  | .removed channelId userId =>
    if s.db.isMember channelId userId then some { s with
      db := { s.db with isMember := set₂ s.db.isMember channelId userId false }
      endedAt := set₂ s.endedAt channelId userId (some s.published) }
    else none
  | .account userId isActive =>
    some { s with db := { s.db with isActive := Function.update s.db.isActive userId (some isActive) } }
  | .register i connectionId userId =>
    if (s.connections connectionId).isSome then none
    else
      let connection := ⟨i, ⟨connectionId, userId, [userTopic userId], true⟩, none⟩
      some { (s.put connectionId connection) with
        registered := Function.update s.registered i (s.registered i ++ [connectionId]) }
  | .join connectionId conversation => do
    let connection ← s.serving connectionId
    match connection.authorized, authorizeConversation s.db conversation connection.state.userId with
    | none, .ok topic => some (s.put connectionId { connection with authorized := some topic })
    | _, _ => none
  | .subscribe connectionId => do
    let connection ← s.serving connectionId
    let topic ← connection.authorized
    some (s.put connectionId { connection with
      state := { connection.state with
        subscribedTopics := connection.state.subscribedTopics.insert topic }
      authorized := none })
  | .leave connectionId conversation => do
    let connection ← s.serving connectionId
    match connection.authorized with
    | some _ => none
    | none =>
      let topic := topicFor conversation connection.state.userId
      some (s.put connectionId { connection with
        state := { connection.state with
          subscribedTopics := connection.state.subscribedTopics.filter (· ≠ topic) } })
  | .closed connectionId => do
    let connection ← s.connections connectionId
    some (s.put connectionId { connection with state := { connection.state with connected := false } })
  | .unregister connectionId => do
    let connection ← s.serving connectionId
    some { (s.put connectionId { connection with authorized := none }) with
      registered := Function.update s.registered connection.instance_
        ((s.registered connection.instance_).filter (· ≠ connectionId)) }
  | .publish topic payload listening =>
    some { s with
      inbox := fun i =>
        if listening i then s.inbox i ++ [⟨topic, payload, s.published⟩] else s.inbox i
      published := s.published + 1 }
  | .cut i => some { s with inbox := Function.update s.inbox i [] }
  | .receive i =>
    match s.relaying i, s.inbox i with
    | none, event :: rest => some { s with
        inbox := Function.update s.inbox i rest
        relaying := Function.update s.relaying i (some (event, s.registered i)) }
    | _, _ => none
  | .turn i _ =>
    match s.relaying i with
    | none => none
    | some (_, []) => some { s with relaying := Function.update s.relaying i none }
    | some (event, _ :: rest) =>
      some { s with relaying := Function.update s.relaying i (some (event, rest)) }

/-- What a step sends, and to which connections. -/
def sent (s : State I) : Event I → List (ConnectionState × Published)
  | .turn i sends =>
    match s.relaying i with
    | some (event, connectionId :: _) =>
      match s.connections connectionId with
      | some connection =>
        (handleMessage (only connection.state) (fun _ => sends) event.topic event.payload).map
          fun _ => (connection.state, event)
      | none => []
    | _ => []
  | _ => []

/-! ### What is withheld, and when -/

/-- A `message.*` envelope. -/
def IsMessageEvent (payload : Json) : Prop :=
  ∃ kind ∈ [messageCreatedType, messageEditedType, messageDeletedType],
    (payload.field? typeKey).bind Json.string? = some kind

instance (payload : Json) : Decidable (IsMessageEvent payload) :=
  inferInstanceAs (Decidable (∃ kind ∈ _, _))

/-- What is sent about a message of a channel to someone whose membership has ended was published
before it ended. -/
def Withheld (s : State I) (e : Event I) : Prop :=
  ∀ x ∈ sent s e, ∀ channelId, x.2.topic = channelTopic channelId → IsMessageEvent x.2.payload →
    ∀ n ∈ s.endedAt channelId x.1.userId, x.2.index < n

/-- No open connection of the user is subscribed when the membership ends, and none is subscribed
when the user is no member. -/
def Unsubscribed (s : State I) : Event I → Prop
  | .removed channelId userId => ∀ connectionId, ∀ connection ∈ s.serving connectionId,
      connection.state.userId = userId → connection.state.connected = true →
        channelTopic channelId ∉ connection.state.subscribedTopics
  | .subscribe connectionId => ∀ connection ∈ s.serving connectionId,
      connection.state.connected = true →
        ∀ channelId, connection.authorized = some (channelTopic channelId) →
          s.db.isMember channelId connection.state.userId = true
  | _ => True

variable {s s' : State I} {e : Event I} {channelId userId connectionId : Uuid}
  {connection connection' : Connection I} {n : ℕ}

theorem set₂_apply {α : Type} (f : Uuid → Uuid → α) (channelId userId : Uuid) (v : α) (c u : Uuid) :
    set₂ f channelId userId v c u = if c = channelId ∧ u = userId then v else f c u := by
  unfold set₂
  by_cases hc : c = channelId
  · subst hc
    rw [Function.update_self]
    by_cases hu : u = userId
    · subst hu
      simp
    · simp [hu]
  · simp [hc]

theorem serving_eq_some : s.serving connectionId = some connection ↔
    s.connections connectionId = some connection ∧
      connectionId ∈ s.registered connection.instance_ := by
  simp [State.serving, Option.filter_eq_some_iff]

/-- What is sent is sent in a turn, to a connection that the event reaches. -/
theorem mem_sent {x : ConnectionState × Published} (hx : x ∈ sent s e) :
    ∃ i sends rest, e = .turn i sends ∧
      ∃ connectionId connection, s.relaying i = some (x.2, connectionId :: rest) ∧
        s.connections connectionId = some connection ∧ connection.state = x.1 ∧
          Reaches (fun _ => sends) x.2.topic x.2.payload x.1 := by
  cases e with
  | turn i sends =>
    simp only [sent] at hx
    split at hx
    · rename_i event connectionId rest hrelaying
      split at hx
      · rename_i connection hconnection
        rw [handleMessage_only] at hx
        split at hx
        · rename_i hreaches
          rw [List.map_singleton, List.mem_singleton] at hx
          subst hx
          exact ⟨i, sends, rest, rfl, connectionId, connection, hrelaying, hconnection, rfl,
            hreaches⟩
        · cases hx
      · cases hx
    · cases hx
  | _ => cases hx

/-! ### What holds in every state -/

/-- What the condition is not needed for. -/
structure Sound (s : State I) : Prop where
  member : ∀ channelId userId, s.db.isMember channelId userId = true →
    s.endedAt channelId userId = none
  ended : ∀ channelId userId, ∀ n ∈ s.endedAt channelId userId, n ≤ s.published
  inbox : ∀ i, ∀ event ∈ s.inbox i, event.index < s.published
  relaying : ∀ i, ∀ x ∈ s.relaying i, x.1.index < s.published
  placed : ∀ i, ∀ connectionId ∈ s.registered i,
    ∃ connection ∈ s.connections connectionId, connection.instance_ = i
  authorized : ∀ connectionId, ∀ connection ∈ s.connections connectionId, ∀ channelId,
    connection.authorized = some (channelTopic channelId) →
      s.db.isMember channelId connection.state.userId = true ∨
        s.endedAt channelId connection.state.userId ≠ none

theorem sound_initial (db : Topics.Db) : Sound (initial db : State I) where
  member _ _ _ := rfl
  ended := nofun
  inbox := nofun
  relaying := nofun
  placed := nofun
  authorized := nofun

/-- Only a member is authorized for the topic of a channel. -/
theorem isMember_of_authorized {db : Topics.Db} {conversation : Conversation}
    (h : authorizeConversation db conversation userId = .ok (channelTopic channelId)) :
    db.isMember channelId userId = true := by
  cases conversation with
  | channel c =>
    simp only [authorizeConversation] at h
    split at h
    · rename_i hmember
      rw [← channelTopic_inj.mp (Except.ok.inj h)]
      exact hmember
    · cases h
  | dm u =>
    simp only [authorizeConversation, authorizeDm] at h
    split at h
    · cases h
    · split at h
      · exact absurd (Except.ok.inj h).symm channelTopic_ne_dmTopic
      · cases h

/-- A connection is changed. -/
theorem Sound.put (h : Sound s) (registered : I → List Uuid)
    (hregistered : ∀ i, ∀ id ∈ registered i, id = connectionId ∨ id ∈ s.registered i)
    (hplaced : ∀ i, connectionId ∈ registered i → connection.instance_ = i)
    (hauthorized : ∀ c, connection.authorized = some (channelTopic c) →
      s.db.isMember c connection.state.userId = true ∨
        s.endedAt c connection.state.userId ≠ none) :
    Sound { (s.put connectionId connection) with registered := registered } where
  member := h.member
  ended := h.ended
  inbox := h.inbox
  relaying := h.relaying
  placed i id hid := by
    simp only [State.put, Function.update_apply]
    split
    · rename_i heq
      subst heq
      exact ⟨connection, rfl, hplaced i hid⟩
    · rename_i hne
      exact h.placed i id ((hregistered i id hid).resolve_left hne)
  authorized id other hother := by
    simp only [State.put, Function.update_apply] at hother
    split at hother
    · cases hother
      exact hauthorized
    · exact h.authorized id other hother

/-- A connection is changed where it is. -/
theorem Sound.put_same (h : Sound s) (hconnection : s.connections connectionId = some connection)
    (hinstance : connection'.instance_ = connection.instance_)
    (hauthorized : ∀ c, connection'.authorized = some (channelTopic c) →
      s.db.isMember c connection'.state.userId = true ∨
        s.endedAt c connection'.state.userId ≠ none) : Sound (s.put connectionId connection') := by
  refine h.put s.registered (fun _ _ => .inr) (fun i hi => ?_) hauthorized
  obtain ⟨other, hother, hplaced⟩ := h.placed i connectionId hi
  obtain rfl : connection = other := Option.some.inj (hconnection.symm.trans hother)
  rw [hinstance, hplaced]

variable [DecidableEq I]

theorem registered_append (i : I) (connectionId : Uuid) : ∀ j, ∀ id ∈
    Function.update s.registered i (s.registered i ++ [connectionId]) j,
      id = connectionId ∨ id ∈ s.registered j := by
  intro j id hid
  rw [Function.update_apply] at hid
  split at hid
  · rename_i heq
    subst heq
    obtain hid | hid := List.mem_append.mp hid
    · exact .inr hid
    · exact .inl (List.mem_singleton.mp hid)
  · exact .inr hid

theorem registered_filter (i : I) (connectionId : Uuid) : ∀ j, ∀ id ∈
    Function.update s.registered i ((s.registered i).filter (· ≠ connectionId)) j,
      id = connectionId ∨ id ∈ s.registered j := by
  intro j id hid
  rw [Function.update_apply] at hid
  split at hid
  · rename_i heq
    rw [heq]
    exact .inr (List.mem_filter.mp hid).1
  · exact .inr hid

theorem Sound.step (h : Sound s) (hs : step s e = some s') : Sound s' := by
  cases e with
  | joined c u =>
    simp only [RevokedDelivery.step] at hs
    split at hs
    · cases hs
    cases hs
    constructor
    · intro c' u' hmember
      simp only [set₂_apply] at hmember ⊢
      split
      · rfl
      · rename_i hne
        rw [if_neg hne] at hmember
        exact h.member c' u' hmember
    · intro c' u' n hn
      simp only [set₂_apply] at hn
      split at hn
      · cases hn
      · exact h.ended c' u' n hn
    · exact h.inbox
    · exact h.relaying
    · exact h.placed
    · intro id connection hconnection c' hauthorized
      simp only [set₂_apply]
      split
      · exact .inl rfl
      · exact h.authorized id connection hconnection c' hauthorized
  | removed c u =>
    simp only [RevokedDelivery.step] at hs
    split at hs
    · cases hs
      constructor
      · intro c' u' hmember
        simp only [set₂_apply] at hmember ⊢
        split
        · rename_i heq
          rw [if_pos heq] at hmember
          cases hmember
        · rename_i hne
          rw [if_neg hne] at hmember
          exact h.member c' u' hmember
      · intro c' u' n hn
        simp only [set₂_apply] at hn
        split at hn
        · cases hn
          exact le_rfl
        · exact h.ended c' u' n hn
      · exact h.inbox
      · exact h.relaying
      · exact h.placed
      · intro id connection hconnection c' hauthorized
        simp only [set₂_apply]
        split
        · exact .inr nofun
        · exact h.authorized id connection hconnection c' hauthorized
    · cases hs
  | account u isActive =>
    cases hs
    exact ⟨h.member, h.ended, h.inbox, h.relaying, h.placed, h.authorized⟩
  | register i id u =>
    simp only [RevokedDelivery.step] at hs
    split at hs
    · cases hs
    · cases hs
      rename_i hfresh
      have hnot : ∀ j, id ∉ s.registered j := by
        intro j hj
        obtain ⟨connection, hconnection, -⟩ := h.placed j id hj
        rw [hconnection] at hfresh
        exact hfresh rfl
      refine h.put _ (registered_append i id) (fun j hj => ?_) nofun
      simp only [Function.update_apply] at hj
      split at hj
      · rename_i heq
        exact heq.symm
      · exact absurd hj (hnot j)
  | join id conversation =>
    obtain ⟨connection, hserving, hs⟩ := Option.bind_eq_some_iff.mp hs
    split at hs
    · rename_i topic hnone hok
      cases hs
      refine h.put_same (serving_eq_some.mp hserving).1 rfl fun c hc => .inl ?_
      rw [Option.some_inj] at hc
      exact isMember_of_authorized (hc ▸ hok)
    · cases hs
  | subscribe id =>
    obtain ⟨connection, hserving, hs⟩ := Option.bind_eq_some_iff.mp hs
    obtain ⟨topic, htopic, hs⟩ := Option.bind_eq_some_iff.mp hs
    cases hs
    exact h.put_same (serving_eq_some.mp hserving).1 rfl nofun
  | leave id conversation =>
    obtain ⟨connection, hserving, hs⟩ := Option.bind_eq_some_iff.mp hs
    split at hs
    · cases hs
    · rename_i hnone
      cases hs
      refine h.put_same (serving_eq_some.mp hserving).1 rfl fun c hc => ?_
      rw [hnone] at hc
      cases hc
  | closed id =>
    obtain ⟨connection, hconnection, hs⟩ := Option.bind_eq_some_iff.mp hs
    cases hs
    exact h.put_same hconnection rfl fun c hc => h.authorized id connection hconnection c hc
  | unregister id =>
    obtain ⟨connection, hserving, hs⟩ := Option.bind_eq_some_iff.mp hs
    cases hs
    refine h.put _ (registered_filter connection.instance_ id) (fun i hi => ?_) nofun
    simp only [Function.update_apply] at hi
    split at hi
    · rename_i heq
      exact heq.symm
    · obtain ⟨other, hother, hplaced⟩ := h.placed i id hi
      obtain rfl : connection = other :=
        Option.some.inj ((serving_eq_some.mp hserving).1.symm.trans hother)
      exact hplaced
  | publish topic payload listening =>
    cases hs
    constructor
    · exact h.member
    · intro c u n hn
      exact Nat.le_succ_of_le (h.ended c u n hn)
    · intro i event hevent
      simp only at hevent
      split at hevent
      · obtain hevent | hevent := List.mem_append.mp hevent
        · exact Nat.lt_succ_of_lt (h.inbox i event hevent)
        · rw [List.mem_singleton.mp hevent]
          exact Nat.lt_succ_self _
      · exact Nat.lt_succ_of_lt (h.inbox i event hevent)
    · intro i x hx
      exact Nat.lt_succ_of_lt (h.relaying i x hx)
    · exact h.placed
    · exact h.authorized
  | cut i =>
    cases hs
    refine ⟨h.member, h.ended, fun j event hevent => ?_, h.relaying, h.placed, h.authorized⟩
    simp only [Function.update_apply] at hevent
    split at hevent
    · cases hevent
    · exact h.inbox j event hevent
  | receive i =>
    simp only [RevokedDelivery.step] at hs
    split at hs
    · rename_i event rest hidle hinbox
      cases hs
      refine ⟨h.member, h.ended, fun j other hother => ?_, fun j x hx => ?_, h.placed,
        h.authorized⟩
      · simp only [Function.update_apply] at hother
        split at hother
        · exact h.inbox i other (hinbox ▸ List.mem_cons_of_mem event hother)
        · exact h.inbox j other hother
      · simp only [Function.update_apply] at hx
        split at hx
        · cases hx
          exact h.inbox i event (hinbox ▸ List.mem_cons_self)
        · exact h.relaying j x hx
    · cases hs
  | turn i sends =>
    simp only [RevokedDelivery.step] at hs
    split at hs
    · cases hs
    · cases hs
      refine ⟨h.member, h.ended, h.inbox, fun j x hx => ?_, h.placed,
        h.authorized⟩
      simp only [Function.update_apply] at hx
      split at hx
      · cases hx
      · exact h.relaying j x hx
    · rename_i event id rest hrelaying
      cases hs
      refine ⟨h.member, h.ended, h.inbox, fun j x hx => ?_, h.placed,
        h.authorized⟩
      simp only [Function.update_apply] at hx
      split at hx
      · cases hx
        exact h.relaying i (event, id :: rest) hrelaying
      · exact h.relaying j x hx

/-! ### What the condition keeps -/

omit [DecidableEq I] in
theorem userTopic_ne_channelTopic : userTopic userId ≠ channelTopic channelId := by
  simp [userTopic, channelTopic]

/-- No open connection hears of a channel that its user is no member of any more. -/
structure Current (s : State I) : Prop where
  subscribed : ∀ connectionId, ∀ connection ∈ s.serving connectionId,
    connection.state.connected = true → ∀ channelId,
      channelTopic channelId ∈ connection.state.subscribedTopics →
        s.endedAt channelId connection.state.userId = none
  underway : ∀ i event rest, s.relaying i = some (event, rest) → ∀ connectionId ∈ rest,
    ∀ connection ∈ s.connections connectionId, connection.state.connected = true →
      ∀ channelId, event.topic = channelTopic channelId →
        channelTopic channelId ∈ connection.state.subscribedTopics →
          ∀ n ∈ s.endedAt channelId connection.state.userId, event.index < n

omit [DecidableEq I] in
theorem current_initial (db : Topics.Db) : Current (initial db : State I) where
  subscribed := nofun
  underway := nofun

omit [DecidableEq I] in
theorem Current.withheld (h : Current s) : Withheld s e := by
  intro x hx c htopic _ n hn
  obtain ⟨i, sends, rest, -, id, connection, hrelaying, hconnection, hstate, hreaches⟩ := mem_sent hx
  rw [Reaches, ← hstate, htopic] at hreaches
  rw [← hstate] at hn
  exact h.underway i x.2 (id :: rest) hrelaying id List.mem_cons_self connection hconnection
    hreaches.2.2.2.1 c htopic hreaches.2.1 n hn

omit [DecidableEq I] in
/-- A connection is changed: it hears of nothing new but what its user is a member of. -/
theorem Current.put (h : Current s) (registered : I → List Uuid)
    (hregistered : ∀ i, ∀ id ∈ registered i, id = connectionId ∨ id ∈ s.registered i)
    (hhears : ∀ c, connection'.state.connected = true →
      channelTopic c ∈ connection'.state.subscribedTopics →
        s.endedAt c connection'.state.userId = none ∨
          ∃ connection ∈ s.connections connectionId,
            connection.state.userId = connection'.state.userId ∧
              connection.state.connected = true ∧
                channelTopic c ∈ connection.state.subscribedTopics ∧
                  (connectionId ∈ registered connection'.instance_ →
                    connectionId ∈ s.registered connection.instance_)) :
    Current { (s.put connectionId connection') with registered := registered } where
  subscribed id other hserving hconnected c htopic := by
    have hput := serving_eq_some.mp hserving
    simp only [State.put, Function.update_apply] at hput ⊢
    obtain ⟨hother, hserves⟩ := hput
    split at hother
    · rename_i heq
      subst heq
      cases hother
      obtain hmember | ⟨connection, hconnection, huser, hopen, hsub, hkept⟩ :=
        hhears c hconnected htopic
      · exact hmember
      · rw [← huser]
        refine h.subscribed id connection ?_ hopen c hsub
        exact serving_eq_some.mpr ⟨hconnection, hkept hserves⟩
    · rename_i hne
      refine h.subscribed id other ?_ hconnected c htopic
      exact serving_eq_some.mpr ⟨hother, (hregistered _ id hserves).resolve_left hne⟩
  underway i event rest hrelaying id hid other hother hconnected c htopic hsub n hn := by
    simp only [State.put, Function.update_apply] at hother hrelaying hn
    split at hother
    · rename_i heq
      subst heq
      cases hother
      obtain hmember | ⟨connection, hconnection, huser, hopen, hsub', -⟩ := hhears c hconnected hsub
      · rw [hmember] at hn
        cases hn
      · rw [← huser] at hn
        exact h.underway i event rest hrelaying id hid connection hconnection hopen c htopic hsub' n hn
    · exact h.underway i event rest hrelaying id hid other hother hconnected c htopic hsub n hn

theorem Current.step (h : Current s) (hsound : Sound s) (hC : Unsubscribed s e)
    (hs : step s e = some s') : Current s' := by
  cases e with
  | joined c u =>
    simp only [RevokedDelivery.step] at hs
    split at hs
    · cases hs
    cases hs
    constructor
    · intro id connection hserving hconnected c' htopic
      simp only [set₂_apply]
      split
      · rfl
      · exact h.subscribed id connection hserving hconnected c' htopic
    · intro i event rest hrelaying id hid connection hconnection hconnected c' htopic hsub n hn
      simp only [set₂_apply] at hn
      split at hn
      · cases hn
      · exact h.underway i event rest hrelaying id hid connection hconnection hconnected c' htopic
          hsub n hn
  | removed c u =>
    simp only [RevokedDelivery.step] at hs
    split at hs
    · cases hs
      constructor
      · intro id connection hserving hconnected c' htopic
        simp only [set₂_apply]
        split
        · rename_i heq
          exact absurd (heq.1 ▸ htopic) (hC id connection hserving heq.2 hconnected)
        · exact h.subscribed id connection hserving hconnected c' htopic
      · intro i event rest hrelaying id hid connection hconnection hconnected c' htopic hsub n hn
        simp only [set₂_apply] at hn
        split at hn
        · -- what is being relayed was published before the membership ended
          cases hn
          exact hsound.relaying i (event, rest) hrelaying
        · exact h.underway i event rest hrelaying id hid connection hconnection hconnected c' htopic
            hsub n hn
    · cases hs
  | account u isActive =>
    cases hs
    exact ⟨h.subscribed, h.underway⟩
  | register i id u =>
    simp only [RevokedDelivery.step] at hs
    split at hs
    · cases hs
    · cases hs
      refine h.put _ (registered_append i id) fun c _ hsub => ?_
      exact absurd (List.mem_singleton.mp hsub).symm userTopic_ne_channelTopic
  | join id conversation =>
    obtain ⟨connection, hserving, hs⟩ := Option.bind_eq_some_iff.mp hs
    obtain ⟨hconnection, hserves⟩ := serving_eq_some.mp hserving
    split at hs
    · cases hs
      refine h.put s.registered (fun _ _ => .inr) fun c hconnected hsub => ?_
      exact .inr ⟨connection, hconnection, rfl, hconnected, hsub, fun hid => hid⟩
    · cases hs
  | subscribe id =>
    obtain ⟨connection, hserving, hs⟩ := Option.bind_eq_some_iff.mp hs
    obtain ⟨topic, htopic, hs⟩ := Option.bind_eq_some_iff.mp hs
    obtain ⟨hconnection, hserves⟩ := serving_eq_some.mp hserving
    cases hs
    refine h.put s.registered (fun _ _ => .inr) fun c hconnected hsub => ?_
    obtain heq | hsub := List.mem_insert_iff.mp hsub
    · rw [← heq] at htopic
      exact .inl (hsound.member c _ (hC connection hserving hconnected c htopic))
    · exact .inr ⟨connection, hconnection, rfl, hconnected, hsub, fun hid => hid⟩
  | leave id conversation =>
    obtain ⟨connection, hserving, hs⟩ := Option.bind_eq_some_iff.mp hs
    obtain ⟨hconnection, hserves⟩ := serving_eq_some.mp hserving
    split at hs
    · cases hs
    · cases hs
      refine h.put s.registered (fun _ _ => .inr) fun c hconnected hsub => ?_
      exact .inr ⟨connection, hconnection, rfl, hconnected, (List.mem_filter.mp hsub).1,
        fun hid => hid⟩
  | closed id =>
    obtain ⟨connection, hconnection, hs⟩ := Option.bind_eq_some_iff.mp hs
    cases hs
    exact h.put s.registered (fun _ _ => .inr) fun c hconnected => by cases hconnected
  | unregister id =>
    obtain ⟨connection, hserving, hs⟩ := Option.bind_eq_some_iff.mp hs
    obtain ⟨hconnection, hserves⟩ := serving_eq_some.mp hserving
    cases hs
    refine h.put _ (registered_filter connection.instance_ id) fun c hconnected hsub => ?_
    exact .inr ⟨connection, hconnection, rfl, hconnected, hsub, fun _ => hserves⟩
  | publish topic payload listening =>
    cases hs
    exact ⟨h.subscribed, h.underway⟩
  | cut i =>
    cases hs
    exact ⟨h.subscribed, h.underway⟩
  | receive i =>
    simp only [RevokedDelivery.step] at hs
    split at hs
    · rename_i event rest hidle hinbox
      cases hs
      refine ⟨h.subscribed, ?_⟩
      intro j other ids hrelaying id hid connection hconnection hconnected c htopic hsub n hn
      simp only [Function.update_apply] at hrelaying
      split at hrelaying
      · cases hrelaying
        -- the connections of the instance are registered
        obtain ⟨other, hother, hplaced⟩ := hsound.placed i id hid
        obtain rfl : connection = other := Option.some.inj (hconnection.symm.trans hother)
        have hserving : connection ∈ s.serving id :=
          serving_eq_some.mpr ⟨hconnection, hplaced ▸ hid⟩
        rw [h.subscribed id connection hserving hconnected c hsub] at hn
        cases hn
      · exact h.underway j other ids hrelaying id hid connection hconnection hconnected c htopic
          hsub n hn
    · cases hs
  | turn i sends =>
    simp only [RevokedDelivery.step] at hs
    split at hs
    · cases hs
    · cases hs
      refine ⟨h.subscribed, ?_⟩
      intro j other ids hrelaying id hid connection hconnection hconnected c htopic hsub n hn
      simp only [Function.update_apply] at hrelaying
      split at hrelaying
      · cases hrelaying
      · exact h.underway j other ids hrelaying id hid connection hconnection hconnected c htopic
          hsub n hn
    · rename_i event first rest hrelays
      cases hs
      refine ⟨h.subscribed, ?_⟩
      intro j other ids hrelaying id hid connection hconnection hconnected c htopic hsub n hn
      simp only [Function.update_apply] at hrelaying
      split at hrelaying
      · cases hrelaying
        exact h.underway i event (first :: rest) hrelays id (List.mem_cons_of_mem first hid)
          connection hconnection hconnected c htopic hsub n hn
      · exact h.underway j other ids hrelaying id hid connection hconnection hconnected c htopic
          hsub n hn

/-! ### Where it is not kept -/

/-- Turns pass over connections and change nothing else. -/
theorem last_turns {i : I} {event : Published} {skipped rest : List Uuid}
    (h : s.relaying i = some (event, skipped ++ rest)) :
    last step s (List.replicate skipped.length (.turn i true)) =
      { s with relaying := Function.update s.relaying i (some (event, rest)) } := by
  induction skipped generalizing s with
  | nil =>
    rw [List.nil_append] at h
    rw [← h, Function.update_eq_self]
    rfl
  | cons id skipped ih =>
    have hstep : step s (.turn i true) = some
        { s with relaying := Function.update s.relaying i (some (event, skipped ++ rest)) } := by
      rw [List.cons_append] at h
      simp only [step, h]
    rw [List.length_cons, List.replicate_succ]
    simp only [last, hstep]
    rw [ih (Function.update_self ..)]
    simp only [Function.update_idem]

/-- A relay comes to the end of what it is doing. -/
theorem exists_idle (s : State I) (i : I) :
    ∃ es, last step s es = { s with relaying := Function.update s.relaying i none } := by
  cases h : s.relaying i with
  | none =>
    refine ⟨[], ?_⟩
    rw [← h, Function.update_eq_self]
    rfl
  | some x =>
    obtain ⟨event, ids⟩ := x
    rw [← List.append_nil ids] at h
    refine ⟨List.replicate ids.length (.turn i true) ++ [.turn i true], ?_⟩
    rw [last_append, last_turns h]
    simp only [last, step, Function.update_self, Function.update_idem]

/-- An envelope that announces a message. -/
def announcement : Json := .object [(typeKey, .string messageCreatedType)]

theorem typingTyperId_announcement : typingTyperId announcement = none := by decide

/-- Whoever is subscribed to a channel after the end of the membership is sent its next event, if
nothing is lost. -/
theorem exists_sent (h : Sound s) (hserving : connection ∈ s.serving connectionId)
    (hconnected : connection.state.connected = true)
    (hsub : channelTopic channelId ∈ connection.state.subscribedTopics)
    (hn : s.endedAt channelId connection.state.userId = some n) :
    ∃ es, ∃ y ∈ transitions step s es, ¬ Withheld y.1 y.2.1 := by
  obtain ⟨hconnection, hserves⟩ := serving_eq_some.mp hserving
  obtain ⟨before, after, hsplit⟩ := List.append_of_mem hserves
  let i := connection.instance_
  obtain ⟨es, hes⟩ : ∃ es, last step s es =
      { s with relaying := Function.update s.relaying i none } := exists_idle s i
  let event : Published := ⟨channelTopic channelId, announcement, s.published⟩
  let inbox := Function.update (fun j => Function.update s.inbox i [] j ++ [event]) i []
  -- the relay has received the event, and then it is the connection's turn
  let s₁ : State I := { s with
    inbox := inbox
    relaying := Function.update s.relaying i (some (event, s.registered i))
    published := s.published + 1 }
  let s₂ : State I := { s₁ with
    relaying := Function.update s₁.relaying i (some (event, connectionId :: after)) }
  let events : List (Event I) := es ++ [.cut i, .publish event.topic event.payload fun _ => true,
    .receive i] ++ List.replicate before.length (.turn i true)
  have hreceived : last step s (es ++ [.cut i, .publish event.topic event.payload fun _ => true,
      .receive i]) = s₁ := by
    rw [last_append, hes]
    simp only [last, step, Function.update_self, if_true, List.nil_append, Function.update_idem]
    rfl
  have hturn : last step s events = s₂ := by
    have hrelaying : s₁.relaying i = some (event, before ++ connectionId :: after) := by
      rw [← hsplit]
      exact Function.update_self ..
    rw [last_append, hreceived, last_turns hrelaying]
  have hrelaying : s₂.relaying i = some (event, connectionId :: after) := Function.update_self ..
  let s₃ : State I := { s₂ with relaying := Function.update s₂.relaying i (some (event, after)) }
  have hstep : step s₂ (.turn i true) = some s₃ := by
    simp only [step, hrelaying]
    rfl
  refine ⟨events ++ [.turn i true], (s₂, .turn i true, s₃), ?_, fun hwithheld => ?_⟩
  · rw [transitions_append, hturn]
    refine List.mem_append_right _ ?_
    simp only [transitions, hstep, List.mem_singleton]
  · have hreaches : Reaches (fun _ => true) event.topic event.payload connection.state := by
      refine ⟨rfl, hsub, ?_, hconnected, rfl⟩
      rw [typingTyperId_announcement]
      exact (Option.some_ne_none _).symm
    have hsent : (connection.state, event) ∈ sent s₂ (.turn i true) := by
      have hconnection₂ : s₂.connections connectionId = some connection := hconnection
      simp only [sent, hrelaying, hconnection₂, handleMessage_only, if_pos hreaches]
      exact List.mem_singleton.mpr rfl
    have hlt : s.published < n := hwithheld (connection.state, event) hsent channelId rfl
      ⟨messageCreatedType, List.mem_cons_self, rfl⟩ n hn
    exact absurd (h.ended channelId connection.state.userId n hn) (not_le.mpr hlt)

/-- A step that does not meet the condition leaves a connection subscribed. -/
theorem exists_sent_of_subscribed (h : Sound s) (hC : ¬ Unsubscribed s e)
    (hs : step s e = some s') : ∃ es, ∃ y ∈ transitions step s' es, ¬ Withheld y.1 y.2.1 := by
  have hsound := h.step hs
  cases e with
  | removed c u =>
    simp only [Unsubscribed, not_forall, not_not] at hC
    obtain ⟨id, connection, hserving, rfl, hconnected, hsub⟩ := hC
    simp only [step] at hs
    split at hs
    · cases hs
      refine exists_sent (n := s.published) hsound hserving hconnected hsub ?_
      simp only [set₂_apply, and_self, if_true]
    · cases hs
  | subscribe id =>
    simp only [Unsubscribed, not_forall] at hC
    obtain ⟨connection, hserving, hconnected, c, htopic, hmember⟩ := hC
    obtain ⟨hconnection, hserves⟩ := serving_eq_some.mp hserving
    obtain ⟨n, hn⟩ := Option.ne_none_iff_exists'.mp
      ((h.authorized id connection hconnection c htopic).resolve_left hmember)
    have hstep : step s (.subscribe id) = some (s.put id { connection with
        state := { connection.state with
          subscribedTopics := connection.state.subscribedTopics.insert (channelTopic c) }
        authorized := none }) := by
      simp only [step, Option.mem_def.mp hserving, htopic, Option.bind_eq_bind, Option.bind_some]
    rw [hstep] at hs
    cases hs
    refine exists_sent hsound (serving_eq_some.mpr ⟨Function.update_self .., hserves⟩) hconnected
      (List.mem_insert_self ..) hn
  | _ => exact absurd trivial hC

/-- **Where a membership ends with no connection subscribed, and none is subscribed without it, a
former member is sent nothing; and where it is not so, something may be.** -/
theorem former_member_unsent (db : Topics.Db) (es : List (Event I)) :
    ((∀ x ∈ transitions step (initial db) es, Unsubscribed x.1 x.2.1) →
      ∀ x ∈ transitions step (initial db) es, Withheld x.1 x.2.1) ∧
    ∀ x ∈ transitions step (initial db) es, ¬ Unsubscribed x.1 x.2.1 →
      ∃ es', ∃ y ∈ transitions step x.2.2 es', ¬ Withheld y.1 y.2.1 := by
  constructor
  · intro hC
    refine transitions_of_inv (I := fun s => Sound s ∧ Current s) (Q := fun s e _ => Withheld s e)
      (fun s e s' hi hc hs => ?_) ⟨sound_initial db, current_initial db⟩ es hC
    exact ⟨⟨hi.1.step hs, hi.2.step hi.1 hc hs⟩, hi.2.withheld⟩
  · intro x hx hC
    have hrun := transitions_of_inv (I := Sound) (C := fun _ _ => True)
      (Q := fun s e s' => Sound s ∧ step s e = some s')
      (fun s e s' hi _ hs => ⟨hi.step hs, hi, hs⟩) (sound_initial db) es (fun _ _ => trivial) x hx
    exact exists_sent_of_subscribed hrun.1 hC hrun.2

/-- A member joins, leaves the channel, and stays subscribed. -/
example : ¬ Unsubscribed (last step (initial ⟨fun _ _ => true, fun _ => none⟩)
    [.register () 5 7, .join 5 (.channel 3), .subscribe 5]) (.removed 3 7) := by
  intro h
  have hsub : channelTopic 3 ∈ [userTopic 7].insert (channelTopic 3) := List.mem_insert_self ..
  exact h 5 ⟨(), ⟨5, 7, [userTopic 7].insert (channelTopic 3), true⟩, none⟩ rfl rfl rfl hsub

end Chatspace.RevokedDelivery
