import Chatspace.Backend.Schema
import Chatspace.Reactive.Runs

/-!
# `store/myChannelsStore.ts`

The store of the channels the caller belongs to, with the calls of `load()` that are under way.  It
outlives the session: `clearSession` calls `reset()`.  Of a channel it reads the id only.

* `load`, `upsertChannel`, `removeChannel`, `reset` — the actions, `load` cut at its `await`s;
* `From` — where a channel has come from since a `reset()`;
* `Settled` — what no `load()` from before a `reset()` can change any more;
* `account_isolation` — **a `reset()` that no `load()` is under way at keeps the accounts apart.**
-/

namespace Chatspace.MyChannels

structure MyChannelSummary where
  id : Text
  name : Text
  isPrivate : Bool
  createdBy : Text
  createdAt : Text
  memberCount : ℕ
  myRole : Text
deriving DecidableEq

structure State (Channel : Type) where
  channels : List Channel
  isLoading : Bool
  error : Option Text
  viewedChannelId : Option Text
  removedChannelId : Option Text
  /-- Every call of `load()`, in order: what it has collected, while it is under way. -/
  loads : List (Option (List Channel))
deriving DecidableEq

inductive Event (Channel : Type) where
  | load
  /-- `listMyChannels` answers the call `k` of `load()`. -/
  | page (k : ℕ) (items : List Channel) (nextCursor : Option Text)
  | pageFails (k : ℕ) (err : Text)
  | upsertChannel (channel : Channel)
  | removeChannel (channelId : Text)
  | setViewedChannel (channelId : Option Text)
  | clearRemovedNotice
  | reset
deriving DecidableEq

variable {Channel : Type} (idOf : Channel → Text)

/-- `initialState`. -/
def initialState : State Channel where
  channels := []
  isLoading := true
  error := none
  viewedChannelId := none
  removedChannelId := none
  loads := []

namespace State

variable (s : State Channel)

/-- `load()` up to its first `await`. -/
def load : State Channel :=
  { s with isLoading := true, error := none, loads := s.loads ++ [some []] }

/-- `load()` after an `await` of `listMyChannels`; an empty cursor ends the loop. -/
def loadPage (k : ℕ) (collected : List Channel) (nextCursor : Option Text) : State Channel :=
  if nextCursor = none ∨ nextCursor = some [] then
    { s with channels := collected, isLoading := false, error := none, loads := s.loads.set k none }
  else { s with loads := s.loads.set k (some collected) }

def loadFails (k : ℕ) (err : Text) : State Channel :=
  { s with error := some err, isLoading := false, loads := s.loads.set k none }

def upsertChannel (channel : Channel) : State Channel :=
  let removedChannelId :=
    if s.removedChannelId = some (idOf channel) then none else s.removedChannelId
  match s.channels.findIdx? fun existing => idOf existing = idOf channel with
  | none => { s with channels := channel :: s.channels, removedChannelId }
  | some index => { s with channels := s.channels.set index channel, removedChannelId }

def removeChannel (channelId : Text) : State Channel :=
  { s with
    channels := s.channels.filter fun channel => idOf channel ≠ channelId
    removedChannelId :=
      if s.viewedChannelId = some channelId then some channelId else s.removedChannelId }

/-- What is under way stays under way. -/
def reset : State Channel := { initialState with loads := s.loads }

end State

/-- What happens; `none` where it cannot. -/
def step (s : State Channel) : Event Channel → Option (State Channel)
  | .load => some s.load
  | .page k items nextCursor =>
    match s.loads[k]? with
    | some (some collected) => some (s.loadPage k (collected ++ items) nextCursor)
    | _ => none
  | .pageFails k err =>
    match s.loads[k]? with
    | some (some _) => some (s.loadFails k err)
    | _ => none
  | .upsertChannel channel => some (s.upsertChannel idOf channel)
  | .removeChannel channelId => some (s.removeChannel idOf channelId)
  | .setViewedChannel channelId => some { s with viewedChannelId := channelId }
  | .clearRemovedNotice => some { s with removedChannelId := none }
  | .reset => some s.reset

/-! ### Where channels come from -/

/-- The event brings the channel: a live event, or a page of a call of `load()` other than the
first `n`. -/
def Brings (n : ℕ) (c : Channel) : Event Channel → Prop
  | .upsertChannel channel => channel = c
  | .page k items _ => n ≤ k ∧ c ∈ items
  | _ => False

/-- One of these steps has brought the channel. -/
def From (n : ℕ) (xs : List (State Channel × Event Channel × State Channel)) (c : Channel) : Prop :=
  ∃ x ∈ xs, Brings n c x.2.1

/-- In this run a channel is shown after a `reset()` that has not come since then. -/
def Leaks (s : State Channel) (es : List (Event Channel)) : Prop :=
  ∃ es₁ es₂, es = es₁ ++ .reset :: es₂ ∧ ∃ c ∈ (Reactive.last (step idOf) s es).channels,
    ¬From (Reactive.last (step idOf) s es₁).loads.length
      (Reactive.transitions (step idOf) (Reactive.last (step idOf) s es₁).reset es₂) c

/-- No `load()` is under way at a `reset()`. -/
def Calm (s : State Channel) (e : Event Channel) : Prop :=
  e = .reset → ∀ load ∈ s.loads, load = none

variable {idOf} {s s' : State Channel} {e : Event Channel} {n k : ℕ} {c : Channel}
  {xs ys : List (State Channel × Event Channel × State Channel)}

theorem From.append (h : From n xs c) (ys : List (State Channel × Event Channel × State Channel)) :
    From n (xs ++ ys) c := by
  obtain ⟨x, hx, hfrom⟩ := h
  exact ⟨x, List.mem_append_left _ hx, hfrom⟩

/-- The first `n` calls of `load()` are over, and what is shown or collected has come from these
steps. -/
structure Settled (n : ℕ) (xs : List (State Channel × Event Channel × State Channel))
    (s : State Channel) : Prop where
  started : n ≤ s.loads.length
  ended : ∀ k < n, s.loads[k]? = some none
  shown : ∀ c ∈ s.channels, From n xs c
  collected : ∀ (k : ℕ) (collected : List Channel), s.loads[k]? = some (some collected) →
    ∀ c ∈ collected, From n xs c

/-- One of the calls that are not over goes on, or ends. -/
theorem Settled.set (h : Settled n xs s) {load : Option (List Channel)} (hk : n ≤ k)
    (hload : ∀ collected, load = some collected → ∀ c ∈ collected, From n xs c)
    (hchannels : ∀ c ∈ s'.channels, From n xs c) (hloads : s'.loads = s.loads.set k load) :
    Settled n xs s' := by
  refine ⟨?_, fun j hj => ?_, hchannels, fun j collected hj => ?_⟩
  · rw [hloads, List.length_set]
    exact h.started
  · rw [hloads, List.getElem?_set_ne (by omega)]
    exact h.ended j hj
  · rw [hloads, List.getElem?_set] at hj
    split at hj
    · split at hj
      · exact hload collected (Option.some.inj hj)
      · cases hj
    · exact h.collected j collected hj

/-- A step that leaves the calls of `load()` as they are. -/
theorem Settled.keep (h : Settled n xs s) (hchannels : ∀ c ∈ s'.channels, From n xs c)
    (hloads : s'.loads = s.loads) : Settled n xs s' :=
  ⟨hloads ▸ h.started, hloads ▸ h.ended, hchannels, hloads ▸ h.collected⟩

theorem Settled.append (h : Settled n xs s)
    (ys : List (State Channel × Event Channel × State Channel)) : Settled n (xs ++ ys) s :=
  ⟨h.started, h.ended, fun c hc => (h.shown c hc).append ys,
    fun k collected hk c hc => (h.collected k collected hk c hc).append ys⟩

/-- **What has come since the `reset()` is all that is shown.** -/
theorem settled_step (h : Settled n xs s) (hs : step idOf s e = some s') :
    Settled n (xs ++ [(s, e, s')]) s' := by
  have hold := h.append [(s, e, s')]
  -- what this step brings
  have hnew : ∀ c, Brings n c e → From n (xs ++ [(s, e, s')]) c :=
    fun c hc => ⟨_, List.mem_append_right _ List.mem_cons_self, hc⟩
  cases e with
  | load =>
    cases hs
    refine ⟨?_, fun k hk => ?_, hold.shown, fun k collected hk => ?_⟩
    · show n ≤ (s.loads ++ [some []]).length
      rw [List.length_append]
      exact Nat.le_add_right_of_le h.started
    · show (s.loads ++ [some []])[k]? = some none
      rw [List.getElem?_append_left (Nat.lt_of_lt_of_le hk h.started)]
      exact h.ended k hk
    · have hk' : (s.loads ++ [some []])[k]? = some (some collected) := hk
      rw [List.getElem?_append] at hk'
      split at hk'
      · exact hold.collected k collected hk'
      · have hmem := List.mem_of_getElem? hk'
        rw [List.mem_singleton, Option.some.injEq] at hmem
        rw [hmem]
        exact nofun
  | page k items nextCursor =>
    simp only [step] at hs
    split at hs
    · rename_i collected hk
      have hle : n ≤ k := by
        by_contra hlt
        rw [h.ended k (by omega)] at hk
        cases hk
      have hall : ∀ c ∈ collected ++ items, From n (xs ++ [(s, .page k items nextCursor, s')]) c := by
        intro c hc
        rcases List.mem_append.mp hc with hc | hc
        · exact hold.collected k collected hk c hc
        · exact hnew c ⟨hle, hc⟩
      cases hs
      unfold State.loadPage at hold hall ⊢
      split
      · rename_i hlast
        rw [if_pos hlast] at hold hall
        refine hold.set hle (fun collected' heq => ?_) hall rfl
        cases heq
      · rename_i hlast
        rw [if_neg hlast] at hold hall
        refine hold.set hle (fun collected' heq => ?_) hold.shown rfl
        cases heq
        exact hall
    · cases hs
  | pageFails k err =>
    simp only [step] at hs
    split at hs
    · rename_i collected hk
      have hle : n ≤ k := by
        by_contra hlt
        rw [h.ended k (by omega)] at hk
        cases hk
      cases hs
      refine hold.set hle (fun collected' heq => ?_) hold.shown rfl
      cases heq
    · cases hs
  | upsertChannel channel =>
    cases hs
    unfold State.upsertChannel at hold hnew ⊢
    simp only at hold hnew ⊢
    split
    · rename_i hindex
      rw [hindex] at hold hnew
      refine hold.keep (fun c hc => ?_) rfl
      rcases List.mem_cons.mp hc with rfl | hc
      · exact hnew c rfl
      · exact hold.shown c hc
    · rename_i index hindex
      rw [hindex] at hold hnew
      refine hold.keep (fun c hc => ?_) rfl
      rcases List.mem_or_eq_of_mem_set hc with hc | rfl
      · exact hold.shown c hc
      · exact hnew c rfl
  | removeChannel channelId =>
    cases hs
    exact hold.keep (fun c hc => hold.shown c (List.mem_of_mem_filter hc)) rfl
  | setViewedChannel channelId =>
    cases hs
    exact hold.keep hold.shown rfl
  | clearRemovedNotice =>
    cases hs
    exact hold.keep hold.shown rfl
  | reset =>
    cases hs
    exact hold.keep nofun rfl

/-- A `reset()` that no `load()` is under way at. -/
theorem settled_reset (hcalm : ∀ load ∈ s.loads, load = none) :
    Settled s.loads.length [] s.reset := by
  refine ⟨Nat.le_refl _, fun k hk => ?_, nofun, fun k collected hk => ?_⟩
  · show s.loads[k]? = some none
    rw [List.getElem?_eq_getElem hk, hcalm _ (List.getElem_mem hk)]
  · cases hcalm _ (List.mem_of_getElem? hk)

/-- **In a calm run nothing leaks.** -/
theorem not_leaks {es : List (Event Channel)}
    (hcalm : ∀ x ∈ Reactive.transitions (step idOf) s es, Calm x.1 x.2.1) : ¬Leaks idOf s es := by
  rintro ⟨es₁, es₂, rfl, c, hc, hleak⟩
  rw [Reactive.transitions_append, List.forall_mem_append] at hcalm
  have hreset : ∀ load ∈ (Reactive.last (step idOf) s es₁).loads, load = none :=
    hcalm.2 (_, .reset, _) List.mem_cons_self rfl
  have hsettled := Reactive.last_of_history
    (H := Settled (Reactive.last (step idOf) s es₁).loads.length) (fun xs s e s' h (hs : step idOf s e = some s') =>
      settled_step h hs) (settled_reset hreset) es₂
  rw [Reactive.last_append] at hc
  exact hleak (hsettled.shown c hc)

/-- A `reset()` while a `load()` is under way can be undone by its answer. -/
theorem leaks_of_loading (s : State Channel) (es : List (Event Channel)) {collected : List Channel}
    (hk : (Reactive.last (step idOf) s es).loads[k]? = some (some collected)) (c : Channel) :
    Leaks idOf s (es ++ [.reset, .page k [c] none]) := by
  refine ⟨es, [.page k [c] none], rfl, c, ?_, ?_⟩
  · rw [Reactive.last_append]
    generalize Reactive.last (step idOf) s es = t at hk ⊢
    have hk' : t.reset.loads[k]? = some (some collected) := hk
    simp only [Reactive.last, step, hk', State.loadPage, true_or, if_true]
    exact List.mem_append_right _ List.mem_cons_self
  · generalize Reactive.last (step idOf) s es = t at hk ⊢
    rintro ⟨x, hx, hfrom⟩
    have hlt := (List.getElem?_eq_some_iff.mp hk).1
    have hk' : t.reset.loads[k]? = some (some collected) := hk
    simp only [Reactive.transitions, step, hk', List.mem_singleton] at hx
    subst hx
    exact absurd hfrom.1 (Nat.not_le_of_lt hlt)

/-- **Channel list account isolation.** In every run in which no `load()` is under way at a
`reset()`, the channels shown after it have come from live events and from calls of `load()` since
then; and where one is under way, its answer may show others. -/
theorem account_isolation (idOf : Channel → Text) (es : List (Event Channel)) :
    ((∀ x ∈ Reactive.transitions (step idOf) initialState es, Calm x.1 x.2.1) →
      ¬Leaks idOf initialState es) ∧
    ∀ (k : ℕ) (collected : List Channel) (c : Channel),
      (Reactive.last (step idOf) initialState es).loads[k]? = some (some collected) →
        Leaks idOf initialState (es ++ [.reset, .page k [c] none]) :=
  ⟨not_leaks, fun _ _ c hk => leaks_of_loading initialState es hk c⟩

/-- A channel with this id and name. -/
def channelNamed (id name : Text) : MyChannelSummary :=
  ⟨id, name, true, ['u'], ['t'], 2, ['m']⟩

/-- The first account's list is loaded, it logs out, and the second account loads its own. -/
def loadThenLogout : List (Event MyChannelSummary) :=
  [.load, .page 0 [channelNamed ['1'] ['a']] (some ['x']), .page 0 [channelNamed ['2'] ['b']] none,
    .reset, .load, .page 1 [channelNamed ['3'] ['c']] none]

instance [DecidableEq Channel] (n : ℕ) (c : Channel) : DecidablePred (Brings n c)
  | .upsertChannel channel => inferInstanceAs (Decidable (channel = c))
  | .page k items _ => inferInstanceAs (Decidable (n ≤ k ∧ c ∈ items))
  | .load | .pageFails .. | .removeChannel _ | .setViewedChannel _ | .clearRemovedNotice | .reset =>
    inferInstanceAs (Decidable False)

instance [DecidableEq Channel] (n : ℕ)
    (xs : List (State Channel × Event Channel × State Channel)) (c : Channel) :
    Decidable (From n xs c) :=
  inferInstanceAs (Decidable (∃ x ∈ xs, Brings n c x.2.1))

instance [DecidableEq Channel] (s : State Channel) (e : Event Channel) : Decidable (Calm s e) :=
  inferInstanceAs (Decidable (e = .reset → ∀ load ∈ s.loads, load = none))

theorem account_isolation_logout : ¬Leaks MyChannelSummary.id initialState loadThenLogout :=
  (account_isolation MyChannelSummary.id loadThenLogout).1 (by decide)

/-- The first account logs out while its list is being loaded, and the second account logs in. -/
def logoutWhileLoading : List (Event MyChannelSummary) :=
  [.load, .reset, .load, .page 1 [channelNamed ['3'] ['c']] none,
    .page 0 [channelNamed ['1'] ['a']] none]

/-- **The second account is shown the first account's channels.** -/
theorem logout_while_loading_leaks :
    Leaks MyChannelSummary.id initialState logoutWhileLoading ∧
    (Reactive.last (step MyChannelSummary.id) initialState logoutWhileLoading).channels =
      [channelNamed ['1'] ['a']] := by
  refine ⟨⟨[.load], [.load, .page 1 [channelNamed ['3'] ['c']] none,
    .page 0 [channelNamed ['1'] ['a']] none], rfl, channelNamed ['1'] ['a'], ?_, ?_⟩, by decide⟩
  · decide
  · decide

end Chatspace.MyChannels
