import Chatspace.Backend.Schema
import Chatspace.Reactive.Runs

/-!
# `api/httpClient.ts` and the session of `store/authStore.ts`

The client between two of its `await`s: the session it holds, the promises of `refreshAccessToken`,
and the requests.  Code between two `await`s runs undisturbed; responses come in any order.

* `setSession`, `clearSession` — `authStore.ts`;
* `performRefresh`, `refreshAccessToken`, `apiRequestWithStatus` — cut at their `await`s;
* `step` — one call, response or continuation;
* `Inv` — one refresh at a time, and no request sent more than twice;
* `client_session` — **a refresh that no `clearSession` overtakes revives nothing.**
-/

namespace Chatspace.HttpClient

/-- Both tokens are set, and dropped, together. -/
structure AuthSession where
  accessToken : Text
  refreshToken : Text
  accessToken_ne : accessToken ≠ []
  refreshToken_ne : refreshToken ≠ []
deriving DecidableEq

/-- How a `fetch` ends. -/
inductive FetchResult where
  | networkError
  | status (code : ℕ)
deriving DecidableEq

/-- `response.ok`. -/
def isOk (code : ℕ) : Bool := 200 ≤ code ∧ code < 300

/-! ### The state -/

/-- What a promise of `refreshAccessToken` resolves to, or why it is rejected. -/
inductive RefreshOutcome where
  | accessToken (token : Text)
  /-- An `ApiError` with this status. -/
  | apiError (status : ℕ)
  /-- What `fetch` or `response.json()` throws. -/
  | thrown
deriving DecidableEq

/-- Where `performRefresh` is. -/
inductive RefreshPhase where
  /-- It awaits the response of `/auth/refresh`, -/
  | fetching
  /-- or the tokens in it, -/
  | readingTokens
  /-- or, after a `clearSession`, the problem in it. -/
  | readingProblem (status : ℕ)
  | finished (outcome : RefreshOutcome)
  /-- The `finally` has run. -/
  | settled (outcome : RefreshOutcome)
deriving DecidableEq

/-- A call of `apiRequestWithStatus`. -/
inductive RequestPhase where
  | fetching
  /-- It awaits the promise with this number. -/
  | refreshing (promise : ℕ)
  | retrying
  | finished
deriving DecidableEq

structure Request where
  /-- `options.auth !== false`. -/
  auth : Bool
  /-- The bearer token of each `fetch`, in order. -/
  sent : List (Option Text)
  phase : RequestPhase
deriving DecidableEq

structure State where
  session : Option AuthSession
  /-- As its number in `refreshes`. -/
  refreshInFlight : Option ℕ
  /-- Every call of `performRefresh`, in order. -/
  refreshes : List RefreshPhase
  requests : List Request
deriving DecidableEq

/-- The page is loaded; `persisted` is what `tokenStorage` holds. -/
def loaded (persisted : Option AuthSession) : State where
  session := persisted
  refreshInFlight := none
  refreshes := []
  requests := []

namespace State

variable (s : State)

def setSession (session : AuthSession) : State := { s with session := some session }

def clearSession : State := { s with session := none }

/-- `authStoreApi.getState().accessToken`. -/
def accessToken : Option Text := s.session.map AuthSession.accessToken

/-- `performRefresh()` up to its first `await`. -/
def performRefresh : State :=
  { s with refreshes := s.refreshes ++
      [match s.session with
        | none => .finished (.apiError 401)
        | some _ => .fetching] }

/-- `refreshAccessToken()`, and the number of the promise it returns. -/
def refreshAccessToken : State × ℕ :=
  match s.refreshInFlight with
  | some promise => (s, promise)
  | none => ({ s.performRefresh with refreshInFlight := some s.refreshes.length }, s.refreshes.length)

def onRefresh (k : ℕ) (phase : RefreshPhase) : State :=
  { s with refreshes := s.refreshes.set k phase }

def onRequest (i : ℕ) (request : Request) : State :=
  { s with requests := s.requests.set i request }

/-- `apiRequestWithStatus` up to its first `await`; no caller requests `/auth/refresh`. -/
def apiRequestWithStatus (auth : Bool) : State :=
  { s with requests := s.requests ++
      [⟨auth, [if auth then s.accessToken else none], .fetching⟩] }

/-- `apiRequestWithStatus` after its first `fetch`. -/
def afterFetch (i : ℕ) (request : Request) (result : FetchResult) : State :=
  if result = .status 401 ∧ request.auth then
    let (s, promise) := s.refreshAccessToken
    s.onRequest i { request with phase := .refreshing promise }
  else s.onRequest i { request with phase := .finished }

/-- `apiRequestWithStatus` after its `await refreshAccessToken()`. -/
def afterRefresh (i : ℕ) (request : Request) : RefreshOutcome → State
  | .accessToken token =>
    s.onRequest i { request with sent := request.sent ++ [some token], phase := .retrying }
  | .apiError _ | .thrown => s.onRequest i { request with phase := .finished }

end State

/-! ### Events -/

inductive Event where
  | apiRequest (auth : Bool)
  /-- A `fetch` of request `i` ends. -/
  | fetched (i : ℕ) (result : FetchResult)
  /-- Request `i` goes on after its `await refreshAccessToken()`. -/
  | resumed (i : ℕ)
  /-- A socket calls `refreshAccessToken`. -/
  | refreshAccessToken
  /-- `/auth/refresh` answers call `k`. -/
  | refreshFetched (k : ℕ) (result : FetchResult)
  /-- The body of an answer is read; `none` if it is no JSON. -/
  | refreshBody (k : ℕ) (tokens : Option AuthSession)
  /-- `parseErrorResponse` is done; `bodyStatus` is the status that the body gives, if any. -/
  | problemRead (k : ℕ) (bodyStatus : Option ℕ)
  /-- The `finally` of call `k` runs. -/
  | finallyRuns (k : ℕ)
  /-- A logout, or a socket or a bootstrap that ends the session. -/
  | clearSession
  /-- A login. -/
  | setSession (session : AuthSession)
deriving DecidableEq

/-- What happens; `none` where it cannot. -/
def step (s : State) : Event → Option State
  | .apiRequest auth => some (s.apiRequestWithStatus auth)
  | .fetched i result =>
    match s.requests[i]? with
    | none => none
    | some request =>
      match request.phase with
      | .fetching => some (s.afterFetch i request result)
      | .retrying => some (s.onRequest i { request with phase := .finished })
      | .refreshing _ | .finished => none
  | .resumed i =>
    match s.requests[i]? with
    | none => none
    | some request =>
      match request.phase with
      | .refreshing promise =>
        match s.refreshes[promise]? with
        | some (.settled outcome) => some (s.afterRefresh i request outcome)
        | _ => none
      | .fetching | .retrying | .finished => none
  | .refreshAccessToken => some s.refreshAccessToken.1
  | .refreshFetched k result =>
    if s.refreshes[k]? = some .fetching then
      match result with
      | .networkError => some (s.onRefresh k (.finished .thrown))
      | .status code =>
        if isOk code then some (s.onRefresh k .readingTokens)
        else some (s.clearSession.onRefresh k (.readingProblem code))
    else none
  | .refreshBody k tokens =>
    if s.refreshes[k]? = some .readingTokens then
      match tokens with
      | none => some (s.onRefresh k (.finished .thrown))
      | some session =>
        some ((s.setSession session).onRefresh k (.finished (.accessToken session.accessToken)))
    else none
  | .problemRead k bodyStatus =>
    match s.refreshes[k]? with
    | some (.readingProblem status) =>
      some (s.onRefresh k (.finished (.apiError (bodyStatus.getD status))))
    | _ => none
  | .finallyRuns k =>
    match s.refreshes[k]? with
    | some (.finished outcome) => some { s.onRefresh k (.settled outcome) with refreshInFlight := none }
    | _ => none
  | .clearSession => some s.clearSession
  | .setSession session => some (s.setSession session)

/-! ### One refresh, two calls -/

/-- The `finally` has run. -/
def RefreshPhase.isSettled : RefreshPhase → Bool
  | .settled _ => true
  | _ => false

/-- The call awaits the response of `/auth/refresh`, or the tokens in it. -/
def RefreshPhase.awaits : RefreshPhase → Bool
  | .fetching | .readingTokens => true
  | _ => false

/-- How often a request has been sent at most. -/
def RequestPhase.calls : RequestPhase → ℕ
  | .fetching | .refreshing _ => 1
  | .retrying | .finished => 2

/-- One refresh at a time, and no request sent more than twice. -/
structure Inv (s : State) : Prop where
  single : ∀ k phase, s.refreshes[k]? = some phase → phase.isSettled = false →
    s.refreshInFlight = some k
  calls : ∀ request ∈ s.requests, request.sent.length ≤ request.phase.calls

variable {s s' : State} {e : Event} {k i : ℕ} {phase phase' : RefreshPhase} {request : Request}
  {persisted : Option AuthSession}

theorem inv_loaded : Inv (loaded persisted) := by
  constructor
  · intro k phase hk
    simp [loaded] at hk
  · intro request hrequest
    cases hrequest

/-- A call that is not settled may go on. -/
theorem Inv.onRefresh (h : Inv s) (hk : s.refreshes[k]? = some phase)
    (hp : phase.isSettled = false) (phase' : RefreshPhase) : Inv (s.onRefresh k phase') := by
  refine ⟨fun j q hj hq => ?_, h.calls⟩
  have hj' : (s.refreshes.set k phase')[j]? = some q := hj
  rw [List.getElem?_set] at hj'
  split at hj'
  · rename_i hkj
    subst hkj
    exact h.single k phase hk hp
  · exact h.single j q hj' hq

/-- The `finally` of a call leaves no call in flight. -/
theorem Inv.finallyRuns {outcome : RefreshOutcome} (h : Inv s)
    (hk : s.refreshes[k]? = some (.finished outcome)) :
    Inv { s.onRefresh k (.settled outcome) with refreshInFlight := none } := by
  refine ⟨fun j q hj hq => ?_, h.calls⟩
  have hj' : (s.refreshes.set k (.settled outcome))[j]? = some q := hj
  rw [List.getElem?_set] at hj'
  have hflight := h.single k _ hk rfl
  split at hj'
  · split at hj'
    · cases hj'
      cases hq
    · cases hj'
  · rename_i hkj
    have hother := h.single j q hj' hq
    rw [hflight] at hother
    exact absurd (Option.some.inj hother) hkj

theorem Inv.session (h : Inv s) (session : Option AuthSession) : Inv { s with session := session } :=
  ⟨h.single, h.calls⟩

theorem Inv.refreshAccessToken (h : Inv s) : Inv s.refreshAccessToken.1 := by
  unfold State.refreshAccessToken
  cases hs : s.refreshInFlight with
  | some promise => exact h
  | none =>
    refine ⟨fun j q hj hq => ?_, h.calls⟩
    have hj' : (s.refreshes ++ [_])[j]? = some q := hj
    rw [List.getElem?_append] at hj'
    split at hj'
    · -- nothing was in flight
      have hold := h.single j q hj' hq
      rw [hs] at hold
      cases hold
    · rename_i hlt
      obtain ⟨hlt', -⟩ := List.getElem?_eq_some_iff.mp hj'
      show some s.refreshes.length = some j
      simp only [List.length_singleton] at hlt'
      congr 1
      omega

theorem Inv.onRequest (h : Inv s) (hr : request.sent.length ≤ request.phase.calls) (i : ℕ) :
    Inv (s.onRequest i request) := by
  refine ⟨h.single, fun r hmem => ?_⟩
  rcases List.mem_or_eq_of_mem_set hmem with hold | rfl
  · exact h.calls r hold
  · exact hr

/-- **Every event keeps one refresh at a time and two calls a request.** -/
theorem inv_step (h : Inv s) (hs : step s e = some s') : Inv s' := by
  cases e with
  | apiRequest auth =>
    cases hs
    refine ⟨h.single, fun r hmem => ?_⟩
    rcases List.mem_append.mp hmem with hold | hnew
    · exact h.calls r hold
    · rw [List.mem_singleton.mp hnew]
      exact Nat.le_refl 1
  | fetched i result =>
    simp only [step] at hs
    split at hs
    · cases hs
    · rename_i request hi
      have hcalls := h.calls request (List.mem_of_getElem? hi)
      split at hs
      · rename_i hphase
        rw [hphase] at hcalls
        cases hs
        unfold State.afterFetch
        split
        · exact h.refreshAccessToken.onRequest hcalls i
        · exact h.onRequest (Nat.le_succ_of_le hcalls) i
      · rename_i hphase
        rw [hphase] at hcalls
        cases hs
        exact h.onRequest hcalls i
      · cases hs
      · cases hs
  | resumed i =>
    simp only [step] at hs
    split at hs
    · cases hs
    · rename_i request hi
      have hcalls := h.calls request (List.mem_of_getElem? hi)
      split at hs
      · rename_i promise hphase
        rw [hphase] at hcalls
        split at hs
        · rename_i outcome hk
          cases hs
          cases outcome with
          | accessToken token =>
            refine h.onRequest ?_ i
            rw [List.length_append]
            exact Nat.succ_le_succ hcalls
          | apiError status => exact h.onRequest (Nat.le_succ_of_le hcalls) i
          | thrown => exact h.onRequest (Nat.le_succ_of_le hcalls) i
        · cases hs
      · cases hs
      · cases hs
      · cases hs
  | refreshAccessToken =>
    cases hs
    exact h.refreshAccessToken
  | refreshFetched k result =>
    simp only [step, Option.ite_none_right_eq_some] at hs
    obtain ⟨hk, hs⟩ := hs
    cases result with
    | networkError =>
      cases hs
      exact h.onRefresh hk rfl _
    | status code =>
      simp only at hs
      split at hs
      · cases hs
        exact h.onRefresh hk rfl _
      · cases hs
        exact (h.session none).onRefresh hk rfl _
  | refreshBody k tokens =>
    simp only [step, Option.ite_none_right_eq_some] at hs
    obtain ⟨hk, hs⟩ := hs
    cases tokens with
    | none =>
      cases hs
      exact h.onRefresh hk rfl _
    | some session =>
      cases hs
      exact (h.session (some session)).onRefresh hk rfl _
  | problemRead k bodyStatus =>
    simp only [step] at hs
    split at hs
    · rename_i status hk
      cases hs
      exact h.onRefresh hk rfl _
    · cases hs
  | finallyRuns k =>
    simp only [step] at hs
    split at hs
    · rename_i outcome hk
      cases hs
      exact h.finallyRuns hk
    · cases hs
  | clearSession =>
    cases hs
    exact h.session none
  | setSession session =>
    cases hs
    exact h.session (some session)

/-! ### Refreshes that have got their tokens -/

/-- Call `k` neither awaits a response any more nor the tokens in it. -/
def Over (k : ℕ) (s : State) : Prop :=
  ∃ phase, s.refreshes[k]? = some phase ∧ phase.awaits = false

/-- A call goes on: another one, or one that does not come to await anything. -/
theorem Over.onRefresh {j : ℕ} (h : Over k s) (hj : s.refreshes[j]? = some phase)
    (hp : phase.awaits = true ∨ phase'.awaits = false) : Over k (s.onRefresh j phase') := by
  obtain ⟨q, hq, hover⟩ := h
  have hlt := (List.getElem?_eq_some_iff.mp hj).1
  by_cases hjk : j = k
  · subst hjk
    rw [hj] at hq
    cases hq
    have hp' : phase'.awaits = false := by
      rcases hp with hp | hp
      · rw [hp] at hover
        cases hover
      · exact hp
    exact ⟨phase', List.getElem?_set_self hlt, hp'⟩
  · exact ⟨q, (List.getElem?_set_ne hjk).trans hq, hover⟩

theorem Over.refreshAccessToken (h : Over k s) : Over k s.refreshAccessToken.1 := by
  unfold State.refreshAccessToken
  split
  · exact h
  · obtain ⟨q, hq, hawaits⟩ := h
    have hlt := (List.getElem?_eq_some_iff.mp hq).1
    exact ⟨q, (List.getElem?_append_left hlt).trans hq, hawaits⟩

/-- **What is over stays over.** -/
theorem over_step (h : Over k s) (hs : step s e = some s') : Over k s' := by
  cases e with
  | apiRequest auth =>
    cases hs
    exact h
  | fetched i result =>
    simp only [step] at hs
    split at hs
    · cases hs
    · split at hs
      · cases hs
        unfold State.afterFetch
        split
        · exact h.refreshAccessToken
        · exact h
      · cases hs
        exact h
      · cases hs
      · cases hs
  | resumed i =>
    simp only [step] at hs
    split at hs
    · cases hs
    · split at hs
      · split at hs
        · rename_i outcome _
          cases hs
          cases outcome <;> exact h
        · cases hs
      · cases hs
      · cases hs
      · cases hs
  | refreshAccessToken =>
    cases hs
    exact h.refreshAccessToken
  | refreshFetched j result =>
    simp only [step, Option.ite_none_right_eq_some] at hs
    obtain ⟨hj, hs⟩ := hs
    cases result with
    | networkError =>
      cases hs
      exact h.onRefresh hj (.inl rfl)
    | status code =>
      simp only at hs
      split at hs
      · cases hs
        exact h.onRefresh hj (.inl rfl)
      · cases hs
        exact Over.onRefresh (s := s.clearSession) h hj (.inl rfl)
  | refreshBody j tokens =>
    simp only [step, Option.ite_none_right_eq_some] at hs
    obtain ⟨hj, hs⟩ := hs
    cases tokens with
    | none =>
      cases hs
      exact h.onRefresh hj (.inl rfl)
    | some session =>
      cases hs
      exact Over.onRefresh (s := s.setSession session) h hj (.inl rfl)
  | problemRead j bodyStatus =>
    simp only [step] at hs
    split at hs
    · rename_i status hj
      cases hs
      exact h.onRefresh hj (.inr rfl)
    · cases hs
  | finallyRuns j =>
    simp only [step] at hs
    split at hs
    · rename_i outcome hj
      cases hs
      exact h.onRefresh hj (.inr rfl)
    · cases hs
  | clearSession =>
    cases hs
    exact h
  | setSession session =>
    cases hs
    exact h

/-! ### Runs -/

/-- The event ends the session: a `clearSession`, or an answer of `/auth/refresh` that is not ok. -/
def Clears (s : State) (e : Event) : Prop :=
  (step s e).isSome ∧ (e = .clearSession ∨ ∃ k code, e = .refreshFetched k (.status code) ∧ isOk code = false)

/-- In this run a refresh that was started before a `clearSession` stores its tokens after it. -/
def Revives (s : State) (es : List Event) : Prop :=
  ∃ es₁ e es₂ k tokens es₃, es = es₁ ++ e :: es₂ ++ .refreshBody k (some tokens) :: es₃ ∧
    Clears (Reactive.last step s es₁) e ∧ k < (Reactive.last step s es₁).refreshes.length ∧
    (step (Reactive.last step s (es₁ ++ e :: es₂)) (.refreshBody k (some tokens))).isSome

/-- Nobody ends the session while a refresh awaits its response or its tokens. -/
def Calm (s : State) (e : Event) : Prop :=
  e = .clearSession → ∀ phase ∈ s.refreshes, phase.awaits = false

/-- A call of `/auth/refresh` is in flight, or what follows it. -/
def Refreshing (s : State) (k : ℕ) : Prop :=
  ∃ phase, s.refreshes[k]? = some phase ∧ phase.isSettled = false

theorem Inv.eq_of_refreshing {j : ℕ} (h : Inv s) (hj : Refreshing s j) (hk : Refreshing s k) :
    j = k := by
  obtain ⟨q, hq, hsettled⟩ := hj
  obtain ⟨q', hq', hsettled'⟩ := hk
  exact Option.some.inj ((h.single j q hq hsettled).symm.trans (h.single k q' hq' hsettled'))

instance (s : State) (e : Event) : Decidable (Calm s e) :=
  inferInstanceAs (Decidable (e = .clearSession → ∀ phase ∈ s.refreshes, phase.awaits = false))

/-- When the session ends, the refreshes so far have got their tokens. -/
theorem over_of_clears (h : Inv s) (hcalm : Calm s e) (hc : Clears s e) (hs : step s e = some s')
    (hk : k < s.refreshes.length) : Over k s' := by
  have hphase : s.refreshes[k]? = some s.refreshes[k] := List.getElem?_eq_getElem hk
  rcases hc.2 with rfl | ⟨j, code, rfl, hcode⟩
  · cases hs
    exact ⟨_, hphase, hcalm rfl _ (List.getElem_mem hk)⟩
  · simp only [step, hcode, Option.ite_none_right_eq_some, Bool.false_eq_true, if_false] at hs
    obtain ⟨hj, hs⟩ := hs
    cases hs
    by_cases hjk : j = k
    · subst hjk
      exact ⟨.readingProblem code, List.getElem?_set_self hk, rfl⟩
    · -- only call `j` is in flight
      refine ⟨_, (List.getElem?_set_ne hjk).trans hphase, ?_⟩
      cases hsettled : s.refreshes[k].isSettled with
      | true =>
        cases hq : s.refreshes[k] with
        | settled outcome => rfl
        | _ =>
          rw [hq] at hsettled
          cases hsettled
      | false => exact absurd (h.eq_of_refreshing ⟨_, hj, rfl⟩ ⟨_, hphase, hsettled⟩) hjk

theorem inv_last (h : Inv s) (es : List Event) : Inv (Reactive.last step s es) :=
  Reactive.last_of_inv (C := fun _ _ => True) (fun _ _ _ hi _ hs => inv_step hi hs) h es
    fun _ _ => trivial

/-- **In a calm run no refresh revives a session that has ended.** -/
theorem not_revives (h : Inv s) {es : List Event}
    (hcalm : ∀ x ∈ Reactive.transitions step s es, Calm x.1 x.2.1) : ¬Revives s es := by
  rintro ⟨es₁, e, es₂, k, tokens, es₃, rfl, hclears, hk, hstore⟩
  obtain ⟨s', hs'⟩ := Option.isSome_iff_exists.mp hclears.1
  have hover : Over k s' := by
    refine over_of_clears (inv_last h es₁) (hcalm (_, e, s') ?_) hclears hs' hk
    rw [List.append_assoc, Reactive.transitions_append]
    refine List.mem_append_right _ ?_
    simp only [List.cons_append, Reactive.transitions, hs']
    exact List.mem_cons_self
  have hlast : Reactive.last step s (es₁ ++ e :: es₂) = Reactive.last step s' es₂ := by
    rw [Reactive.last_append]
    simp only [Reactive.last, hs']
  rw [hlast] at hstore
  obtain ⟨phase, hphase, hawaits⟩ : Over k (Reactive.last step s' es₂) :=
    Reactive.last_of_inv (C := fun _ _ => True) (fun _ _ _ hi _ hs => over_step hi hs) hover es₂
      fun _ _ => trivial
  obtain ⟨s'', hs''⟩ := Option.isSome_iff_exists.mp hstore
  simp only [step, Option.ite_none_right_eq_some] at hs''
  rw [hs''.1] at hphase
  cases hphase
  cases hawaits

/-- Tokens that a refresh may bring. -/
def someTokens : AuthSession := ⟨['a'], ['r'], nofun, nofun⟩

/-- A `clearSession` while a refresh awaits its tokens can be undone by them. -/
theorem revives_of_awaits (s : State) (es : List Event)
    (hk : (Reactive.last step s es).refreshes[k]? = some phase) (hawaits : phase.awaits = true) :
    ∃ es', Revives s (es ++ .clearSession :: es') := by
  have hlt := (List.getElem?_eq_some_iff.mp hk).1
  generalize hs : Reactive.last step s es = t at hk hlt
  have hafter : Reactive.last step s (es ++ [.clearSession]) = t.clearSession := by
    rw [Reactive.last_append, hs]
    rfl
  have hreading : ∀ es₂, (Reactive.last step t.clearSession es₂).refreshes[k]? =
      some .readingTokens → Revives s (es ++ .clearSession :: (es₂ ++ [.refreshBody k (some someTokens)])) := by
    intro es₂ hread
    refine ⟨es, .clearSession, es₂, k, someTokens, [], by simp, ⟨rfl, .inl rfl⟩, hs ▸ hlt, ?_⟩
    rw [← List.singleton_append, ← List.append_assoc, Reactive.last_append, hafter]
    simp only [step, hread, if_true]
    rfl
  cases phase with
  | fetching =>
    refine ⟨_, hreading [.refreshFetched k (.status 200)] ?_⟩
    have hfetching : t.clearSession.refreshes[k]? = some .fetching := hk
    have hok : isOk 200 = true := by decide
    simp only [Reactive.last, step, hfetching, hok, if_true]
    exact List.getElem?_set_self hlt
  | readingTokens => exact ⟨_, hreading [] hk⟩
  | readingProblem status => cases hawaits
  | finished outcome => cases hawaits
  | settled outcome => cases hawaits

/-- **Client session safety.** In every run at most one refresh is in flight and no request is sent
more than twice.  As long as nobody ends the session while a refresh awaits its response or its
tokens, no refresh started before a `clearSession` stores tokens after it; and where somebody does,
it may. -/
theorem client_session (persisted : Option AuthSession) (es : List Event) :
    (∀ x ∈ Reactive.transitions step (loaded persisted) es,
      (∀ j k, Refreshing x.2.2 j → Refreshing x.2.2 k → j = k) ∧
      ∀ request ∈ x.2.2.requests, request.sent.length ≤ 2) ∧
    ((∀ x ∈ Reactive.transitions step (loaded persisted) es, Calm x.1 x.2.1) →
      ¬Revives (loaded persisted) es) ∧
    ∀ (k : ℕ) (phase : RefreshPhase),
      (Reactive.last step (loaded persisted) es).refreshes[k]? = some phase →
        phase.awaits = true → ∃ es', Revives (loaded persisted) (es ++ .clearSession :: es') := by
  refine ⟨?_, not_revives inv_loaded, fun k phase => revives_of_awaits (loaded persisted) es⟩
  refine Reactive.transitions_of_inv (I := Inv) (C := fun _ _ => True)
    (Q := fun _ _ s' => (∀ j k, Refreshing s' j → Refreshing s' k → j = k) ∧
      ∀ request ∈ s'.requests, request.sent.length ≤ 2)
    (fun s e s' hi _ hs => ?_) inv_loaded es fun _ _ => trivial
  have hinv := inv_step hi hs
  refine ⟨hinv, fun j k hj hk => hinv.eq_of_refreshing hj hk, fun request hrequest => ?_⟩
  refine Nat.le_trans (hinv.calls request hrequest) ?_
  cases request.phase <;> simp [RequestPhase.calls]

/-- A request is retried with a new token, and then the user logs out. -/
def retryThenLogout : List Event :=
  [.apiRequest true, .fetched 0 (.status 401), .refreshFetched 0 (.status 200),
    .refreshBody 0 (some someTokens), .finallyRuns 0, .resumed 0, .fetched 0 (.status 200),
    .clearSession]

theorem client_session_logout : ¬Revives (loaded (some someTokens)) retryThenLogout :=
  (client_session (some someTokens) retryThenLogout).2.1 (by decide)

/-- The tokens of the account that logs in after the logout. -/
def otherTokens : AuthSession := ⟨['b'], ['q'], nofun, nofun⟩

/-- A request gets a 401; while its refresh is under way the user logs out and another logs in. -/
def logoutAndLogin : List Event :=
  [.apiRequest true, .fetched 0 (.status 401), .clearSession, .setSession otherTokens,
    .refreshFetched 0 (.status 200), .refreshBody 0 (some someTokens)]

/-- **The response of the refresh overwrites the tokens of the later login.** -/
theorem refresh_overwrites_login : Revives (loaded (some someTokens)) logoutAndLogin ∧
    (Reactive.last step (loaded (some someTokens)) (logoutAndLogin.take 4)).session =
      some otherTokens ∧
    (Reactive.last step (loaded (some someTokens)) logoutAndLogin).session = some someTokens :=
  ⟨⟨logoutAndLogin.take 2, .clearSession, [.setSession otherTokens, .refreshFetched 0 (.status 200)],
    0, someTokens, [], rfl, ⟨rfl, .inl rfl⟩, by decide, rfl⟩, rfl, rfl⟩

end Chatspace.HttpClient
