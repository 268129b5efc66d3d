import Chatspace.Frontend.Frames
import Mathlib.Data.Char
import Mathlib.Data.List.Lex
import Mathlib.Data.List.Perm.Basic

/-!
# `ws/catchUp.ts`

`fetchMissedMessages` walks the pages of a history through the cursors the endpoint hands out, and
stops at the first page that holds an id it knows.

* `Lists` — the pages that the endpoint serves one after the other;
* `missed_message_walk` — **what is collected is complete exactly where no page after the first one
  with a known id holds a newer message;**
* `stopsSoundly_of_descending` — so it is where the ids descend.
-/

namespace Chatspace.Frontend

/-- The response of `fetchMessageHistory`. -/
structure CursorPage where
  items : List Message
  nextCursor : Option Text
deriving DecidableEq

structure CatchUpResult where
  messages : List Message
  truncated : Bool
deriving DecidableEq

/-- `sinceMessageId !== null && message.id <= sinceMessageId`. -/
def isKnown (sinceMessageId : Option Text) (message : Message) : Bool :=
  sinceMessageId.any fun since => message.id ≤ since

/-- The pages that are left, the cursor of the next one, and what is collected. -/
def walkPages (fetch : Option Text → CursorPage) (sinceMessageId : Option Text) :
    ℕ → Option Text → List Message → CatchUpResult
  | 0, _, collected => ⟨collected, false⟩
  | n + 1, cursor, collected =>
    let result := fetch cursor
    let reachedKnown := result.items.any (isKnown sinceMessageId)
    let collected := collected ++ result.items.filter fun message => !isKnown sinceMessageId message
    if sinceMessageId = none ∨ reachedKnown ∨ result.nextCursor = none then ⟨collected, false⟩
    -- the last page of the cap
    else if n = 0 then ⟨collected, true⟩
    else walkPages fetch sinceMessageId n result.nextCursor collected

def fetchMissedMessages (fetchMessageHistory : ℕ → Option Text → CursorPage)
    (sinceMessageId : Option Text) (pageLimit maxPages : ℕ) : CatchUpResult :=
  walkPages (fetchMessageHistory pageLimit) sinceMessageId maxPages none []

/-- The endpoint serves these pages from this cursor on. -/
inductive Lists (fetch : Option Text → CursorPage) : Option Text → List (List Message) → Prop
  | last {cursor : Option Text} : (fetch cursor).nextCursor = none →
      Lists fetch cursor [(fetch cursor).items]
  | next {cursor : Option Text} {next : Text} {pages : List (List Message)} :
      (fetch cursor).nextCursor = some next → Lists fetch (some next) pages →
      Lists fetch cursor ((fetch cursor).items :: pages)

/-- After the first page with an id that is not above `since`, should one come within the first `n`,
no page holds an id above it. -/
def StopsSoundly (since : Text) (n : ℕ) (pages : List (List Message)) : Prop :=
  ∀ before page after, pages = before ++ page :: after → before.length < n →
    (∀ m ∈ before.flatten, since < m.id) → (∃ m ∈ page, m.id ≤ since) →
    ∀ m ∈ after.flatten, m.id ≤ since

/-- The messages above `since`. -/
def newer (since : Text) (messages : List Message) : List Message :=
  messages.filter fun m => since < m.id

variable {fetch : Option Text → CursorPage} {since : Text} {n : ℕ} {cursor : Option Text}
  {items : List Message} {pages : List (List Message)}

theorem newer_append (l l' : List Message) :
    newer since (l ++ l') = newer since l ++ newer since l' :=
  List.filter_append l l'

theorem newer_eq_nil {l : List Message} : newer since l = [] ↔ ∀ m ∈ l, m.id ≤ since := by
  simp [newer, List.filter_eq_nil_iff]

theorem filter_isKnown (l : List Message) :
    (l.filter fun m => !isKnown (some since) m) = newer since l := by
  apply List.filter_congr
  intro m _
  rw [isKnown, Option.any_some, ← decide_not]
  exact decide_eq_decide.mpr not_le

theorem any_isKnown {l : List Message} :
    l.any (isKnown (some since)) ↔ ∃ m ∈ l, m.id ≤ since := by
  simp [isKnown]

/-! ### One page -/

theorem stopsSoundly_last : StopsSoundly since n [items] := by
  intro before page after heq _ _ _ m hm
  cases before with
  | nil =>
    cases heq
    cases hm
  | cons first before => simp at heq

theorem stopsSoundly_known (hknown : ∃ m ∈ items, m.id ≤ since) :
    StopsSoundly since (n + 1) (items :: pages) ↔ ∀ m ∈ pages.flatten, m.id ≤ since := by
  constructor
  · intro h
    exact h [] items pages rfl (Nat.succ_pos n) (fun m hm => by cases hm) hknown
  · intro h before page after heq _ hbefore _
    cases before with
    | nil =>
      cases heq
      exact h
    | cons first before =>
      cases heq
      obtain ⟨m, hm, hle⟩ := hknown
      exact absurd hle (not_le.mpr (hbefore m (List.mem_flatten.mpr ⟨items, by simp, hm⟩)))

theorem stopsSoundly_skip (hnew : ¬ ∃ m ∈ items, m.id ≤ since) :
    StopsSoundly since (n + 1) (items :: pages) ↔ StopsSoundly since n pages := by
  have hitems : ∀ m ∈ items, since < m.id := by
    intro m hm
    exact not_le.mp fun hle => hnew ⟨m, hm, hle⟩
  constructor
  · intro h before page after heq hlen hbefore hknown
    apply h (items :: before) page after (by rw [heq]; rfl) (Nat.succ_lt_succ hlen) ?_ hknown
    intro m hm
    rw [List.flatten_cons, List.mem_append] at hm
    exact hm.elim (hitems m) (hbefore m)
  · intro h before page after heq hlen hbefore hknown
    cases before with
    | nil =>
      cases heq
      exact absurd hknown hnew
    | cons first before =>
      cases heq
      apply h before page after rfl (Nat.lt_of_succ_lt_succ hlen) ?_ hknown
      intro m hm
      exact hbefore m (List.mem_append_right _ hm)

/-! ### The walk -/

/-- The walk from any page on is complete or truncated exactly where it stops soundly. -/
theorem walkPages_iff (hpages : Lists fetch cursor pages) (collected : List Message) :
    ((walkPages fetch (some since) (n + 1) cursor collected).truncated = false →
        (walkPages fetch (some since) (n + 1) cursor collected).messages.Perm
          (collected ++ newer since pages.flatten)) ↔ StopsSoundly since (n + 1) pages := by
  induction hpages generalizing n collected with
  | @last cursor hnext =>
    have hwalk : walkPages fetch (some since) (n + 1) cursor collected =
        ⟨collected ++ newer since (fetch cursor).items, false⟩ := by
      rw [walkPages]
      simp only [hnext, filter_isKnown, or_true, if_true]
    rw [hwalk, List.flatten_singleton]
    exact ⟨fun _ => stopsSoundly_last, fun _ _ => List.Perm.refl _⟩
  | @next cursor next pages hnext hpages ih =>
    by_cases hknown : ∃ m ∈ (fetch cursor).items, m.id ≤ since
    · have hwalk : walkPages fetch (some since) (n + 1) cursor collected =
          ⟨collected ++ newer since (fetch cursor).items, false⟩ := by
        rw [walkPages]
        simp only [any_isKnown.mpr hknown, filter_isKnown, true_or, or_true, if_true]
      rw [hwalk, stopsSoundly_known hknown, ← newer_eq_nil, List.flatten_cons, newer_append,
        ← List.append_assoc]
      constructor
      · intro h
        have hlen := (h rfl).length_eq
        simp only [List.length_append] at hlen
        exact List.eq_nil_of_length_eq_zero (by omega)
      · intro h _
        rw [h, List.append_nil]
    · have hall : (fetch cursor).items.any (isKnown (some since)) = false := by
        rw [Bool.eq_false_iff, ne_eq, any_isKnown]
        exact hknown
      rw [stopsSoundly_skip hknown]
      by_cases hcap : n = 0
      · -- the cap is reached: the walk is truncated
        subst hcap
        have hwalk : (walkPages fetch (some since) 1 cursor collected).truncated = true := by
          rw [walkPages]
          simp [hall, hnext]
        rw [hwalk]
        refine ⟨fun _ before page after _ hlen => absurd hlen (Nat.not_lt_zero _), fun _ h => ?_⟩
        cases h
      · obtain ⟨k, rfl⟩ := Nat.exists_eq_succ_of_ne_zero hcap
        have hwalk : walkPages fetch (some since) (k + 1 + 1) cursor collected =
            walkPages fetch (some since) (k + 1) (some next)
              (collected ++ newer since (fetch cursor).items) := by
          rw [walkPages]
          simp [hall, hnext, filter_isKnown]
        rw [hwalk, List.flatten_cons, newer_append, ← List.append_assoc]
        exact ih _

/-- Pages whose ids descend stop the walk soundly. -/
theorem stopsSoundly_of_descending (h : pages.flatten.Pairwise fun m m' => m'.id ≤ m.id) :
    StopsSoundly since n pages := by
  rintro before page after rfl _ _ ⟨known, hmem, hknown⟩ m hm
  rw [List.flatten_append, List.flatten_cons] at h
  have hlater := (List.pairwise_append.mp (List.pairwise_append.mp h).2.1).2.2
  exact le_trans (hlater known hmem m hm) hknown

/-- **The messages collected are those of the history above `sinceMessageId`, each once, unless the
walk says that it was truncated, exactly where some page is asked for or none is missed, and the
first page with a known id is followed by no newer message.** -/
theorem missed_message_walk {fetchMessageHistory : ℕ → Option Text → CursorPage} {pageLimit : ℕ}
    {pages : List (List Message)} {history : List Message} (since : Text) (maxPages : ℕ)
    (hpages : Lists (fetchMessageHistory pageLimit) none pages) (hhistory : pages.flatten.Perm history) :
    ((fetchMissedMessages fetchMessageHistory (some since) pageLimit maxPages).truncated = false →
        (fetchMissedMessages fetchMessageHistory (some since) pageLimit maxPages).messages.Perm
          (newer since history)) ↔
      (maxPages = 0 → ∀ m ∈ history, m.id ≤ since) ∧ StopsSoundly since maxPages pages := by
  have hnewer : (newer since pages.flatten).Perm (newer since history) := hhistory.filter _
  cases maxPages with
  | zero =>
    have hsound : StopsSoundly since 0 pages :=
      fun before page after _ hlen => absurd hlen (Nat.not_lt_zero _)
    simp only [fetchMissedMessages, walkPages, forall_const, hsound, and_true, List.nil_perm,
      newer_eq_nil]
  | succ n =>
    rw [← walkPages_iff hpages [], List.nil_append]
    constructor
    · intro h
      exact ⟨fun h0 => absurd h0 (Nat.succ_ne_zero n), fun hall => (h hall).trans hnewer.symm⟩
    · intro h hall
      exact (h.2 hall).trans hnewer

/-! ### Two histories -/

/-- A message with this id. -/
def bare (id : Text) : Message := ⟨id, none, none, [], [], [], [], none, none⟩

/-- An endpoint with two pages. -/
def twoPages (first second : List Text) (_ : ℕ) : Option Text → CursorPage
  | none => ⟨first.map bare, some ['p']⟩
  | some _ => ⟨second.map bare, none⟩

theorem lists_twoPages (first second : List Text) (limit : ℕ) :
    Lists (twoPages first second limit) none [first.map bare, second.map bare] :=
  .next rfl (.last rfl)

/-- The newest message first: nothing is missed. -/
theorem missed_message_walk_descending :
    (fetchMissedMessages (twoPages [['c'], ['b']] [['a']]) (some ['a']) 50 20).truncated = false ∧
      (fetchMissedMessages (twoPages [['c'], ['b']] [['a']]) (some ['a']) 50 20).messages.Perm
        (newer ['a'] [bare ['c'], bare ['b'], bare ['a']]) := by
  have hwalk :=
    (missed_message_walk ['a'] 20 (lists_twoPages [['c'], ['b']] [['a']] 50) (List.Perm.refl _)).mpr
      ⟨by simp, stopsSoundly_of_descending (by decide)⟩
  have htruncated : (fetchMissedMessages (twoPages [['c'], ['b']] [['a']]) (some ['a'])
      50 20).truncated = false := by decide
  exact ⟨htruncated, hwalk htruncated⟩

/-- **The oldest first: the message on the second page is missed.** -/
theorem ascending_misses :
    fetchMissedMessages (twoPages [['a'], ['b']] [['c']]) (some ['a']) 50 20 =
        ⟨[bare ['b']], false⟩ ∧
      newer ['a'] [bare ['a'], bare ['b'], bare ['c']] = [bare ['b'], bare ['c']] := by
  decide

end Chatspace.Frontend
