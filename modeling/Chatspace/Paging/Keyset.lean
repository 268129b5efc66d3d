import Mathlib.Data.List.Perm.Subperm
import Mathlib.Order.Lattice

/-!
# Keyset pagination

Rows are listed in pages, greatest key first, and the key of the last row of a page is the cursor
for the next.  `IsPage` says what one page is, without saying how it is found; `Walk` is a client
that follows the cursors while the rows change between its requests.  A change may remove any row,
and may add rows as long as they are not below the cursor the client holds (`Above`).

* `isPage_take` — the first rows of the ordered rows below the cursor are a page;
* `Walk.inv` — what holds after any number of requests and changes;
* `Walk.exact` — **a finished client has every row that was there throughout, once, in order**;
* `lists_of_serves` — over rows that do not change, just the rows.
-/

namespace Paging

section Page

variable {α κ : Type} [LinearOrder κ] {key : α → κ}

/-- The rows that come after the cursor `c`: all of them while there is none. -/
def Below (key : α → κ) (c : Option κ) (x : α) : Prop := ∀ k ∈ c, key x < k

theorem below_some {k : κ} {x : α} : Below key (some k) x ↔ key x < k := by simp [Below]

theorem below_none (x : α) : Below key none x := nofun

/-- A page of the rows below `c`, and the cursor for the next page, if there is one. -/
structure IsPage (key : α → κ) (rows : List α) (c : Option κ) (items : List α)
    (next : Option κ) : Prop where
  descending : items.Pairwise fun x y => key y < key x
  mem : ∀ x ∈ items, x ∈ rows ∧ Below key c x
  last : next = none → ∀ x ∈ rows, Below key c x → x ∈ items
  cursor : ∀ k, next = some k → (∃ x ∈ items, key x = k) ∧ ∀ x ∈ items, k ≤ key x
  more : ∀ k, next = some k → ∀ x ∈ rows, Below key c x → x ∈ items ∨ key x < k

/-- In a list in descending order every element is at or above the last one. -/
theorem le_getLast {l : List α} (h : l.Pairwise fun x y => key y < key x) {x y : α} (hx : x ∈ l)
    (hy : l.getLast? = some y) : key y ≤ key x := by
  obtain ⟨l', rfl⟩ := List.getLast?_eq_some_iff.mp hy
  rcases List.mem_append.mp hx with hx | hx
  · exact le_of_lt ((List.pairwise_append.mp h).2.2 x hx y (List.mem_singleton_self y))
  · rw [List.mem_singleton.mp hx]

/-- The first `limit` rows below the cursor, with the key of the last of them where there are
more. -/
theorem isPage_take {rows l : List α} {c : Option κ} {limit : ℕ} (hlimit : 1 ≤ limit)
    (hl : ∀ x, x ∈ l ↔ x ∈ rows ∧ Below key c x) (hd : l.Pairwise fun x y => key y < key x) :
    IsPage key rows c (l.take limit)
      (if limit < l.length then (l.take limit).getLast?.map key else none) := by
  have hsplit : ∀ x ∈ l, x ∈ l.take limit ∨ x ∈ l.drop limit := by
    intro x hx
    rw [← List.take_append_drop limit l] at hx
    exact List.mem_append.mp hx
  have htake : (l.take limit).Pairwise fun x y => key y < key x := hd.take
  have hacross : ∀ x ∈ l.take limit, ∀ y ∈ l.drop limit, key y < key x := by
    rw [← List.take_append_drop limit l] at hd
    exact (List.pairwise_append.mp hd).2.2
  refine ⟨htake, fun x hx => (hl x).mp (List.mem_of_mem_take hx), ?_, ?_, ?_⟩
  · intro hnext x hx hb
    -- no next cursor: nothing is left beyond the page
    have hshort : l.length ≤ limit := by
      by_contra hlong
      rw [if_pos (by omega), Option.map_eq_none_iff, List.getLast?_eq_none_iff,
        List.take_eq_nil_iff] at hnext
      rcases hnext with hnext | hnext
      · omega
      · simp [hnext] at hlong
    rw [List.take_of_length_le hshort]
    exact (hl x).mpr ⟨hx, hb⟩
  · intro k hnext
    split at hnext
    · obtain ⟨y, hy, rfl⟩ := Option.map_eq_some_iff.mp hnext
      exact ⟨⟨y, List.mem_of_getLast? hy, rfl⟩, fun x hx => le_getLast htake hx hy⟩
    · cases hnext
  · intro k hnext x hx hb
    split at hnext
    · obtain ⟨y, hy, rfl⟩ := Option.map_eq_some_iff.mp hnext
      rcases hsplit x ((hl x).mpr ⟨hx, hb⟩) with hx | hx
      · exact .inl hx
      · exact .inr (hacross y (List.mem_of_getLast? hy) x hx)
    · cases hnext

end Page

/-! ### Following the cursors -/

section Walk

/-- A client: the rows it has received, the cursor it holds, how many pages it has asked for, and
whether the last of them had no next cursor. -/
structure Client (α C : Type) where
  items : List α
  cursor : Option C
  requests : ℕ
  finished : Bool

variable {S C α κ : Type}

/-- The client and the states the rows have been in, latest first.  `fetch s c items next`: the
page asked for with cursor `c` in state `s`; `change c s s'`: what may happen to the rows while the
client holds `c`. -/
inductive Walk (fetch : S → Option C → List α → Option C → Prop) (change : C → S → S → Prop) :
    List S → Client α C → Prop
  | start (s : S) : Walk fetch change [s] ⟨[], none, 0, false⟩
  | request {s : S} {ss : List S} {w : Client α C} {items : List α} {next : Option C}
      (hw : Walk fetch change (s :: ss) w) (hf : w.finished = false)
      (hpage : fetch s w.cursor items next) :
      Walk fetch change (s :: ss) ⟨w.items ++ items, next, w.requests + 1, next.isNone⟩
  | change {s s' : S} {ss : List S} {w : Client α C} {c : C}
      (hw : Walk fetch change (s :: ss) w) (hc : w.cursor = some c) (hs : change c s s') :
      Walk fetch change (s' :: s :: ss) w

variable [LinearOrder κ]

/-- Every page asked for without a cursor, or with a cursor handed out before, is a page of the
rows; a cursor `c` stands for the key `position c`. -/
structure Serves (key : α → κ) (rows : S → List α) (position : C → Option κ)
    (fetch : S → Option C → List α → Option C → Prop) : Prop where
  page : ∀ s c items next, (∀ c' ∈ c, ∃ k, position c' = some k) → fetch s c items next →
    IsPage key (rows s) (c.bind position) items (next.bind position) ∧
      ∀ c' ∈ next, ∃ k, position c' = some k
  answer : ∀ s c, (∀ c' ∈ c, ∃ k, position c' = some k) → ∃ items next, fetch s c items next

/-- Rows are added at or above the cursor only. -/
def Above (key : α → κ) (rows : S → List α) (position : C → Option κ)
    (change : C → S → S → Prop) : Prop :=
  ∀ c s s' k, change c s s' → position c = some k → ∀ x ∈ rows s', key x < k → x ∈ rows s

/-- What holds of a client after any number of requests and changes.  The last element of the
history is the state its first page was read in. -/
structure Inv (key : α → κ) (rows : S → List α) (position : C → Option κ) (s : S) (ss : List S)
    (w : Client α C) : Prop where
  descending : w.items.Pairwise fun x y => key y < key x
  held : ∀ c ∈ w.cursor, ∃ k, position c = some k
  passed : w.finished = false → ∀ x ∈ w.items, ∀ y, Below key (w.cursor.bind position) y →
    key y < key x
  original : ∀ x ∈ w.items, ∀ first ∈ (s :: ss).getLast?, x ∈ rows first
  remaining : ∀ x ∈ rows s, Below key (w.cursor.bind position) x →
    ∀ first ∈ (s :: ss).getLast?, w.finished = false → x ∈ rows first
  complete : ∀ x, (∀ s' ∈ s :: ss, x ∈ rows s') →
    x ∈ w.items ∨ w.finished = false ∧ Below key (w.cursor.bind position) x
  requests : w.requests ≤ w.items.length + if w.finished then 1 else 0

variable {key : α → κ} {rows : S → List α} {position : C → Option κ}
  {fetch : S → Option C → List α → Option C → Prop} {change : C → S → S → Prop}

theorem Inv.start (s : S) : Inv key rows position s [] (⟨[], none, 0, false⟩ : Client α C) where
  descending := .nil
  held := nofun
  passed _ := nofun
  original := nofun
  remaining x hx _ first hfirst _ := by
    obtain rfl : s = first := by simpa using hfirst
    exact hx
  complete x _ := .inr ⟨rfl, below_none x⟩
  requests := by simp

variable {s s' : S} {ss : List S} {w : Client α C}

theorem Inv.request {items : List α} {next : Option C} (hi : Inv key rows position s ss w)
    (hf : w.finished = false)
    (hp : IsPage key (rows s) (w.cursor.bind position) items (next.bind position))
    (hnext : ∀ c' ∈ next, ∃ k, position c' = some k) :
    Inv key rows position s ss ⟨w.items ++ items, next, w.requests + 1, next.isNone⟩ where
  descending := by
    refine List.pairwise_append.mpr ⟨hi.descending, hp.descending, fun x hx y hy => ?_⟩
    exact hi.passed hf x hx y (hp.mem y hy).2
  held := hnext
  passed hmore x hx y hy := by
    cases next with
    | none => cases hmore
    | some c' =>
      obtain ⟨k, hk⟩ := hnext c' rfl
      simp only [Option.bind_some, hk] at hp hy
      rw [below_some] at hy
      obtain ⟨⟨z, hz, hzk⟩, hle⟩ := hp.cursor k rfl
      rcases List.mem_append.mp hx with hx | hx
      · -- the last row of the new page is already below the rows received before
        rw [← hzk] at hy
        exact lt_trans hy (hi.passed hf x hx z (hp.mem z hz).2)
      · exact lt_of_lt_of_le hy (hle x hx)
  original x hx first hfirst := by
    rcases List.mem_append.mp hx with hx | hx
    · exact hi.original x hx first hfirst
    · exact hi.remaining x (hp.mem x hx).1 (hp.mem x hx).2 first hfirst hf
  remaining x hx hb first hfirst hmore := by
    cases next with
    | none => cases hmore
    | some c' =>
      obtain ⟨k, hk⟩ := hnext c' rfl
      simp only [Option.bind_some, hk] at hp hb
      refine hi.remaining x hx (fun k' hk' => ?_) first hfirst hf
      obtain ⟨⟨z, hz, hzk⟩, -⟩ := hp.cursor k rfl
      rw [below_some, ← hzk] at hb
      exact lt_trans hb ((hp.mem z hz).2 k' hk')
  complete x hx := by
    rcases hi.complete x hx with hx' | ⟨-, hb⟩
    · exact .inl (List.mem_append_left _ hx')
    · have hmem := hx s List.mem_cons_self
      cases next with
      | none => exact .inl (List.mem_append_right _ (hp.last rfl x hmem hb))
      | some c' =>
        obtain ⟨k, hk⟩ := hnext c' rfl
        simp only [Option.bind_some, hk] at hp ⊢
        rcases hp.more k rfl x hmem hb with hx' | hlt
        · exact .inl (List.mem_append_right _ hx')
        · exact .inr ⟨rfl, below_some.mpr hlt⟩
  requests := by
    have hreq := hi.requests
    rw [hf] at hreq
    cases next with
    | none =>
      simp only [Option.isNone_none, List.length_append]
      simp at hreq ⊢
      omega
    | some c' =>
      obtain ⟨k, hk⟩ := hnext c' rfl
      obtain ⟨⟨z, hz, -⟩, -⟩ := hp.cursor k (by simpa using hk)
      have := List.length_pos_of_mem hz
      simp at hreq ⊢
      omega

theorem Inv.changed {c : C} {k : κ} (hi : Inv key rows position s ss w) (hc : w.cursor = some c)
    (hk : position c = some k) (hs : ∀ x ∈ rows s', key x < k → x ∈ rows s) :
    Inv key rows position s' (s :: ss) w where
  descending := hi.descending
  held := hi.held
  passed := hi.passed
  original x hx first hfirst := by
    rw [List.getLast?_cons_cons] at hfirst
    exact hi.original x hx first hfirst
  remaining x hx hb first hfirst hf := by
    rw [List.getLast?_cons_cons] at hfirst
    have hlt : key x < k := hb k (by simp [hc, hk])
    exact hi.remaining x (hs x hx hlt) hb first hfirst hf
  complete x hx := hi.complete x fun s' hs' => hx s' (List.mem_cons_of_mem _ hs')
  requests := hi.requests

/-- **What holds after any number of requests and changes.** -/
theorem Walk.inv (hserve : Serves key rows position fetch)
    (hchange : Above key rows position change) {h : List S} (hw : Walk fetch change h w) :
    ∃ s ss, h = s :: ss ∧ Inv key rows position s ss w := by
  induction hw with
  | start s => exact ⟨s, [], rfl, .start s⟩
  | request hw hf hpage ih =>
    obtain ⟨s, ss, he, hi⟩ := ih
    cases he
    obtain ⟨hp, hnext⟩ := hserve.page _ _ _ _ hi.held hpage
    exact ⟨_, _, rfl, hi.request hf hp hnext⟩
  | change hw hc hs ih =>
    obtain ⟨s, ss, he, hi⟩ := ih
    cases he
    obtain ⟨k, hk⟩ := hi.held _ hc
    exact ⟨_, _, rfl, hi.changed hc hk fun x hx hlt => hchange _ _ _ k hs hk x hx hlt⟩

/-- What a client can rely on: its next request is answered; it makes no more requests than there
were rows, and one; it has rows of the first state only, in strictly descending order; and once it
is finished it has every row that was there throughout. -/
structure Exact (key : α → κ) (rows : S → List α)
    (fetch : S → Option C → List α → Option C → Prop) (s : S) (ss : List S) (w : Client α C) :
    Prop where
  answered : w.finished = false → ∃ items next, fetch s w.cursor items next
  terminates : ∀ first ∈ (s :: ss).getLast?, w.requests ≤ (rows first).length + 1
  descending : w.items.Pairwise fun x y => key y < key x
  original : ∀ x ∈ w.items, ∀ first ∈ (s :: ss).getLast?, x ∈ rows first
  complete : w.finished = true → ∀ x, (∀ s' ∈ s :: ss, x ∈ rows s') → x ∈ w.items

theorem nodup_of_descending {l : List α} (h : l.Pairwise fun x y => key y < key x) : l.Nodup := by
  refine h.imp fun hlt => ?_
  rintro rfl
  exact lt_irrefl _ hlt

/-- **Keyset pagination is exact.** -/
theorem Walk.exact (hserve : Serves key rows position fetch)
    (hchange : Above key rows position change) (hw : Walk fetch change (s :: ss) w) :
    Exact key rows fetch s ss w := by
  obtain ⟨_, _, he, hi⟩ := hw.inv hserve hchange
  cases he
  refine ⟨fun _ => hserve.answer s w.cursor hi.held, ?_, hi.descending, hi.original, ?_⟩
  · intro first hfirst
    have hsub : w.items ⊆ rows first := fun x hx => hi.original x hx first hfirst
    have hlen := (List.Nodup.subperm (nodup_of_descending hi.descending) hsub).length_le
    have hreq := hi.requests
    split at hreq <;> omega
  · intro hf x hx
    rcases hi.complete x hx with hx' | ⟨hnf, -⟩
    · exact hx'
    · rw [hf] at hnf
      cases hnf

/-- Nothing changes while the client follows the cursors. -/
def Unchanged (_ : C) (_ _ : S) : Prop := False

theorem above_unchanged : Above key rows position (Unchanged (C := C)) := nofun

/-- Over rows that do not change, a finished client has just the rows. -/
theorem Exact.perm (h : Exact key rows fetch s [] w) (hnodup : (rows s).Nodup)
    (hf : w.finished = true) : w.items.Perm (rows s) := by
  refine (List.perm_ext_iff_of_nodup (nodup_of_descending h.descending) hnodup).mpr fun x => ?_
  constructor
  · exact fun hx => h.original x hx s rfl
  · intro hx
    refine h.complete hf x fun s' hs' => ?_
    rw [List.mem_singleton.mp hs']
    exact hx

/-- Every walk over rows that do not change is exact, and ends with just the rows. -/
def Lists (key : α → κ) (rows : S → List α)
    (fetch : S → Option C → List α → Option C → Prop) : Prop :=
  ∀ s w, Walk fetch Unchanged [s] w →
    Exact key rows fetch s [] w ∧ (w.finished = true → w.items.Perm (rows s))

theorem lists_of_serves (hserve : Serves key rows position fetch)
    (hnodup : ∀ s, (rows s).Nodup) : Lists key rows fetch := by
  intro s w hw
  have hexact := hw.exact hserve above_unchanged
  exact ⟨hexact, hexact.perm (hnodup s)⟩

end Walk

end Paging
