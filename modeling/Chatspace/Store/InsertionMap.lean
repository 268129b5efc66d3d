import Mathlib.Data.List.Induction

/-!
# Maps in the order of insertion

A key keeps its place when its value is replaced.

* `get`, `set`, `delete`, `keys` — the operations;
* `get_set_self`, `get_set_of_ne` — **a `set` changes what is under its own key only;**
* `mem_set` — what there is after a `set`;
* `mem_keys_set`, `mem_keys_delete` — which keys there are after each operation.
-/

namespace Store

abbrev InsertionMap (K V : Type) : Type := List (K × V)

namespace InsertionMap

variable {K V : Type} [DecidableEq K]

def keys (m : InsertionMap K V) : List K := m.map Prod.fst

def get (m : InsertionMap K V) (k : K) : Option V := m.lookup k

def set (m : InsertionMap K V) (k : K) (v : V) : InsertionMap K V :=
  if k ∈ m.map Prod.fst then m.map fun e => if e.1 = k then (k, v) else e
  else m ++ [(k, v)]

def delete (m : InsertionMap K V) (k : K) : InsertionMap K V := m.filter fun e => e.1 ≠ k

variable {m : InsertionMap K V} {k k' : K} {v : V}

theorem get_cons (e : K × V) :
    InsertionMap.get (e :: m) k = if k = e.1 then some e.2 else m.get k := by
  unfold InsertionMap.get
  by_cases h : k = e.1
  · rw [if_pos h, h]
    exact List.lookup_cons_self
  · have hne : (k == e.1) = false := by simpa using h
    rw [if_neg h, List.lookup_cons, hne]

@[simp] theorem get_set_self : (m.set k v).get k = some v := by
  unfold InsertionMap.set
  split
  · rename_i hmem
    induction m with
    | nil => simp at hmem
    | cons e m ih =>
      rw [List.map_cons, get_cons]
      by_cases he : e.1 = k
      · simp [he]
      · have hmem' : k ∈ m.map Prod.fst := by
          rcases List.mem_cons.mp hmem with h | h
          · exact absurd h.symm he
          · exact h
        rw [if_neg he, if_neg (Ne.symm he)]
        exact ih hmem'
  · rename_i hmem
    induction m with
    | nil => simp [get_cons]
    | cons e m ih =>
      rw [List.map_cons, List.mem_cons, not_or] at hmem
      rw [List.cons_append, get_cons, if_neg hmem.1]
      exact ih hmem.2

theorem get_set_of_ne (h : k' ≠ k) : (m.set k v).get k' = m.get k' := by
  unfold InsertionMap.set
  split
  · clear * - h
    induction m with
    | nil => rfl
    | cons e m ih =>
      rw [List.map_cons, get_cons, get_cons, ih]
      by_cases he : e.1 = k
      · rw [if_pos he, if_neg h, if_neg (he ▸ h)]
      · rw [if_neg he]
  · clear * - h
    induction m with
    | nil => rw [List.nil_append, get_cons, if_neg h]
    | cons e m ih => rw [List.cons_append, get_cons, get_cons, ih]

theorem keys_set : (m.set k v).keys = if k ∈ m.keys then m.keys else m.keys ++ [k] := by
  unfold InsertionMap.set InsertionMap.keys
  split
  · rw [List.map_map]
    refine List.map_congr_left fun e _ => ?_
    show (if e.1 = k then (k, v) else e).1 = e.1
    split
    · rename_i he
      exact he.symm
    · rfl
  · simp

@[simp] theorem mem_keys_set : k' ∈ (m.set k v).keys ↔ k' = k ∨ k' ∈ m.keys := by
  rw [keys_set]
  split
  · rename_i hmem
    constructor
    · exact .inr
    · rintro (rfl | h)
      · exact hmem
      · exact h
  · rw [List.mem_append, List.mem_singleton]
    exact or_comm

theorem nodup_keys_set (h : m.keys.Nodup) : (m.set k v).keys.Nodup := by
  rw [keys_set]
  split
  · exact h
  · rename_i hmem
    refine List.nodup_append.mpr ⟨h, List.pairwise_singleton _ k, fun a ha b hb heq => hmem ?_⟩
    rw [← List.mem_singleton.mp hb, ← heq]
    exact ha

/-- Where every key is there once, a lookup finds what there is. -/
theorem get_eq_some (h : m.keys.Nodup) : m.get k = some v ↔ (k, v) ∈ m := by
  rw [get, List.lookup_eq_some_iff]
  constructor
  · intro hsplit
    obtain ⟨l, l', rfl, -⟩ := hsplit
    simp
  · intro hmem
    obtain ⟨l, l', rfl⟩ := List.append_of_mem hmem
    refine ⟨l, l', rfl, fun e he => ?_⟩
    rw [keys, List.map_append] at h
    have hne := (List.nodup_append.mp h).2.2 e.1 (List.mem_map_of_mem he) k (by simp)
    exact bne_iff_ne.mpr (Ne.symm hne)

theorem mem_set {e : K × V} : e ∈ m.set k v ↔ e = (k, v) ∨ e.1 ≠ k ∧ e ∈ m := by
  unfold InsertionMap.set
  split
  · rename_i hmem
    constructor
    · intro h
      obtain ⟨e', he', heq⟩ := List.mem_map.mp h
      split at heq
      · exact .inl heq.symm
      · rename_i hne
        rw [← heq]
        exact .inr ⟨hne, he'⟩
    · intro h
      obtain ⟨e', he', hkey⟩ := List.mem_map.mp hmem
      rcases h with h | ⟨hne, h⟩
      · exact List.mem_map.mpr ⟨e', he', by rw [if_pos hkey, h]⟩
      · exact List.mem_map.mpr ⟨e, h, if_neg hne⟩
  · rename_i hmem
    rw [List.mem_append, List.mem_singleton]
    constructor
    · intro h
      rcases h with h | h
      · refine .inr ⟨fun hkey => hmem ?_, h⟩
        exact List.mem_map.mpr ⟨e, h, hkey⟩
      · exact .inl h
    · intro h
      exact h.elim .inr fun h => .inl h.2

@[simp] theorem mem_keys_delete : k' ∈ (m.delete k).keys ↔ k' ≠ k ∧ k' ∈ m.keys := by
  simp only [InsertionMap.keys, InsertionMap.delete, List.mem_map, List.mem_filter,
    decide_eq_true_eq]
  constructor
  · rintro ⟨e, ⟨he, hne⟩, rfl⟩
    exact ⟨hne, e, he, rfl⟩
  · rintro ⟨hne, e, he, rfl⟩
    exact ⟨e, ⟨he, hne⟩, rfl⟩

end InsertionMap

end Store
