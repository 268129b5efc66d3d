import Mathlib.Algebra.Group.Nat.Defs
import Mathlib.Data.Nat.Notation

/-!
# `core/ids.py`

An id is the 128-bit number of a version-7 UUID: 48 bits of milliseconds, the version, 12 bits, the
variant, and 62 bits.

* `generateId` — the next id of a process, from the one it has generated last;
* `generateId_spec` — **it is a valid one, not before the candidate and after the last**, unless the
  last one has no successor of its version and variant;
* `ids_increasing` — **the ids of successive calls are strictly increasing exactly when none has to
  go on from such an id.**
-/

namespace Chatspace.Ids

/-- The number is that of a version-7 UUID. -/
def IsV7 (n : ℕ) : Prop := n < 2 ^ 128 ∧ n / 2 ^ 76 % 16 = 7 ∧ n / 2 ^ 62 % 4 = 2

instance (n : ℕ) : Decidable (IsV7 n) := inferInstanceAs (Decidable (_ ∧ _))

/-- The milliseconds since the Unix epoch that the id carries. -/
def timestampMs (n : ℕ) : ℕ := n / 2 ^ 80

/-- `UUID(int=n, version=7)`. -/
def withVersion7 (n : ℕ) : ℕ :=
  n / 2 ^ 80 * 2 ^ 80 + 7 * 2 ^ 76 + n / 2 ^ 64 % 2 ^ 12 * 2 ^ 64 + 2 * 2 ^ 62 + n % 2 ^ 62

/-- `generate_id`: the id, and `_last_generated_int` after it. -/
def generateId (last : Option ℕ) (candidate : ℕ) : ℕ × ℕ :=
  match last with
  | some lastGeneratedInt =>
    if candidate ≤ lastGeneratedInt then
      (withVersion7 (lastGeneratedInt + 1), lastGeneratedInt + 1)
    else (candidate, candidate)
  | none => (candidate, candidate)

/-- The number after this one differs in the last 62 bits only. -/
def HasNext (n : ℕ) : Prop := n % 2 ^ 62 + 1 < 2 ^ 62

instance (n : ℕ) : Decidable (HasNext n) := inferInstanceAs (Decidable (_ < _))

theorem withVersion7_eq {n : ℕ} (h : IsV7 n) : withVersion7 n = n := by
  obtain ⟨-, hversion, hvariant⟩ := h
  unfold withVersion7
  omega

theorem isV7_succ {n : ℕ} (h : IsV7 n) (hnext : HasNext n) : IsV7 (n + 1) := by
  obtain ⟨hlt, hversion, hvariant⟩ := h
  unfold HasNext at hnext
  refine ⟨?_, ?_, ?_⟩ <;> omega

theorem timestampMs_mono {m n : ℕ} (h : m ≤ n) : timestampMs m ≤ timestampMs n :=
  Nat.div_le_div_right h

/-- **The next id is after the last, and not before the candidate.** -/
theorem generateId_spec {last : Option ℕ} {candidate : ℕ} (hcandidate : IsV7 candidate)
    (hlast : ∀ l, last = some l → IsV7 l ∧ HasNext l) :
    (generateId last candidate).1 = (generateId last candidate).2 ∧
      IsV7 (generateId last candidate).1 ∧ candidate ≤ (generateId last candidate).1 ∧
      ∀ l, last = some l → l < (generateId last candidate).1 := by
  cases last with
  | none => exact ⟨rfl, hcandidate, Nat.le_refl _, nofun⟩
  | some l =>
    obtain ⟨hl, hnext⟩ := hlast l rfl
    have hsucc := isV7_succ hl hnext
    by_cases hle : candidate ≤ l
    · simp only [generateId, if_pos hle, withVersion7_eq hsucc, Option.some.injEq]
      refine ⟨trivial, hsucc, by omega, ?_⟩
      intro l' h
      omega
    · simp only [generateId, if_neg hle, Option.some.injEq]
      refine ⟨trivial, hcandidate, Nat.le_refl _, ?_⟩
      intro l' h
      omega

/-- From a last id whose last 62 bits are all ones the increment carries into the variant, whose
bits are then put back: the next id is not after the last. -/
theorem generateId_carry {l candidate : ℕ} (hl : IsV7 l) (hnext : ¬ HasNext l)
    (hle : candidate ≤ l) : (generateId (some l) candidate).1 < l := by
  obtain ⟨hlt, hversion, hvariant⟩ := hl
  simp only [generateId, if_pos hle, withVersion7]
  unfold HasNext at hnext
  omega

/-! ### A sequence of calls -/

/-- The ids of successive calls. -/
def generateIds : Option ℕ → List ℕ → List ℕ
  | _, [] => []
  | last, candidate :: candidates =>
    (generateId last candidate).1 :: generateIds (generateId last candidate).2 candidates

/-- No call has to go on from an id whose last 62 bits are all ones. -/
def Advances : Option ℕ → List ℕ → Prop
  | _, [] => True
  | last, candidate :: candidates =>
    (∀ l, last = some l → candidate ≤ l → HasNext l) ∧
      Advances (generateId last candidate).2 candidates

/-- Valid version-7 UUIDs in strictly increasing order. -/
def Increasing (ids : List ℕ) : Prop := (∀ id ∈ ids, IsV7 id) ∧ ids.Pairwise (· < ·)

theorem increasing_cons {id : ℕ} {ids : List ℕ} :
    Increasing (id :: ids) ↔ IsV7 id ∧ (∀ id' ∈ ids, id < id') ∧ Increasing ids := by
  unfold Increasing
  rw [List.forall_mem_cons, List.pairwise_cons]
  constructor
  · intro ⟨⟨hid, hids⟩, hlt, hpairwise⟩
    exact ⟨hid, hlt, hids, hpairwise⟩
  · intro ⟨hid, hlt, hids, hpairwise⟩
    exact ⟨⟨hid, hids⟩, hlt, hpairwise⟩

/-- After a valid id the ids of the further calls increase exactly when no call has to carry. -/
theorem advances_iff {l : ℕ} (hl : IsV7 l) {candidates : List ℕ}
    (h : ∀ c ∈ candidates, IsV7 c) :
    Advances (some l) candidates ↔ Increasing (l :: generateIds (some l) candidates) := by
  induction candidates generalizing l with
  | nil => simp [Advances, generateIds, Increasing, hl]
  | cons c candidates ih =>
    rw [List.forall_mem_cons] at h
    rw [Advances, generateIds]
    by_cases hnext : c ≤ l → HasNext l
    · have hspec : (generateId (some l) c).1 = (generateId (some l) c).2 ∧
          IsV7 (generateId (some l) c).1 ∧ l < (generateId (some l) c).1 := by
        by_cases hle : c ≤ l
        · have hlast : ∀ l', some l = some l' → IsV7 l' ∧ HasNext l' :=
            fun l' hl' => Option.some.inj hl' ▸ ⟨hl, hnext hle⟩
          obtain ⟨heq, hv7, -, hlt⟩ := generateId_spec h.1 hlast
          exact ⟨heq, hv7, hlt l rfl⟩
        · simp only [generateId, if_neg hle]
          exact ⟨trivial, h.1, Nat.lt_of_not_le hle⟩
      obtain ⟨heq, hv7, hlt⟩ := hspec
      rw [← heq, ih hv7 h.2, @increasing_cons l]
      constructor
      · intro ⟨_, hinc⟩
        refine ⟨hl, fun id hid => ?_, hinc⟩
        rcases List.mem_cons.mp hid with rfl | hid
        · exact hlt
        · exact Nat.lt_trans hlt ((increasing_cons.mp hinc).2.1 id hid)
      · intro ⟨_, _, hinc⟩
        exact ⟨fun l' hl' => Option.some.inj hl' ▸ hnext, hinc⟩
    · rw [Classical.not_imp] at hnext
      have hcarry := generateId_carry hl hnext.2 hnext.1
      constructor
      · intro ⟨hstep, _⟩
        exact absurd (hstep l rfl hnext.1) hnext.2
      · intro hinc
        have hlt := (increasing_cons.mp hinc).2.1 _ List.mem_cons_self
        omega

/-- **The ids of one process are valid and strictly increasing exactly when no call has to go on from
an id whose last 62 bits are all ones.** -/
theorem ids_increasing {candidates : List ℕ} (h : ∀ c ∈ candidates, IsV7 c) :
    Increasing (generateIds none candidates) ↔ Advances none candidates := by
  cases candidates with
  | nil => simp [Advances, generateIds, Increasing]
  | cons c candidates =>
    rw [List.forall_mem_cons] at h
    show Increasing (c :: generateIds (some c) candidates) ↔ _ ∧ Advances (some c) candidates
    rw [← advances_iff h.1 h.2]
    simp

/-- An id at the end of its millisecond's last random part. -/
def lastOfVariant : ℕ := 7 * 2 ^ 76 + 2 * 2 ^ 62 + (2 ^ 62 - 1)

/-- A clock that stands still for two calls, and then goes back. -/
theorem ids_increasing_backwards :
    Increasing (generateIds none [2 ^ 80 + 7 * 2 ^ 76 + 2 * 2 ^ 62, 2 ^ 80 + 7 * 2 ^ 76 + 2 * 2 ^ 62,
      7 * 2 ^ 76 + 2 * 2 ^ 62]) :=
  (ids_increasing (by decide)).mpr (by simp [Advances, generateId, HasNext])

/-- The second id is below the first. -/
theorem carried_id : ¬ ∀ candidates : List ℕ, (∀ c ∈ candidates, IsV7 c) →
    Increasing (generateIds none candidates) := by
  intro h
  have hids := (h [lastOfVariant, lastOfVariant] (by decide)).2
  revert hids
  decide

end Chatspace.Ids
