import Chatspace.Backend.Schema
import Chatspace.Codec.Bytes
import Chatspace.Paging.Keyset
import Mathlib.Data.List.DropRight
import Mathlib.Data.List.Sort
import Mathlib.Data.Prod.Lex

/-!
# `app/core/pagination.py`

Cursors, and the parts of a keyset query.  A `Select` is the list of the rows it stands for, in
the order the database would return them.

* `encodeCursor`, `decodeCursor` — the opaque token of a `(created_at, id)` position;
* `decode_encode` — **a cursor handed out is read back**;
* `applyKeyset`, `splitKeysetPage`, `buildPage`, `paginateRows` — one page;
* `isPage_paginateRows` — ordered rows below the cursor are paginated by their keys.
-/

namespace Chatspace

open Codec Paging

structure PaginationError where
  field : String
  detail : String
deriving DecidableEq

/-- A position: microseconds since the Unix epoch, and the 128 bits of the id. -/
structure CursorKey where
  createdAt : ℤ
  id : ℕ
deriving DecidableEq

/-- `datetime.min` and `datetime.max` in UTC. -/
def datetimeMin : ℤ := -62135596800000000

def datetimeMax : ℤ := 253402300799999999

/-- The key is made of a `datetime` and a `UUID`. -/
def CursorKey.WellTyped (key : CursorKey) : Prop :=
  datetimeMin ≤ key.createdAt ∧ key.createdAt ≤ datetimeMax ∧ key.id < 2 ^ 128

instance (key : CursorKey) : Decidable key.WellTyped := inferInstanceAs (Decidable (_ ∧ _))

structure Page (α : Type) where
  items : List α
  nextCursor : Option Text
deriving DecidableEq

/-- A character of `b2a_base64`, as `urlsafe_b64encode` writes it. -/
def urlsafeChar (c : Char) : Char := if c = '+' then '-' else if c = '/' then '_' else c

/-- A character of a cursor, as `a2b_base64` reads it. -/
def standardChar (c : Char) : Char := if c = '-' then '+' else if c = '_' then '/' else c

/-- `base64.urlsafe_b64encode`. -/
def urlsafeB64encode (payload : List UInt8) : Text := (b2aBase64 payload).map urlsafeChar

/-- `base64.urlsafe_b64decode`. -/
def urlsafeB64decode (s : Text) : Option (List UInt8) := a2bBase64 0 0 0 (s.map standardChar)

def encodeCursor (key : CursorKey) : Text :=
  (urlsafeB64encode (packInt64 key.createdAt ++ toBytes 16 key.id)).rdropWhile (· = '=')

/-- `[A-Za-z0-9_-]`. -/
def base64urlChar (c : Char) : Bool :=
  (65 ≤ c.toNat && c.toNat ≤ 90) || (97 ≤ c.toNat && c.toNat ≤ 122) ||
    (48 ≤ c.toNat && c.toNat ≤ 57) || c = '_' || c = '-'

/-- `_BASE64URL_RE.match`: `$` also matches before a newline that ends the string. -/
def base64urlRe (s : Text) : Bool :=
  s.dropWhile base64urlChar ≠ s && (s.dropWhile base64urlChar = [] ||
    s.dropWhile base64urlChar = ['\n'])

def decodeCursor (cursor : Text) : Except PaginationError CursorKey :=
  if cursor = [] then .error ⟨"cursor", "cursor must not be empty"⟩
  else if !base64urlRe cursor then .error ⟨"cursor", "cursor is not valid base64url"⟩
  else
    -- `-len(cursor) % 4`
    let padded := cursor ++ List.replicate (-(cursor.length : ℤ) % 4).toNat '='
    match urlsafeB64decode padded with
    | none => .error ⟨"cursor", "cursor is not valid base64url"⟩
    | some payload =>
      if payload.length ≠ 24 then .error ⟨"cursor", "cursor has an invalid length"⟩
      else
        let micros := unpackInt64 (payload.take 8)
        -- `_EPOCH + timedelta(microseconds=micros)` overflows outside the years 1 to 9999
        if datetimeMin ≤ micros ∧ micros ≤ datetimeMax then
          .ok ⟨micros, ofBytes (payload.drop 8)⟩
        else .error ⟨"cursor", "cursor payload is corrupt"⟩

/-- `(created_at, id)`, compared as PostgreSQL compares tuples. -/
def CursorKey.position (key : CursorKey) : ℤ ×ₗ ℕ := toLex (key.createdAt, key.id)

/-- `(created_at, id) < (cursor.created_at, cursor.id)`. -/
def keysetPredicate (createdAt : ℤ) (id : ℕ) (cursor : CursorKey) : Bool :=
  createdAt < cursor.createdAt ∨ createdAt = cursor.createdAt ∧ id < cursor.id

/-- `ORDER BY created_at DESC, id DESC`. -/
def keysetOrderBy {α : Type} (createdAtCol : α → ℤ) (idCol : α → ℕ) (x y : α) : Prop :=
  createdAtCol y < createdAtCol x ∨ createdAtCol y = createdAtCol x ∧ idCol y ≤ idCol x

instance {α : Type} (createdAtCol : α → ℤ) (idCol : α → ℕ) :
    DecidableRel (keysetOrderBy createdAtCol idCol) :=
  fun _ _ => inferInstanceAs (Decidable (_ ∨ _))

def applyKeyset {α : Type} (stmt : List α) (createdAtCol : α → ℤ) (idCol : α → ℕ)
    (cursor : Option CursorKey) : List α :=
  let stmt := match cursor with
    | some c => stmt.filter fun x => keysetPredicate (createdAtCol x) (idCol x) c
    | none => stmt
  stmt.insertionSort (keysetOrderBy createdAtCol idCol)

def splitKeysetPage {α : Type} (rows : List α) (limit : ℕ) : List α × Bool :=
  (rows.take limit, limit < rows.length)

def buildPage {α : Type} (items : List α) (hasMore : Bool) (cursorKey : α → CursorKey) : Page α :=
  ⟨items, if hasMore then items.getLast?.map fun x => encodeCursor (cursorKey x) else none⟩

def paginateRows {α : Type} (rows : List α) (limit : ℕ) (cursorKey : α → CursorKey) : Page α :=
  let (pageRows, hasMore) := splitKeysetPage rows limit
  buildPage pageRows hasMore cursorKey

/-! ### The cursor codec -/

theorem b64Char_urlsafe : ∀ v < 64, standardChar (urlsafeChar (b64Char v)) = b64Char v ∧
    base64urlChar (urlsafeChar (b64Char v)) ∧ urlsafeChar (b64Char v) ≠ '=' := by
  decide

section Encode

variable {bs : List UInt8} {n : ℕ}

theorem mem_urlsafeB64encode (h : bs.length = 3 * n) {c : Char} (hc : c ∈ urlsafeB64encode bs) :
    base64urlChar c ∧ c ≠ '=' := by
  obtain ⟨d, hd, rfl⟩ := List.mem_map.mp hc
  obtain ⟨v, hv, rfl⟩ := (b2a_whole h).2 d hd
  exact (b64Char_urlsafe v hv).2

theorem length_urlsafeB64encode (h : bs.length = 3 * n) :
    (urlsafeB64encode bs).length = 4 * n := by
  rw [urlsafeB64encode, List.length_map, (b2a_whole h).1]

theorem map_standardChar_urlsafeB64encode (h : bs.length = 3 * n) :
    (urlsafeB64encode bs).map standardChar = b2aBase64 bs := by
  rw [urlsafeB64encode, List.map_map]
  refine (List.map_congr_left fun c hc => ?_).trans (List.map_id _)
  obtain ⟨v, hv, rfl⟩ := (b2a_whole h).2 c hc
  exact (b64Char_urlsafe v hv).1

theorem urlsafe_decode_encode (h : bs.length = 3 * n) :
    urlsafeB64decode (urlsafeB64encode bs) = some bs := by
  rw [urlsafeB64decode, map_standardChar_urlsafeB64encode h, a2b_b2a]

theorem rdropWhile_urlsafe (h : bs.length = 3 * n) :
    (urlsafeB64encode bs).rdropWhile (· = '=') = urlsafeB64encode bs := by
  refine List.rdropWhile_eq_self_iff.mpr fun hne => ?_
  simpa using (mem_urlsafeB64encode h (List.getLast_mem hne)).2

end Encode

theorem length_payload (key : CursorKey) :
    (packInt64 key.createdAt ++ toBytes 16 key.id).length = 3 * 8 := by
  simp [packInt64]

theorem encodeCursor_eq (key : CursorKey) :
    encodeCursor key = urlsafeB64encode (packInt64 key.createdAt ++ toBytes 16 key.id) :=
  rdropWhile_urlsafe (length_payload key)

theorem encodeCursor_ne_nil (key : CursorKey) : encodeCursor key ≠ [] := by
  intro h
  have hlen := length_urlsafeB64encode (length_payload key)
  rw [← encodeCursor_eq, h] at hlen
  simp at hlen

theorem base64urlRe_of_all {s : Text} (hne : s ≠ []) (h : ∀ c ∈ s, base64urlChar c) :
    base64urlRe s := by
  have hdrop : s.dropWhile base64urlChar = [] := List.dropWhile_eq_nil_iff.mpr h
  simp [base64urlRe, hdrop, hne.symm]

/-- A string that decodes to the bytes of a position is read as this position. -/
theorem decodeCursor_of_payload {key : CursorKey} (hkey : key.WellTyped) {s : Text} (hne : s ≠ [])
    (hre : base64urlRe s)
    (hdec : urlsafeB64decode (s ++ List.replicate (-(s.length : ℤ) % 4).toNat '=') =
      some (packInt64 key.createdAt ++ toBytes 16 key.id)) : decodeCursor s = .ok key := by
  obtain ⟨hlo, hhi, hid⟩ := hkey
  have hmicros : unpackInt64 (packInt64 key.createdAt) = key.createdAt := by
    refine unpack_pack ?_ ?_ <;> simp only [datetimeMin, datetimeMax] at hlo hhi <;> omega
  have htake : (packInt64 key.createdAt ++ toBytes 16 key.id).take 8 = packInt64 key.createdAt :=
    List.take_left' (by simp [packInt64])
  have hdrop : (packInt64 key.createdAt ++ toBytes 16 key.id).drop 8 = toBytes 16 key.id :=
    List.drop_left' (by simp [packInt64])
  have hofid : ofBytes (toBytes 16 key.id) = key.id := by
    rw [ofBytes_toBytes]
    exact Nat.mod_eq_of_lt (by omega)
  have hlen24 : (packInt64 key.createdAt ++ toBytes 16 key.id).length = 24 := length_payload key
  simp [decodeCursor, hne, hre, hdec, hlen24, htake, hdrop, hmicros, hofid, hlo, hhi]

/-- **A cursor handed out is read back.** -/
theorem decode_encode {key : CursorKey} (hkey : key.WellTyped) :
    decodeCursor (encodeCursor key) = .ok key := by
  have hlen := length_urlsafeB64encode (length_payload key)
  have hre : base64urlRe (encodeCursor key) := by
    refine base64urlRe_of_all (encodeCursor_ne_nil key) fun c hc => ?_
    rw [encodeCursor_eq] at hc
    exact (mem_urlsafeB64encode (length_payload key) hc).1
  have hpad : (-((encodeCursor key).length : ℤ) % 4).toNat = 0 := by
    rw [encodeCursor_eq, hlen]
    rfl
  apply decodeCursor_of_payload hkey (encodeCursor_ne_nil key) hre
  rw [hpad, List.replicate_zero, List.append_nil, encodeCursor_eq,
    urlsafe_decode_encode (length_payload key)]

/-! ### One page -/

section Page

variable {α κ : Type} [LinearOrder κ] {rows : List α} {cursorKey : α → CursorKey} {limit : ℕ}

theorem paginateRows_take (l : List α) : paginateRows (l.take (limit + 1)) limit cursorKey =
    ⟨l.take limit, if limit < l.length then
      (l.take limit).getLast?.map fun x => encodeCursor (cursorKey x) else none⟩ := by
  have htake : (l.take (limit + 1)).take limit = l.take limit := by
    rw [List.take_take, Nat.min_eq_left (Nat.le_succ limit)]
  have hmore : limit < (l.take (limit + 1)).length ↔ limit < l.length := by
    rw [List.length_take]
    omega
  simp only [paginateRows, splitKeysetPage, buildPage, htake, hmore, decide_eq_true_eq]

/-- Rows ordered by a key that their cursors stand for are paginated by this key. -/
theorem isPage_paginateRows {l : List α} {key : α → κ} {c : Option κ} {position : Text → Option κ}
    (hlimit : 1 ≤ limit) (hl : ∀ x, x ∈ l ↔ x ∈ rows ∧ Below key c x)
    (hd : l.Pairwise fun x y => key y < key x)
    (hpos : ∀ x ∈ rows, position (encodeCursor (cursorKey x)) = some (key x)) :
    IsPage key rows c (paginateRows (l.take (limit + 1)) limit cursorKey).items
        ((paginateRows (l.take (limit + 1)) limit cursorKey).nextCursor.bind position) ∧
      ∀ c' ∈ (paginateRows (l.take (limit + 1)) limit cursorKey).nextCursor,
        ∃ k, position c' = some k := by
  have hmem : ∀ y ∈ (l.take limit).getLast?, position (encodeCursor (cursorKey y)) = some (key y) :=
    fun y hy => hpos y ((hl y).mp (List.mem_of_mem_take (List.mem_of_getLast? hy))).1
  rw [paginateRows_take]
  constructor
  · convert isPage_take hlimit hl hd using 1
    split
    · cases hlast : (l.take limit).getLast? with
      | none => rfl
      | some y => exact hmem y hlast
    · rfl
  · intro c' hc'
    obtain ⟨y, hy, rfl⟩ : ∃ y, (l.take limit).getLast? = some y ∧
        encodeCursor (cursorKey y) = c' := by
      simp only [Option.mem_def] at hc'
      split at hc'
      · exact Option.map_eq_some_iff.mp hc'
      · cases hc'
    exact ⟨key y, hmem y hy⟩

variable {createdAtCol : α → ℤ} {idCol : α → ℕ}

theorem mem_applyKeyset {cursor : Option CursorKey} {x : α} :
    x ∈ applyKeyset rows createdAtCol idCol cursor ↔
      x ∈ rows ∧ ∀ c ∈ cursor, keysetPredicate (createdAtCol x) (idCol x) c := by
  cases cursor with
  | none => simp [applyKeyset]
  | some c => simp [applyKeyset]

instance : Std.Total (keysetOrderBy createdAtCol idCol) where
  total x y := by
    simp only [keysetOrderBy]
    omega

instance : IsTrans α (keysetOrderBy createdAtCol idCol) where
  trans x y z := by
    simp only [keysetOrderBy]
    omega

theorem pairwise_applyKeyset (cursor : Option CursorKey)
    (hrows : rows.Pairwise fun x y => idCol x ≠ idCol y) :
    (applyKeyset rows createdAtCol idCol cursor).Pairwise fun x y =>
      (CursorKey.mk (createdAtCol y) (idCol y)).position <
        (CursorKey.mk (createdAtCol x) (idCol x)).position := by
  set stmt : List α := match cursor with
    | some c => rows.filter fun x => keysetPredicate (createdAtCol x) (idCol x) c
    | none => rows with hstmt
  have hdistinct : stmt.Pairwise fun x y => idCol x ≠ idCol y := by
    cases cursor with
    | none => exact hrows
    | some c => exact hrows.filter _
  have hsorted := List.pairwise_insertionSort (keysetOrderBy createdAtCol idCol) stmt
  have hperm := List.perm_insertionSort (keysetOrderBy createdAtCol idCol) stmt
  have hne := (hperm.pairwise_iff fun h => Ne.symm h).mpr hdistinct
  refine (hsorted.and hne).imp fun hxy => ?_
  obtain ⟨hle, hid⟩ := hxy
  rw [CursorKey.position, CursorKey.position, Prod.Lex.toLex_lt_toLex]
  simp only [keysetOrderBy] at hle
  dsimp only
  omega

end Page

end Chatspace
