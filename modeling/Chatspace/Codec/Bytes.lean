import Mathlib.Data.Nat.ModEq
import Mathlib.Tactic.Ring

/-!
# Bytes: big-endian numbers and base64

* `toBytes`, `ofBytes` — fixed-width big-endian numbers (`int.to_bytes`, `int.from_bytes`);
* `packInt64`, `unpackInt64` — `struct.Struct(">q")`;
* `b2aBase64` — `binascii.b2a_base64` without the newline;
* `a2bBase64` — `binascii.a2b_base64` with `strict_mode` off: characters outside the alphabet are
  skipped, and input after the padding is not read;
* `a2b_b2a` — **what is encoded is decoded**;
* `pack_unpack`, `b2a_a2b` — what is decoded into whole groups is encoded again as it was read.
-/

namespace Codec

/-! ### Big-endian numbers -/

/-- The low `n` bytes of `x`, most significant first. -/
def toBytes : ℕ → ℕ → List UInt8
  | 0, _ => []
  | n + 1, x => UInt8.ofNat (x / 256 ^ n) :: toBytes n x

def ofBytes (bs : List UInt8) : ℕ := bs.foldl (fun a b => a * 256 + b.toNat) 0

@[simp] theorem length_toBytes (n x : ℕ) : (toBytes n x).length = n := by
  induction n with
  | zero => rfl
  | succ n ih => simp [toBytes, ih]

theorem foldl_toBytes (n x a : ℕ) :
    (toBytes n x).foldl (fun a b => a * 256 + b.toNat) a = a * 256 ^ n + x % 256 ^ n := by
  induction n generalizing a with
  | zero => simp [toBytes, Nat.mod_one]
  | succ n ih =>
    have hdigit : (UInt8.ofNat (x / 256 ^ n)).toNat = x / 256 ^ n % 256 := by simp
    have hmod : x % 256 ^ (n + 1) = x % 256 ^ n + 256 ^ n * (x / 256 ^ n % 256) := by
      rw [pow_succ, Nat.mod_mul]
    rw [toBytes, List.foldl_cons, ih, hdigit, hmod]
    ring

theorem ofBytes_toBytes (n x : ℕ) : ofBytes (toBytes n x) = x % 256 ^ n := by
  rw [ofBytes, foldl_toBytes, zero_mul, zero_add]

/-- Eight bytes, two's complement. -/
def packInt64 (x : ℤ) : List UInt8 := toBytes 8 (x % 2 ^ 64).toNat

def unpackInt64 (bs : List UInt8) : ℤ :=
  if ofBytes bs < 2 ^ 63 then ofBytes bs else (ofBytes bs : ℤ) - 2 ^ 64

theorem unpack_pack {x : ℤ} (hlo : -2 ^ 63 ≤ x) (hhi : x < 2 ^ 63) :
    unpackInt64 (packInt64 x) = x := by
  have hof : ofBytes (packInt64 x) = (x % 2 ^ 64).toNat := by
    rw [packInt64, ofBytes_toBytes]
    exact Nat.mod_eq_of_lt (by omega)
  rw [unpackInt64, hof]
  split <;> omega

theorem foldl_ofBytes (bs : List UInt8) (a : ℕ) :
    bs.foldl (fun a b => a * 256 + b.toNat) a = a * 256 ^ bs.length + ofBytes bs := by
  induction bs generalizing a with
  | nil => simp [ofBytes]
  | cons b bs ih =>
    rw [ofBytes, List.foldl_cons, List.foldl_cons, ih, ih (0 * 256 + b.toNat), List.length_cons,
      pow_succ]
    ring

theorem ofBytes_cons (b : UInt8) (bs : List UInt8) :
    ofBytes (b :: bs) = b.toNat * 256 ^ bs.length + ofBytes bs := by
  rw [ofBytes, List.foldl_cons, foldl_ofBytes, zero_mul, zero_add]

theorem ofBytes_lt (bs : List UInt8) : ofBytes bs < 256 ^ bs.length := by
  induction bs with
  | nil => simp [ofBytes]
  | cons b bs ih =>
    have hb : b.toNat + 1 ≤ 256 := b.toNat_lt
    calc ofBytes (b :: bs) = b.toNat * 256 ^ bs.length + ofBytes bs := ofBytes_cons b bs
      _ < b.toNat * 256 ^ bs.length + 256 ^ bs.length := by omega
      _ = (b.toNat + 1) * 256 ^ bs.length := by ring
      _ ≤ 256 * 256 ^ bs.length := Nat.mul_le_mul_right _ hb
      _ = 256 ^ (b :: bs).length := by rw [List.length_cons, pow_succ, mul_comm]

/-- The bytes above the low `m` are not read. -/
theorem toBytes_mul_add {n m : ℕ} (h : n ≤ m) (k x : ℕ) :
    toBytes n (k * 256 ^ m + x) = toBytes n x := by
  induction n with
  | zero => rfl
  | succ n ih =>
    have hsplit : (256 : ℕ) ^ m = 256 ^ (m - (n + 1)) * 256 * 256 ^ n := by
      rw [mul_assoc, ← pow_succ', ← pow_add]
      congr 1
      omega
    have hdigit : (k * 256 ^ m + x) / 256 ^ n = x / 256 ^ n + 256 * (k * 256 ^ (m - (n + 1))) := by
      rw [hsplit, show k * (256 ^ (m - (n + 1)) * 256 * 256 ^ n) + x =
        x + 256 * (k * 256 ^ (m - (n + 1))) * 256 ^ n by ring,
        Nat.add_mul_div_right _ _ (Nat.pow_pos (by decide))]
    have hbyte : UInt8.ofNat ((k * 256 ^ m + x) / 256 ^ n) = UInt8.ofNat (x / 256 ^ n) := by
      apply UInt8.toNat_inj.mp
      rw [UInt8.toNat_ofNat', UInt8.toNat_ofNat', hdigit, Nat.add_mul_mod_self_left]
    rw [toBytes, toBytes, hbyte, ih (by omega)]

theorem toBytes_ofBytes (bs : List UInt8) : toBytes bs.length (ofBytes bs) = bs := by
  induction bs with
  | nil => rfl
  | cons b bs ih =>
    have hdiv : (b.toNat * 256 ^ bs.length + ofBytes bs) / 256 ^ bs.length = b.toNat := by
      rw [Nat.mul_comm, Nat.mul_add_div (Nat.pow_pos (by decide)), Nat.div_eq_of_lt (ofBytes_lt bs),
        Nat.add_zero]
    rw [ofBytes_cons, List.length_cons, toBytes, hdiv, toBytes_mul_add le_rfl, ih,
      UInt8.ofNat_toNat]

theorem pack_unpack {bs : List UInt8} (h : bs.length = 8) : packInt64 (unpackInt64 bs) = bs := by
  have hlt : ofBytes bs < 2 ^ 64 := by
    simpa [h] using ofBytes_lt bs
  have hmod : (unpackInt64 bs % 2 ^ 64).toNat = ofBytes bs := by
    rw [unpackInt64]
    split <;> omega
  rw [packInt64, hmod, ← h, toBytes_ofBytes]

/-! ### Base64 -/

/-- The character of a sextet. -/
def b64Char (v : ℕ) : Char :=
  if v < 26 then Char.ofNat (65 + v)
  else if v < 52 then Char.ofNat (97 + (v - 26))
  else if v < 62 then Char.ofNat (48 + (v - 52))
  else if v = 62 then '+' else '/'

/-- The sextet of a character of the alphabet. -/
def b64Value (c : Char) : Option ℕ :=
  if 65 ≤ c.toNat ∧ c.toNat ≤ 90 then some (c.toNat - 65)
  else if 97 ≤ c.toNat ∧ c.toNat ≤ 122 then some (c.toNat - 97 + 26)
  else if 48 ≤ c.toNat ∧ c.toNat ≤ 57 then some (c.toNat - 48 + 52)
  else if c = '+' then some 62
  else if c = '/' then some 63
  else none

theorem b64Value_char : ∀ v < 64, b64Value (b64Char v) = some v ∧ b64Char v ≠ '=' := by decide

/-- Four characters for three bytes, with padding for one or two bytes at the end. -/
def b2aBase64 : List UInt8 → List Char
  | [] => []
  | [a] => [b64Char (a.toNat / 4), b64Char (a.toNat % 4 * 16), '=', '=']
  | [a, b] =>
    [b64Char (a.toNat / 4), b64Char (a.toNat % 4 * 16 + b.toNat / 16),
      b64Char (b.toNat % 16 * 4), '=']
  | a :: b :: c :: rest =>
    b64Char (a.toNat / 4) :: b64Char (a.toNat % 4 * 16 + b.toNat / 16) ::
      b64Char (b.toNat % 16 * 4 + c.toNat / 64) :: b64Char (c.toNat % 64) :: b2aBase64 rest

/-- The decoder after `quad` characters of a group of four, with the bits `left` not yet output and
`pads` padding characters in a row.  It raises where the input ends within a group. -/
def a2bBase64 (quad left pads : ℕ) : List Char → Option (List UInt8)
  | [] => if quad = 0 then some [] else none
  | ch :: rest =>
    if ch = '=' then
      if 2 ≤ quad ∧ 4 ≤ quad + (pads + 1) then some []
      else a2bBase64 quad left (if 2 ≤ quad then pads + 1 else pads) rest
    else
      match b64Value ch with
      | none => a2bBase64 quad left pads rest
      | some v =>
        match quad with
        | 0 => a2bBase64 1 v 0 rest
        | 1 => (a2bBase64 2 (v % 16) 0 rest).map (UInt8.ofNat (left * 4 + v / 16) :: ·)
        | 2 => (a2bBase64 3 (v % 4) 0 rest).map (UInt8.ofNat (left * 16 + v / 4) :: ·)
        | _ => (a2bBase64 0 0 0 rest).map (UInt8.ofNat (left * 64 + v) :: ·)

variable {quad left pads v : ℕ} {rest : List Char}

theorem a2b_zero (hv : v < 64) : a2bBase64 0 left pads (b64Char v :: rest) = a2bBase64 1 v 0 rest := by
  obtain ⟨hval, hne⟩ := b64Value_char v hv
  simp [a2bBase64, hval, hne]

theorem a2b_one (hv : v < 64) : a2bBase64 1 left pads (b64Char v :: rest) =
    (a2bBase64 2 (v % 16) 0 rest).map (UInt8.ofNat (left * 4 + v / 16) :: ·) := by
  obtain ⟨hval, hne⟩ := b64Value_char v hv
  simp [a2bBase64, hval, hne]

theorem a2b_two (hv : v < 64) : a2bBase64 2 left pads (b64Char v :: rest) =
    (a2bBase64 3 (v % 4) 0 rest).map (UInt8.ofNat (left * 16 + v / 4) :: ·) := by
  obtain ⟨hval, hne⟩ := b64Value_char v hv
  simp [a2bBase64, hval, hne]

theorem a2b_three (hv : v < 64) : a2bBase64 3 left pads (b64Char v :: rest) =
    (a2bBase64 0 0 0 rest).map (UInt8.ofNat (left * 64 + v) :: ·) := by
  obtain ⟨hval, hne⟩ := b64Value_char v hv
  simp [a2bBase64, hval, hne]

theorem ofNat_eq {a : UInt8} {n : ℕ} (h : n = a.toNat) : UInt8.ofNat n = a := by
  rw [h, UInt8.ofNat_toNat]

/-- **What is encoded is decoded.** -/
theorem a2b_b2a (bs : List UInt8) : a2bBase64 0 0 0 (b2aBase64 bs) = some bs := by
  induction bs using b2aBase64.induct with
  | case1 => rfl
  | case2 a =>
    have ha := a.toNat_lt
    rw [b2aBase64, a2b_zero (by omega), a2b_one (by omega)]
    have hbyte : UInt8.ofNat (a.toNat / 4 * 4 + a.toNat % 4 * 16 / 16) = a := ofNat_eq (by omega)
    rw [hbyte]
    rfl
  | case3 a b =>
    have ha := a.toNat_lt
    have hb := b.toNat_lt
    rw [b2aBase64, a2b_zero (by omega), a2b_one (by omega), a2b_two (by omega)]
    have h₁ : UInt8.ofNat (a.toNat / 4 * 4 + (a.toNat % 4 * 16 + b.toNat / 16) / 16) = a :=
      ofNat_eq (by omega)
    have h₂ : UInt8.ofNat ((a.toNat % 4 * 16 + b.toNat / 16) % 16 * 16 + b.toNat % 16 * 4 / 4) = b :=
      ofNat_eq (by omega)
    rw [h₁, h₂]
    rfl
  | case4 a b c rest ih =>
    have ha := a.toNat_lt
    have hb := b.toNat_lt
    have hc := c.toNat_lt
    rw [b2aBase64, a2b_zero (by omega), a2b_one (by omega), a2b_two (by omega),
      a2b_three (by omega), ih]
    have h₁ : UInt8.ofNat (a.toNat / 4 * 4 + (a.toNat % 4 * 16 + b.toNat / 16) / 16) = a :=
      ofNat_eq (by omega)
    have h₂ : UInt8.ofNat ((a.toNat % 4 * 16 + b.toNat / 16) % 16 * 16 +
        (b.toNat % 16 * 4 + c.toNat / 64) / 4) = b := ofNat_eq (by omega)
    have h₃ : UInt8.ofNat ((b.toNat % 16 * 4 + c.toNat / 64) % 4 * 64 + c.toNat % 64) = c :=
      ofNat_eq (by omega)
    rw [h₁, h₂, h₃]
    rfl

/-- Whole groups of three bytes are encoded by characters of the alphabet, four for each. -/
theorem b2a_whole {bs : List UInt8} {n : ℕ} (h : bs.length = 3 * n) :
    (b2aBase64 bs).length = 4 * n ∧ ∀ c ∈ b2aBase64 bs, ∃ v < 64, c = b64Char v := by
  induction bs using b2aBase64.induct generalizing n with
  | case1 =>
    simp at h
    simp [b2aBase64, h]
  | case2 a =>
    simp at h
    omega
  | case3 a b =>
    simp at h
    omega
  | case4 a b c rest ih =>
    have ha := a.toNat_lt
    have hb := b.toNat_lt
    have hc := c.toNat_lt
    cases n with
    | zero => simp at h
    | succ n =>
      obtain ⟨hlen, hmem⟩ := ih (n := n) (by simp at h; omega)
      refine ⟨by simp [b2aBase64, hlen]; omega, fun d hd => ?_⟩
      simp only [b2aBase64, List.mem_cons] at hd
      rcases hd with rfl | rfl | rfl | rfl | hd
      · exact ⟨_, by omega, rfl⟩
      · exact ⟨_, by omega, rfl⟩
      · exact ⟨_, by omega, rfl⟩
      · exact ⟨_, by omega, rfl⟩
      · exact hmem d hd

/-! ### What is decoded -/

/-- Input that the decoder skips or takes for padding. -/
def Skipped (tail : List Char) : Prop := ∀ c ∈ tail, c = '=' ∨ b64Value c = none

theorem a2b_skipped {tail : List Char} (h : Skipped tail) {payload : List UInt8}
    (hdec : a2bBase64 quad left pads tail = some payload) :
    payload = [] ∧ (quad = 0 ∨ 2 ≤ quad) := by
  induction tail generalizing pads with
  | nil =>
    simp only [a2bBase64] at hdec
    split at hdec
    · simp_all
    · cases hdec
  | cons c tail ih =>
    have hc := h c List.mem_cons_self
    have htail : Skipped tail := fun d hd => h d (List.mem_cons_of_mem c hd)
    rw [a2bBase64] at hdec
    split at hdec
    · split at hdec
      · rename_i hpad
        exact ⟨by simpa using hdec.symm, Or.inr hpad.1⟩
      · exact ih htail hdec
    · rename_i hne
      rw [hc.resolve_left hne] at hdec
      exact ih htail hdec

theorem a2b_nothing {tail : List Char} (h : Skipped tail) : a2bBase64 0 left pads tail = some [] := by
  induction tail generalizing pads with
  | nil => rfl
  | cons c tail ih =>
    have htail : Skipped tail := fun d hd => h d (List.mem_cons_of_mem c hd)
    rw [a2bBase64]
    split
    · exact ih htail
    · rename_i hne
      rw [(h c List.mem_cons_self).resolve_left hne]
      exact ih htail

/-- Whole groups are decoded whatever is skipped after them. -/
theorem a2b_b2a_skipped {left pads : ℕ} {tail : List Char} (htail : Skipped tail)
    (bs : List UInt8) {n : ℕ} (h : bs.length = 3 * n) :
    a2bBase64 0 left pads (b2aBase64 bs ++ tail) = some bs := by
  match bs, n with
  | [], _ => exact a2b_nothing htail
  | [a], n =>
    simp at h
    omega
  | [a, b], n =>
    simp at h
    omega
  | a :: b :: c :: rest, 0 => simp at h
  | a :: b :: c :: rest, n + 1 =>
    have ha := a.toNat_lt
    have hb := b.toNat_lt
    have hc := c.toNat_lt
    have hrest : rest.length = 3 * n := by
      simp only [List.length_cons] at h
      omega
    simp only [b2aBase64, List.cons_append]
    rw [a2b_zero (by omega), a2b_one (by omega), a2b_two (by omega), a2b_three (by omega),
      a2b_b2a_skipped htail rest hrest]
    have h₁ : UInt8.ofNat (a.toNat / 4 * 4 + (a.toNat % 4 * 16 + b.toNat / 16) / 16) = a :=
      ofNat_eq (by omega)
    have h₂ : UInt8.ofNat ((a.toNat % 4 * 16 + b.toNat / 16) % 16 * 16 +
        (b.toNat % 16 * 4 + c.toNat / 64) / 4) = b := ofNat_eq (by omega)
    have h₃ : UInt8.ofNat ((b.toNat % 16 * 4 + c.toNat / 64) % 4 * 64 + c.toNat % 64) = c :=
      ofNat_eq (by omega)
    rw [h₁, h₂, h₃]
    rfl

/-- **Characters decoded into whole groups are the encoding of what they were decoded to.** -/
theorem b2a_a2b {left pads : ℕ} {tail : List Char} (htail : Skipped tail) {payload : List UInt8}
    (s : List Char) (hs : ∀ c ∈ s, ∃ v < 64, c = b64Char v)
    (hdec : a2bBase64 0 left pads (s ++ tail) = some payload) (hwhole : payload.length % 3 = 0) :
    b2aBase64 payload = s := by
  match s with
  | [] =>
    rw [(a2b_skipped htail hdec).1]
    rfl
  | [c] =>
    obtain ⟨v, hv, rfl⟩ := hs c (by simp)
    rw [List.singleton_append, a2b_zero hv] at hdec
    have hquad := (a2b_skipped htail hdec).2
    omega
  | [c, d] =>
    obtain ⟨v, hv, rfl⟩ := hs c (by simp)
    obtain ⟨w, hw, rfl⟩ := hs d (by simp)
    rw [List.cons_append, List.singleton_append, a2b_zero hv, a2b_one hw] at hdec
    obtain ⟨rest, hrest, rfl⟩ := Option.map_eq_some_iff.mp hdec
    rw [(a2b_skipped htail hrest).1] at hwhole
    simp at hwhole
  | [c, d, e] =>
    obtain ⟨v, hv, rfl⟩ := hs c (by simp)
    obtain ⟨w, hw, rfl⟩ := hs d (by simp)
    obtain ⟨x, hx, rfl⟩ := hs e (by simp)
    rw [List.cons_append, List.cons_append, List.singleton_append, a2b_zero hv, a2b_one hw,
      a2b_two hx] at hdec
    obtain ⟨rest, hrest, rfl⟩ := Option.map_eq_some_iff.mp hdec
    obtain ⟨rest', hrest', rfl⟩ := Option.map_eq_some_iff.mp hrest
    rw [(a2b_skipped htail hrest').1] at hwhole
    simp at hwhole
  | c :: d :: e :: f :: s =>
    obtain ⟨v, hv, rfl⟩ := hs c (by simp)
    obtain ⟨w, hw, rfl⟩ := hs d (by simp)
    obtain ⟨x, hx, rfl⟩ := hs e (by simp)
    obtain ⟨y, hy, rfl⟩ := hs f (by simp)
    simp only [List.cons_append] at hdec
    rw [a2b_zero hv, a2b_one hw, a2b_two hx, a2b_three hy] at hdec
    obtain ⟨p₁, h₁, rfl⟩ := Option.map_eq_some_iff.mp hdec
    obtain ⟨p₂, h₂, rfl⟩ := Option.map_eq_some_iff.mp h₁
    obtain ⟨p₃, h₃, rfl⟩ := Option.map_eq_some_iff.mp h₂
    have hrec : b2aBase64 p₃ = s := b2a_a2b htail s (fun g hg => hs g (by simp [hg])) h₃ (by
      simp only [List.length_cons] at hwhole
      omega)
    -- the four sextets are read off the three bytes again
    have hb₁ : (UInt8.ofNat (v * 4 + w / 16)).toNat = v * 4 + w / 16 := by simp; omega
    have hb₂ : (UInt8.ofNat (w % 16 * 16 + x / 4)).toNat = w % 16 * 16 + x / 4 := by simp; omega
    have hb₃ : (UInt8.ofNat (x % 4 * 64 + y)).toNat = x % 4 * 64 + y := by simp; omega
    rw [b2aBase64, hrec, hb₁, hb₂, hb₃]
    have h₁ : (v * 4 + w / 16) / 4 = v := by omega
    have h₂ : (v * 4 + w / 16) % 4 * 16 + (w % 16 * 16 + x / 4) / 16 = w := by omega
    have h₃ : (w % 16 * 16 + x / 4) % 16 * 4 + (x % 4 * 64 + y) / 64 = x := by omega
    have h₄ : (x % 4 * 64 + y) % 64 = y := by omega
    rw [h₁, h₂, h₃, h₄]

end Codec
