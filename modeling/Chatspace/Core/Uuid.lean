import Chatspace.Codec.Bytes
import Chatspace.Codec.Digits
import Chatspace.Services.Messages
import Mathlib.Data.Char
import Mathlib.Order.Fin.Basic

/-!
# UUIDs

* `Uuid` — a 128-bit number, compared as Python's `UUID` is, by `.int`;
* `Uuid.str` — `str(uuid)`, compared character by character;
* `Uuid.bytes` — the sixteen bytes, compared as PostgreSQL compares `uuid`, bytewise;
* `str_lt_iff`, `bytes_lt_iff` — **the three orders are one;**
* `Uuid.ofStr` — `UUID(s)`; `ofStr_str` — **`UUID(str(uuid))` is `uuid`.**
-/

namespace Chatspace

abbrev Uuid : Type := Fin (2 ^ 128)

instance neZeroUuid : NeZero (2 ^ 128) := ⟨by norm_num⟩

namespace Uuid

/-! ### As a string -/

/-- A digit of `'%032x'`. -/
def hexChar (d : ℕ) : Char := if d < 10 then Char.ofNat (48 + d) else Char.ofNat (87 + d)

/-- `'%032x' % self.int`. -/
def hex (u : Uuid) : Text := (Codec.digits 16 32 u.val).map hexChar

/-- `'%s-%s-%s-%s-%s' % (hex[:8], hex[8:12], hex[12:16], hex[16:20], hex[20:])`. -/
def hyphenate (hex : Text) : Text :=
  hex.take 8 ++ '-' :: ((hex.drop 8).take 4 ++ '-' :: ((hex.drop 12).take 4 ++ '-' ::
    ((hex.drop 16).take 4 ++ '-' :: hex.drop 20)))

/-- `str(uuid)`. -/
def str (u : Uuid) : Text := hyphenate u.hex

theorem hexChar_lt_iff : ∀ c < 16, ∀ d < 16, (hexChar c < hexChar d ↔ c < d) := by decide

theorem hexChar_inj : ∀ c < 16, ∀ d < 16, hexChar c = hexChar d → c = d := by decide

@[simp] theorem length_hex (u : Uuid) : u.hex.length = 32 := by
  rw [hex, List.length_map, Codec.length_digits]

@[simp] theorem length_str (u : Uuid) : u.str.length = 36 := by
  simp [str, hyphenate]

theorem hex_lt_iff (u v : Uuid) : u.hex < v.hex ↔ u < v := by
  have hpow : (16 : ℕ) ^ 32 = 2 ^ 128 := by norm_num
  rw [hex, hex, Codec.map_lt_iff (p := (· < 16)) (fun c d hc hd => hexChar_lt_iff c hc d hd)
    (fun c d hc hd => hexChar_inj c hc d hd) (fun _ hd => Codec.digit_lt (by decide) hd)
    fun _ hd => Codec.digit_lt (by decide) hd,
    Codec.digits_lt_iff (by decide) (by rw [hpow]; exact u.isLt) (by rw [hpow]; exact v.isLt)]
  exact Iff.rfl

/-- The five groups of digits. -/
theorem groups (h : Text) : h = h.take 8 ++ ((h.drop 8).take 4 ++ ((h.drop 12).take 4 ++
    ((h.drop 16).take 4 ++ h.drop 20))) := by
  have hcut : ∀ i n, (h.drop i).take n ++ h.drop (i + n) = h.drop i := by
    intro i n
    rw [← List.drop_drop, List.take_append_drop]
  rw [hcut 16 4, hcut 12 4, hcut 8 4, List.take_append_drop]

/-- The hyphens do not change the order. -/
theorem hyphenate_lt_iff {h h' : Text} (hlen : h.length = h'.length) :
    hyphenate h < hyphenate h' ↔ h < h' := by
  have htake : ∀ i n, ((h.drop i).take n).length = ((h'.drop i).take n).length := by
    intro i n
    rw [List.length_take, List.length_take, List.length_drop, List.length_drop, hlen]
  have hjoin := Codec.sep_lt_iff (htake 0 8) '-' (Codec.sep_lt_iff (htake 8 4) '-'
    (Codec.sep_lt_iff (htake 12 4) '-' (Codec.sep_lt_iff (htake 16 4) '-'
      (Iff.refl (h.drop 20 < h'.drop 20)))))
  rw [List.drop_zero, List.drop_zero, ← groups h, ← groups h'] at hjoin
  exact hjoin

/-- **Strings are ordered as the numbers.** -/
theorem str_lt_iff (u v : Uuid) : u.str < v.str ↔ u < v := by
  rw [str, str, hyphenate_lt_iff (by rw [length_hex, length_hex]), hex_lt_iff]

theorem str_le_iff (u v : Uuid) : u.str ≤ v.str ↔ u ≤ v := by
  rw [← not_lt, str_lt_iff, not_lt]

theorem str_injective : Function.Injective str := by
  intro u v h
  have hlt := str_lt_iff u v
  have hgt := str_lt_iff v u
  rw [h] at hlt hgt
  have hnlt : ¬ u < v := fun huv => lt_irrefl _ (hlt.mpr huv)
  have hngt : ¬ v < u := fun hvu => lt_irrefl _ (hgt.mpr hvu)
  exact le_antisymm (not_lt.mp hngt) (not_lt.mp hnlt)

/-! ### As bytes -/

/-- `uuid.bytes`. -/
def bytes (u : Uuid) : List UInt8 := Codec.toBytes 16 u.val

theorem toBytes_eq (w n : ℕ) : Codec.toBytes w n = (Codec.digits 256 w n).map UInt8.ofNat := by
  induction w with
  | zero => rfl
  | succ w ih =>
    have hdigit : UInt8.ofNat (n / 256 ^ w) = UInt8.ofNat (n / 256 ^ w % 256) := by
      rw [← UInt8.toNat_inj]
      simp
    rw [Codec.toBytes, Codec.digits, List.map_cons, ih, hdigit]

/-- **Bytes are ordered as the numbers.** -/
theorem bytes_lt_iff (u v : Uuid) : u.bytes < v.bytes ↔ u < v := by
  have hpow : (256 : ℕ) ^ 16 = 2 ^ 128 := by norm_num
  have hbyte : ∀ c : ℕ, c < 256 → (UInt8.ofNat c).toNat = c :=
    fun c hc => UInt8.toNat_ofNat_of_lt' hc
  rw [bytes, bytes, toBytes_eq, toBytes_eq, Codec.map_lt_iff (p := (· < 256))
    (fun c d hc hd => by rw [UInt8.lt_iff_toNat_lt, hbyte c hc, hbyte d hd])
    (fun c d hc hd h => by rw [← hbyte c hc, ← hbyte d hd, h])
    (fun _ hd => Codec.digit_lt (by decide) hd) fun _ hd => Codec.digit_lt (by decide) hd,
    Codec.digits_lt_iff (by decide) (by rw [hpow]; exact u.isLt) (by rw [hpow]; exact v.isLt)]
  exact Iff.rfl

theorem bytes_le_iff (u v : Uuid) : u.bytes ≤ v.bytes ↔ u ≤ v := by
  show ¬ v.bytes < u.bytes ↔ u ≤ v
  rw [bytes_lt_iff, not_lt]

/-! ### From a string -/

/-- `str.replace(old, '')`, with `skip` characters of an occurrence still to go. -/
def replace (old : Text) : (skip : ℕ) → Text → Text
  | _, [] => []
  | skip + 1, _ :: cs => replace old skip cs
  | 0, c :: cs =>
    if old.isPrefixOf (c :: cs) then replace old (old.length - 1) cs else c :: replace old 0 cs

/-- `str.strip(chars)`. -/
def strip (chars : Text) (s : Text) : Text :=
  ((s.dropWhile (· ∈ chars)).reverse.dropWhile (· ∈ chars)).reverse

/-- What `int` skips at the two ends. -/
def whitespace : Text := [' ', '\t', '\n', '\r', '\x0b', '\x0c']

/-- The zeros of the decimal digits of Unicode outside of ASCII; the nine others follow each. -/
def decimalZeros : List ℕ :=
  [0x660, 0x6f0, 0x7c0, 0x966, 0x9e6, 0xa66, 0xae6, 0xb66, 0xbe6, 0xc66, 0xce6, 0xd66, 0xde6,
    0xe50, 0xed0, 0xf20, 0x1040, 0x1090, 0x17e0, 0x1810, 0x1946, 0x19d0, 0x1a80, 0x1a90, 0x1b50,
    0x1bb0, 0x1c40, 0x1c50, 0xa620, 0xa8d0, 0xa900, 0xa9d0, 0xa9f0, 0xaa50, 0xabf0, 0xff10,
    0x104a0, 0x10d30, 0x11066, 0x110f0, 0x11136, 0x111d0, 0x112f0, 0x11450, 0x114d0, 0x11650,
    0x116c0, 0x11730, 0x118e0, 0x11950, 0x11c50, 0x11d50, 0x11da0, 0x11f50, 0x16a60, 0x16ac0,
    0x16b50, 0x1d7ce, 0x1d7d8, 0x1d7e2, 0x1d7ec, 0x1d7f6, 0x1e140, 0x1e2f0, 0x1e4f0, 0x1e950,
    0x1fbf0]

/-- What `int` reads a character as: a decimal digit, a blank, or nothing of a number. -/
def toAscii (c : Char) : Char :=
  if c.toNat < 127 then c
  else if Messages.isSpace c then ' '
  else
    match decimalZeros.find? fun z => z ≤ c.toNat ∧ c.toNat < z + 10 with
    | some z => Char.ofNat (48 + (c.toNat - z))
    | none => '?'

/-- The value of a digit in base 16. -/
def hexDigit? (c : Char) : Option ℕ :=
  if '0' ≤ c ∧ c ≤ '9' then some (c.toNat - 48)
  else if 'a' ≤ c ∧ c ≤ 'f' then some (c.toNat - 87)
  else if 'A' ≤ c ∧ c ≤ 'F' then some (c.toNat - 55)
  else none

/-- Digits after those of value `acc`; an underscore stands between two of them. -/
def readDigits (acc : ℕ) : (afterDigit : Bool) → Text → Option ℕ
  | afterDigit, [] => if afterDigit then some acc else none
  | afterDigit, c :: cs =>
    if c = '_' then if afterDigit then readDigits acc false cs else none
    else (hexDigit? c).bind fun d => readDigits (16 * acc + d) true cs

/-- The prefix of base 16, which an underscore may follow. -/
def dropBasePrefix (s : Text) : Text :=
  if s.take 2 = ['0', 'x'] ∨ s.take 2 = ['0', 'X'] then
    if (s.drop 2).head? = some '_' then s.drop 3 else s.drop 2
  else s

/-- `int(s, 16)`. -/
def int16 (s : Text) : Option ℤ :=
  let s := strip whitespace (s.map toAscii)
  if s.head? = some '-' then (readDigits 0 false (dropBasePrefix s.tail)).map fun n => -(n : ℤ)
  else
    let s := if s.head? = some '+' then s.tail else s
    (readDigits 0 false (dropBasePrefix s)).map fun n => (n : ℤ)

/-- An Arabic-Indic digit between blanks of Unicode. -/
example : int16 ['\u2003', '\u0661', 'f', '\u00a0'] = some 31 := by decide

/-- `UUID(s)`, where it does not raise `ValueError`. -/
def ofStr (s : Text) : Option Uuid :=
  let hex := replace ['u', 'u', 'i', 'd', ':'] 0 (replace ['u', 'r', 'n', ':'] 0 s)
  let hex := replace ['-'] 0 (strip ['{', '}'] hex)
  if hex.length = 32 then
    (int16 hex).bind fun int =>
      if h : 0 ≤ int ∧ int < 2 ^ 128 then some ⟨int.toNat, by omega⟩ else none
  else none

/-- The digits in which a UUID is written. -/
def hexChars : Text :=
  ['0', '1', '2', '3', '4', '5', '6', '7', '8', '9', 'a', 'b', 'c', 'd', 'e', 'f']

theorem hexChar_mem : ∀ d < 16, hexChar d ∈ hexChars := by decide

theorem hexDigit?_hexChar : ∀ d < 16, hexDigit? (hexChar d) = some d := by decide

theorem mem_hex {u : Uuid} {c : Char} (h : c ∈ u.hex) : c ∈ hexChars := by
  obtain ⟨d, hd, rfl⟩ := List.mem_map.mp h
  exact hexChar_mem d (Codec.digit_lt (by decide) hd)

theorem mem_str {u : Uuid} {c : Char} (h : c ∈ u.str) : c = '-' ∨ c ∈ u.hex := by
  simp only [str, hyphenate, List.mem_append, List.mem_cons] at h
  have htake : ∀ i n, c ∈ (u.hex.drop i).take n → c ∈ u.hex :=
    fun i n hc => List.mem_of_mem_drop (List.mem_of_mem_take hc)
  rcases h with h | h | h | h | h | h | h | h | h
  · exact .inr (List.mem_of_mem_take h)
  · exact .inl h
  · exact .inr (htake 8 4 h)
  · exact .inl h
  · exact .inr (htake 12 4 h)
  · exact .inl h
  · exact .inr (htake 16 4 h)
  · exact .inl h
  · exact .inr (List.mem_of_mem_drop h)

/-- What does not occur is not replaced. -/
theorem replace_eq_self {o : Char} (os : Text) {s : Text} (h : o ∉ s) :
    replace (o :: os) 0 s = s := by
  induction s with
  | nil => rfl
  | cons c cs ih =>
    rw [List.mem_cons, not_or] at h
    have hne : (o == c) = false := by simpa using h.1
    have hprefix : (o :: os).isPrefixOf (c :: cs) = false := by simp [List.isPrefixOf, hne]
    rw [replace, hprefix, if_neg Bool.false_ne_true, ih h.2]

theorem replace_hyphen (s : Text) : replace ['-'] 0 s = s.filter (· ≠ '-') := by
  induction s with
  | nil => rfl
  | cons c cs ih =>
    by_cases hc : c = '-'
    · subst hc
      simp [replace, ih]
    · have hne : ('-' == c) = false := by simpa using Ne.symm hc
      have hprefix : ['-'].isPrefixOf (c :: cs) = false := by simp [List.isPrefixOf, hne]
      rw [replace, hprefix, if_neg Bool.false_ne_true, ih]
      simp [hc]

theorem strip_eq_self {chars s : Text} (h : ∀ c ∈ s, c ∉ chars) : strip chars s = s := by
  have hdrop : ∀ s : Text, (∀ c ∈ s, c ∉ chars) → s.dropWhile (· ∈ chars) = s := by
    intro s hs
    cases s with
    | nil => rfl
    | cons c cs =>
      rw [List.dropWhile_cons_of_neg]
      simpa using hs c List.mem_cons_self
  rw [strip, hdrop s h, hdrop s.reverse (by simpa using h), List.reverse_reverse]

theorem filter_hyphenate {h : Text} (hh : '-' ∉ h) : (hyphenate h).filter (· ≠ '-') = h := by
  have hkeep : h.filter (· ≠ '-') = h := by
    rw [List.filter_eq_self]
    intro c hc
    simpa using fun heq : c = '-' => hh (heq ▸ hc)
  have hfilter := congrArg (List.filter (· ≠ '-')) (groups h)
  rw [hkeep] at hfilter
  simp only [List.filter_append] at hfilter
  simp only [hyphenate, List.filter_append, List.filter_cons]
  simpa using hfilter.symm

theorem readDigits_map {ds : List ℕ} (hds : ∀ d ∈ ds, d < 16) (acc : ℕ) (afterDigit : Bool)
    (hne : ds ≠ [] ∨ afterDigit = true) : readDigits acc afterDigit (ds.map hexChar) =
      some (ds.foldl (fun a d => 16 * a + d) acc) := by
  induction ds generalizing acc afterDigit with
  | nil =>
    have hafter : afterDigit = true := by simpa using hne
    rw [hafter]
    rfl
  | cons d ds ih =>
    rw [List.forall_mem_cons] at hds
    have hchar : hexChar d ≠ '_' := by
      have := hexChar_mem d hds.1
      rintro heq
      rw [heq] at this
      exact absurd this (by decide)
    rw [List.map_cons, readDigits, if_neg hchar, hexDigit?_hexChar d hds.1, Option.bind_some,
      ih hds.2 _ _ (.inr rfl), List.foldl_cons]

/-- No other character is among the digits. -/
theorem not_mem_hex {c : Char} (hc : c ∉ hexChars) (u : Uuid) : c ∉ u.hex :=
  fun h => hc (mem_hex h)

theorem int16_hex (u : Uuid) : int16 u.hex = some (u.val : ℤ) := by
  have hascii : u.hex.map toAscii = u.hex := by
    have hsame : hexChars.all (fun c => toAscii c = c) = true := by decide
    refine (List.map_congr_left fun c hc => ?_).trans (List.map_id _)
    exact of_decide_eq_true (List.all_eq_true.mp hsame c (mem_hex hc))
  have hwhitespace : ∀ c ∈ whitespace, c ∉ hexChars := by simp [whitespace, hexChars]
  have hspace : strip whitespace u.hex = u.hex :=
    strip_eq_self fun c hc hw => not_mem_hex (hwhitespace c hw) u hc
  have hhead : ∀ c, c ∉ u.hex → u.hex.head? ≠ some c :=
    fun c hc h => hc (List.mem_of_head? h)
  have hprefix : dropBasePrefix u.hex = u.hex := by
    have htake : ∀ c, c ∉ u.hex → u.hex.take 2 ≠ ['0', c] := by
      intro c hc h
      refine hc (List.mem_of_mem_take (i := 2) ?_)
      rw [h]
      exact List.mem_cons_of_mem _ List.mem_cons_self
    rw [dropBasePrefix, if_neg]
    rintro (h | h)
    · exact htake 'x' (not_mem_hex (by decide) u) h
    · exact htake 'X' (not_mem_hex (by decide) u) h
  have hpow : (16 : ℕ) ^ 32 = 2 ^ 128 := by norm_num
  rw [int16, hascii, hspace]
  simp only
  rw [if_neg (hhead _ (not_mem_hex (by decide) u)), if_neg (hhead _ (not_mem_hex (by decide) u)),
    hprefix, hex, readDigits_map (fun d hd => Codec.digit_lt (by decide) hd) _ _
      (.inl (by simp [Codec.digits])), Codec.foldl_digits, hpow, Nat.mod_eq_of_lt u.isLt, Nat.mul_zero, Nat.zero_add]
  rfl

/-- **`UUID(str(u))` is `u`.** -/
theorem ofStr_str (u : Uuid) : ofStr u.str = some u := by
  have hnot : ∀ c, c ≠ '-' → c ∉ u.hex → c ∉ u.str :=
    fun c hc hhex h => (mem_str h).elim hc hhex
  have hstrip : strip ['{', '}'] u.str = u.str := by
    have hbraces : ∀ c ∈ ['{', '}'], c ≠ '-' ∧ c ∉ hexChars := by simp [hexChars]
    refine strip_eq_self fun c hc hbrace => ?_
    obtain ⟨hhyphen, hchar⟩ := hbraces c hbrace
    exact hnot c hhyphen (not_mem_hex hchar u) hc
  rw [ofStr, replace_eq_self _ (hnot 'u' (by decide) (not_mem_hex (by decide) u)),
    replace_eq_self _ (hnot 'u' (by decide) (not_mem_hex (by decide) u)), hstrip, replace_hyphen,
    str, filter_hyphenate (not_mem_hex (by decide) u)]
  rw [if_pos (length_hex u), int16_hex, Option.bind_some,
    dif_pos ⟨Int.natCast_nonneg _, by exact_mod_cast u.isLt⟩]
  rfl

end Uuid

end Chatspace
