import Chatspace.Core.Pagination

/-!
# The strings that are cursors

* `accepted` — a string that `decodeCursor` accepts is the cursor of the position it is read as, or
  this cursor and a newline: `_BASE64URL_RE` is applied by `match`, and its `$` stands before a
  final newline too;
* `cursor_codec` — **exactly the cursors followed by a newline are a second spelling.**
-/

namespace Chatspace

open Codec

theorem ofNat_char {c : Char} {n : ℕ} (h : n = c.toNat) : Char.ofNat n = c := by
  rw [h, Char.ofNat_toNat]

theorem standardChar_of_base64url {c : Char} (h : base64urlChar c) :
    urlsafeChar (standardChar c) = c ∧ ∃ v < 64, standardChar c = b64Char v := by
  simp only [base64urlChar, Bool.or_eq_true, Bool.and_eq_true, decide_eq_true_eq] at h
  by_cases hminus : c = '-'
  · subst hminus
    exact ⟨rfl, 62, by decide⟩
  by_cases hunder : c = '_'
  · subst hunder
    exact ⟨rfl, 63, by decide⟩
  have hplus : c ≠ '+' := by
    rintro rfl
    revert h
    decide
  have hslash : c ≠ '/' := by
    rintro rfl
    revert h
    decide
  refine ⟨by simp [urlsafeChar, standardChar, hminus, hunder, hplus, hslash], ?_⟩
  have hsame : standardChar c = c := by simp [standardChar, hminus, hunder]
  rw [hsame]
  rcases h with (((h | h) | h) | h) | h
  · refine ⟨c.toNat - 65, by omega, ?_⟩
    rw [b64Char, if_pos (by omega)]
    exact (ofNat_char (by omega)).symm
  · refine ⟨c.toNat - 97 + 26, by omega, ?_⟩
    rw [b64Char, if_neg (by omega), if_pos (by omega)]
    exact (ofNat_char (by omega)).symm
  · refine ⟨c.toNat - 48 + 52, by omega, ?_⟩
    rw [b64Char, if_neg (by omega), if_neg (by omega), if_pos (by omega)]
    exact (ofNat_char (by omega)).symm
  · exact absurd h hunder
  · exact absurd h hminus

/-- What the pattern matches: characters of the alphabet, and perhaps a newline after them. -/
theorem base64urlRe_split {s : Text} (h : base64urlRe s) :
    ∃ w, (∀ c ∈ w, base64urlChar c) ∧ (s = w ∨ s = w ++ ['\n']) := by
  simp only [base64urlRe, Bool.and_eq_true, Bool.or_eq_true, decide_eq_true_eq] at h
  have hsplit := List.takeWhile_append_dropWhile (p := base64urlChar) (l := s)
  refine ⟨s.takeWhile base64urlChar, fun c hc => List.mem_takeWhile_imp hc, ?_⟩
  rcases h.2 with hnil | hnl
  · rw [hnil, List.append_nil] at hsplit
    exact Or.inl hsplit.symm
  · rw [hnl] at hsplit
    exact Or.inr hsplit.symm

section Decode

variable {w : Text} {payload : List UInt8}

/-- Whole groups read from characters of the alphabet are written as these characters. -/
theorem urlsafe_encode_decode (hw : ∀ c ∈ w, base64urlChar c) {tail : Text}
    (htail : Skipped (tail.map standardChar))
    (hdec : urlsafeB64decode (w ++ tail) = some payload) (hwhole : payload.length % 3 = 0) :
    urlsafeB64encode payload = w := by
  have hmap : a2bBase64 0 0 0 (w.map standardChar ++ tail.map standardChar) = some payload := by
    rw [← List.map_append]
    exact hdec
  have hencode : b2aBase64 payload = w.map standardChar := by
    apply b2a_a2b htail _ _ hmap hwhole
    intro c hc
    obtain ⟨d, hd, rfl⟩ := List.mem_map.mp hc
    exact (standardChar_of_base64url (hw d hd)).2
  calc urlsafeB64encode payload = (w.map standardChar).map urlsafeChar := by
        rw [urlsafeB64encode, hencode]
    _ = w := by
        rw [List.map_map]
        conv_rhs => rw [← List.map_id w]
        apply List.map_congr_left
        intro c hc
        exact (standardChar_of_base64url (hw c hc)).1

/-- The encoding of whole groups is read whatever is skipped after it. -/
theorem urlsafe_decode_encode_skipped {n : ℕ} (h : payload.length = 3 * n) {tail : Text}
    (htail : Skipped (tail.map standardChar)) :
    urlsafeB64decode (urlsafeB64encode payload ++ tail) = some payload := by
  calc urlsafeB64decode (urlsafeB64encode payload ++ tail)
      = a2bBase64 0 0 0 ((urlsafeB64encode payload ++ tail).map standardChar) := rfl
    _ = a2bBase64 0 0 0 (b2aBase64 payload ++ tail.map standardChar) := by
        rw [List.map_append, map_standardChar_urlsafeB64encode h]
    _ = some payload := a2b_b2a_skipped htail payload h

end Decode

/-- Every error names the cursor. -/
theorem error_field {s : Text} {e : PaginationError} (h : decodeCursor s = .error e) :
    e.field = "cursor" := by
  simp only [decodeCursor] at h
  split at h
  · cases h
    rfl
  split at h
  · cases h
    rfl
  split at h
  · cases h
    rfl
  split at h
  · cases h
    rfl
  split at h
  · cases h
  · cases h
    rfl

/-- The 24 bytes are packed again as they were unpacked. -/
theorem payload_unpacked {payload : List UInt8} (h : payload.length = 24) :
    packInt64 (unpackInt64 (payload.take 8)) ++ toBytes 16 (ofBytes (payload.drop 8)) = payload := by
  have htake : (payload.take 8).length = 8 := by simp [h]
  have hdrop : (payload.drop 8).length = 16 := by simp [h]
  have hid : toBytes 16 (ofBytes (payload.drop 8)) = payload.drop 8 := by
    rw [← hdrop]
    exact toBytes_ofBytes _
  rw [pack_unpack htake, hid, List.take_append_drop]

theorem skipped_padding (n : ℕ) : Skipped ((List.replicate n '=').map standardChar) := by
  intro c hc
  obtain ⟨d, hd, rfl⟩ := List.mem_map.mp hc
  rw [List.eq_of_mem_replicate hd]
  exact Or.inl rfl

theorem skipped_newline (n : ℕ) :
    Skipped ((['\n'] ++ List.replicate n '=').map standardChar) := by
  intro c hc
  rcases List.mem_cons.mp hc with rfl | hc
  · exact Or.inr rfl
  · exact skipped_padding n c hc

/-- A string that is accepted is the cursor of the position it is read as, or this cursor and a
newline. -/
theorem accepted {s : Text} {key : CursorKey} (h : decodeCursor s = .ok key) :
    key.WellTyped ∧ (s = encodeCursor key ∨ s = encodeCursor key ++ ['\n']) := by
  simp only [decodeCursor] at h
  split at h
  · cases h
  split at h
  · cases h
  rename_i hre
  split at h
  · cases h
  rename_i payload hdec
  split at h
  · cases h
  rename_i hlen
  split at h
  swap
  · cases h
  rename_i hrange
  cases h
  have hlen : payload.length = 24 := by simpa using hlen
  have hid : ofBytes (payload.drop 8) < 2 ^ 128 := by
    have hlt := ofBytes_lt (payload.drop 8)
    rw [List.length_drop, hlen] at hlt
    exact lt_of_lt_of_eq hlt (by norm_num)
  refine ⟨⟨hrange.1, hrange.2, hid⟩, ?_⟩
  obtain ⟨w, hw, hs⟩ := base64urlRe_split (s := s) (by simpa using hre)
  rw [encodeCursor_eq, payload_unpacked hlen]
  rcases hs with rfl | rfl
  · left
    exact (urlsafe_encode_decode hw (skipped_padding _) hdec (by omega)).symm
  · right
    rw [List.append_assoc] at hdec
    rw [urlsafe_encode_decode hw (skipped_newline _) hdec (by omega)]

/-- The newline is skipped by the decoder, as the padding after it is. -/
theorem decode_newline {key : CursorKey} (hkey : key.WellTyped) :
    decodeCursor (encodeCursor key ++ ['\n']) = .ok key := by
  have hchars : ∀ c ∈ encodeCursor key, base64urlChar c := by
    intro c hc
    rw [encodeCursor_eq] at hc
    exact (mem_urlsafeB64encode (length_payload key) hc).1
  have hdrop : (encodeCursor key ++ ['\n']).dropWhile base64urlChar = ['\n'] := by
    rw [List.dropWhile_append_of_pos hchars]
    rfl
  have hre : base64urlRe (encodeCursor key ++ ['\n']) := by
    have hne : ['\n'] ≠ encodeCursor key ++ ['\n'] := by
      simpa using (encodeCursor_ne_nil key).symm
    simp only [base64urlRe, hdrop, hne, ne_eq, not_false_eq_true, decide_true, Bool.or_true,
      Bool.and_self]
  apply decodeCursor_of_payload hkey (by simp) hre
  rw [List.append_assoc, encodeCursor_eq]
  exact urlsafe_decode_encode_skipped (length_payload key) (skipped_newline _)

/-- **Every position is read back from its cursor.  A string that is accepted is the cursor of what
it is read as, and any other raises a `PaginationError` about the cursor, exactly where the string
is not a cursor followed by a newline.** -/
theorem cursor_codec (s : Text) :
    (∀ key : CursorKey, key.WellTyped → decodeCursor (encodeCursor key) = .ok key) ∧
    ((match decodeCursor s with
        | .ok key => key.WellTyped ∧ encodeCursor key = s
        | .error e => e.field = "cursor" ∧ ∀ key : CursorKey, key.WellTyped → encodeCursor key ≠ s)
      ↔ ∀ key : CursorKey, key.WellTyped → s ≠ encodeCursor key ++ ['\n']) := by
  refine ⟨fun key => decode_encode, ?_⟩
  constructor
  · rintro h key hkey rfl
    rw [decode_newline hkey] at h
    have hlen := congrArg List.length h.2
    simp at hlen
  · intro h
    cases hdec : decodeCursor s with
    | ok key =>
      obtain ⟨hkey, hs⟩ := accepted hdec
      exact ⟨hkey, (hs.resolve_right (h key hkey)).symm⟩
    | error e =>
      refine ⟨error_field hdec, fun key hkey hs => ?_⟩
      rw [← hs, decode_encode hkey] at hdec
      cases hdec

/-- The codec at the Unix epoch and the nil id. -/
theorem cursor_codec_epoch : decodeCursor (encodeCursor ⟨0, 0⟩) = .ok ⟨0, 0⟩ :=
  (cursor_codec []).1 ⟨0, 0⟩ (by decide)

/-- The cursor of the Unix epoch and the nil id, and a newline. -/
def newlineCursor : Text := List.replicate 32 'A' ++ ['\n']

/-- **It is accepted, and is not the cursor of what it is read as.** -/
theorem newlineCursor_accepted : ∃ key : CursorKey, key.WellTyped ∧
    decodeCursor newlineCursor = .ok key ∧ encodeCursor key ≠ newlineCursor :=
  ⟨⟨0, 0⟩, by decide, by decide +kernel, by decide +kernel⟩

end Chatspace
