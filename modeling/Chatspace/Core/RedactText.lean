import Chatspace.Backend.Schema
import Chatspace.Codec.Substitute
import Mathlib.Data.List.TakeWhile

/-!
# `redact_text`

`_JWT_RE.sub("[REDACTED]", text)` with the pattern

    \b[A-Za-z0-9_-]{8,}\.[A-Za-z0-9_-]{8,}\.[A-Za-z0-9_-]{8,}\b

A word boundary lies between a character that counts as part of a word and one that does not, and
which characters beyond ASCII do is a parameter.

* `jwtMatch` — the length of the match at a place;
* `finds_jwt` — it finds the tokens;
* `redactText_idem` — **to redact a text twice is to redact it once.**
-/

namespace Chatspace.Redact

/-- `REDACTED`. -/
def redacted : Text := "[REDACTED]".toList

/-- `[A-Za-z0-9_-]`. -/
def isSegmentChar (c : Char) : Bool := c.isAlphanum || c = '_' || c = '-'

/-- A part of a token. -/
def Segment (s : Text) : Prop := 8 ≤ s.length ∧ ∀ c ∈ s, isSegmentChar c

/-- Three parts with dots between them. -/
def Token (s : Text) : Prop :=
  ∃ a b c, s = a ++ '.' :: (b ++ '.' :: c) ∧ Segment a ∧ Segment b ∧ Segment c

variable (isWord : Char → Bool)

/-- `\b`. -/
def wordBoundary (prev next : Option Char) : Bool := prev.any isWord != next.any isWord

/-- The longest end of the last part that is at a word boundary. -/
def lastSegment (s : Text) : Option ℕ :=
  (List.range ((s.takeWhile isSegmentChar).length + 1)).reverse.find? fun n =>
    8 ≤ n && wordBoundary isWord (s.take n).getLast? (s.drop n).head?

/-- The part before a dot, and what comes after the dot. -/
def segmentBeforeDot (s : Text) : Option (ℕ × Text) :=
  match s.dropWhile isSegmentChar with
  | '.' :: rest =>
    if 8 ≤ (s.takeWhile isSegmentChar).length then
      some ((s.takeWhile isSegmentChar).length + 1, rest)
    else none
  | _ => none

/-- The length of the match at this place. -/
def jwtMatch (prev : Option Char) (s : Text) : Option ℕ :=
  if wordBoundary isWord prev s.head? then
    match segmentBeforeDot s with
    | none => none
    | some (first, s) =>
      match segmentBeforeDot s with
      | none => none
      | some (second, s) => (lastSegment isWord s).map fun third => first + (second + third)
  else none

/-- `redact_text`. -/
def redactText (text : Text) : Text := Codec.substitute (jwtMatch isWord) redacted 0 none text

variable {isWord} {s a rest : Text} {n : ℕ}

theorem segmentBeforeDot_some (h : segmentBeforeDot s = some (n, rest)) :
    ∃ a, s = a ++ '.' :: rest ∧ Segment a ∧ n = a.length + 1 := by
  unfold segmentBeforeDot at h
  split at h
  · rename_i rest' hdrop
    split at h
    · rename_i hlen
      obtain ⟨rfl, rfl⟩ := Prod.mk.inj (Option.some.inj h)
      refine ⟨s.takeWhile isSegmentChar, ?_, ⟨hlen, fun c hc => List.mem_takeWhile_imp hc⟩, rfl⟩
      rw [← hdrop, List.takeWhile_append_dropWhile]
    · cases h
  · cases h

theorem takeWhile_segment (h : Segment a) :
    (a ++ '.' :: rest).takeWhile isSegmentChar = a ∧
      (a ++ '.' :: rest).dropWhile isSegmentChar = '.' :: rest := by
  rw [List.takeWhile_append_of_pos h.2, List.dropWhile_append_of_pos h.2,
    List.takeWhile_cons_of_neg (by decide), List.dropWhile_cons_of_neg (by decide)]
  exact ⟨List.append_nil a, rfl⟩

theorem segmentBeforeDot_append (h : Segment a) :
    segmentBeforeDot (a ++ '.' :: rest) = some (a.length + 1, rest) := by
  unfold segmentBeforeDot
  rw [(takeWhile_segment h).1, (takeWhile_segment h).2]
  exact if_pos h.1

theorem lastSegment_some (h : lastSegment isWord s = some n) : ∃ c rest, s = c ++ rest ∧
    c.length = n ∧ Segment c ∧ wordBoundary isWord c.getLast? rest.head? = true := by
  have hmem := List.mem_of_find?_eq_some h
  have hprop := List.find?_some h
  rw [List.mem_reverse, List.mem_range] at hmem
  rw [Bool.and_eq_true, decide_eq_true_eq] at hprop
  have hbegins : s.take n <+: s.takeWhile isSegmentChar := by
    have hle := List.take_prefix n s
    exact List.prefix_of_prefix_length_le hle (List.takeWhile_prefix _) (by simp; omega)
  have hlen : (s.take n).length = n := by
    have := (List.takeWhile_prefix isSegmentChar (l := s)).length_le
    rw [List.length_take]
    omega
  refine ⟨s.take n, s.drop n, (List.take_append_drop n s).symm, hlen, ⟨?_, ?_⟩, hprop.2⟩
  · rw [hlen]
    exact hprop.1
  · exact fun c hc => List.mem_takeWhile_imp (hbegins.subset hc)

theorem lastSegment_isSome {c : Text} (h : Segment c)
    (hend : wordBoundary isWord c.getLast? rest.head? = true) :
    (lastSegment isWord (c ++ rest)).isSome := by
  rw [lastSegment, List.find?_isSome]
  refine ⟨c.length, ?_, ?_⟩
  · rw [List.mem_reverse, List.mem_range, List.takeWhile_append_of_pos h.2, List.length_append]
    omega
  · rw [List.take_left, List.drop_left, hend]
    simpa using h.1

theorem getLast?_token (a b : Text) {c : Text} (hc : Segment c) :
    (a ++ '.' :: (b ++ '.' :: c)).getLast? = c.getLast? := by
  have hne : c ≠ [] := List.ne_nil_of_length_pos (Nat.lt_of_lt_of_le (by decide) hc.1)
  have hsplit : a ++ '.' :: (b ++ '.' :: c) = (a ++ '.' :: (b ++ ['.'])) ++ c := by simp
  rw [hsplit, List.getLast?_append_of_ne_nil _ hne]

/-- The matches are the tokens between word boundaries. -/
theorem finds_jwt : Codec.Finds Token (fun x y => wordBoundary isWord x y = true)
    (jwtMatch isWord) where
  nonempty m hm := by
    obtain ⟨a, b, c, rfl, -⟩ := hm
    simp
  found prev l n h := by
    unfold jwtMatch at h
    split at h
    · rename_i hstart
      split at h
      · cases h
      · rename_i first s hfirst
        split at h
        · cases h
        · rename_i second s' hsecond
          obtain ⟨third, hthird, rfl⟩ := Option.map_eq_some_iff.mp h
          obtain ⟨a, rfl, ha, rfl⟩ := segmentBeforeDot_some hfirst
          obtain ⟨b, rfl, hb, rfl⟩ := segmentBeforeDot_some hsecond
          obtain ⟨c, rest, rfl, rfl, hc, hend⟩ := lastSegment_some hthird
          refine ⟨a ++ '.' :: (b ++ '.' :: c), rest, by simp, ?_, ⟨a, b, c, rfl, ha, hb, hc⟩, hstart,
            ?_⟩
          · simp only [List.length_append, List.length_cons]
            omega
          · rw [getLast?_token a b hc]
            exact hend
    · cases h
  missed prev l h m rest heq hm hstart hend := by
    obtain ⟨a, b, c, rfl, ha, hb, hc⟩ := hm
    rw [getLast?_token a b hc] at hend
    have hl : l = a ++ '.' :: (b ++ '.' :: (c ++ rest)) := by
      rw [heq]
      simp
    unfold jwtMatch at h
    rw [if_pos hstart, hl, segmentBeforeDot_append ha] at h
    dsimp only at h
    rw [segmentBeforeDot_append hb] at h
    dsimp only at h
    rw [Option.map_eq_none_iff] at h
    have hsome := lastSegment_isSome hc hend
    rw [h] at hsome
    cases hsome

/-- A token has no brackets, and two dots. -/
theorem Token.chars (h : Token s) : '[' ∉ s ∧ ']' ∉ s ∧ '.' ∈ s := by
  obtain ⟨a, b, c, rfl, ha, hb, hc⟩ := h
  have havoid : ∀ d, ¬ isSegmentChar d → d ≠ '.' → d ∉ a ++ '.' :: (b ++ '.' :: c) := by
    intro d hd hdot hmem
    simp only [List.mem_append, List.mem_cons, hdot, false_or] at hmem
    rcases hmem with hmem | hmem | hmem
    · exact hd (ha.2 d hmem)
    · exact hd (hb.2 d hmem)
    · exact hd (hc.2 d hmem)
  exact ⟨havoid '[' (by decide) (by decide), havoid ']' (by decide) (by decide), by simp⟩

/-- **To redact a text twice is to redact it once.** -/
theorem redactText_idem (text : Text) :
    redactText isWord (redactText isWord text) = redactText isWord text := by
  have hdot : '.' ∉ "REDACTED".toList := by decide
  have hnew : redacted = '[' :: ("REDACTED".toList ++ [']']) := rfl
  exact finds_jwt.substitute_idem hnew
    (fun m hm => ⟨hm.chars.1, hm.chars.2.1⟩) (fun m hm hwithin => hdot (hwithin.subset hm.chars.2.2))
    none text

end Chatspace.Redact
