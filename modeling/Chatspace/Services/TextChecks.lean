import Mathlib.Algebra.GroupWithZero.Nat
import Chatspace.Codec.Text
import Chatspace.Services.Messages

/-!
# The text a client, the service and the database accept

The content of a message is checked by the client, by `is_valid_content` and by the database, and a
channel name by `is_valid_channel_name` and by the database.  A text is the list of its code points.

* `validateMessageContent` — `useMessageHistory.ts`: JavaScript counts UTF-16 units, and trims its
  own set of white space;
* `messagesAccept`, `channelsAccept` — the text a PostgreSQL column can hold, and the `CHECK`s;
* `content_chain` — **the client's check implies the service's and that the insert's, exactly on the
  contents without U+0000 that are not blank to the service alone**;
* `channel_name_agreement` — **exactly a valid name followed by a newline is accepted by
  `is_valid_channel_name` and refused by the `CHECK`.**
-/

namespace Chatspace.TextChecks

open Codec Messages

/-! ### Contents -/

/-- `constants.ts`. -/
def messageMaxLength : ℕ := 4000

/-- A character that `String.prototype.trim` drops. -/
def jsWhitespace (c : Char) : Bool :=
  c.toNat ∈ [0x20, 0xa0, 0x1680, 0x2028, 0x2029, 0x202f, 0x205f, 0x3000, 0xfeff] ||
    (0x09 ≤ c.toNat && c.toNat ≤ 0x0d) || (0x2000 ≤ c.toNat && c.toNat ≤ 0x200a)

/-- The UTF-16 units of a code point. -/
def utf16Units (c : Char) : ℕ := if c.toNat < 0x10000 then 1 else 2

/-- `content.length` in JavaScript. -/
def jsLength (content : Text) : ℕ := (content.map utf16Units).sum

/-- `validateMessageContent`: the complaint, if there is one. -/
def validateMessageContent (content : Text) : Option String :=
  if jsLength (trim jsWhitespace content) = 0 then some "Message cannot be empty."
  else if jsLength content > messageMaxLength then
    some "Message is too long (max 4000 characters)."
  else none

/-- `text` cannot hold U+0000. -/
def textHolds (s : Text) : Bool := s.all (· ≠ Char.ofNat 0)

/-- `btrim` without a second argument. -/
def btrim (s : Text) : Text := trim (· = ' ') s

/-- The insert of a message: `CHECK (char_length(content) <= 4000 AND btrim(content) <> '')`. -/
def messagesAccept (content : Text) : Bool :=
  textHolds content && content.length ≤ 4000 && btrim content ≠ []

/-- White space to Python and not to JavaScript. -/
def pythonOnlySpace (c : Char) : Bool := (0x1c ≤ c.toNat && c.toNat ≤ 0x1f) || c.toNat = 0x85

/-- The contents that are taken for blank by the service alone. -/
def blankToServiceOnly (content : Text) : Bool :=
  content.length ≤ 4000 && content.all isSpace && content.any pythonOnlySpace

theorem isSpace_bmp {c : Char} (h : isSpace c) : c.toNat < 0x10000 := by
  simp only [isSpace, Bool.or_eq_true, Bool.and_eq_true, decide_eq_true_eq, List.mem_cons,
    List.not_mem_nil, or_false] at h
  omega

theorem pythonOnlySpace_iff {c : Char} :
    pythonOnlySpace c ↔ isSpace c ∧ ¬ jsWhitespace c := by
  simp only [pythonOnlySpace, isSpace, jsWhitespace, Bool.or_eq_true, Bool.and_eq_true,
    decide_eq_true_eq, List.mem_cons, List.not_mem_nil, or_false]
  omega

theorem length_le_jsLength (content : Text) : content.length ≤ jsLength content := by
  induction content with
  | nil => simp [jsLength]
  | cons c content ih =>
    have hunit : 1 ≤ utf16Units c := by
      rw [utf16Units]
      split <;> omega
    simp only [jsLength, List.map_cons, List.sum_cons, List.length_cons] at ih ⊢
    omega

theorem jsLength_of_bmp {content : Text} (h : ∀ c ∈ content, c.toNat < 0x10000) :
    jsLength content = content.length := by
  induction content with
  | nil => rfl
  | cons c content ih =>
    have hrest := ih fun d hd => h d (List.mem_cons_of_mem c hd)
    simp only [jsLength, List.map_cons, List.sum_cons, List.length_cons] at hrest ⊢
    rw [hrest, utf16Units, if_pos (h c List.mem_cons_self)]
    omega

theorem jsLength_eq_zero {content : Text} : jsLength content = 0 ↔ content = [] := by
  have hle := length_le_jsLength content
  constructor
  · intro h
    rw [h] at hle
    exact List.eq_nil_of_length_eq_zero (by omega)
  · rintro rfl
    rfl

theorem validateMessageContent_iff {content : Text} : validateMessageContent content = none ↔
    (∃ c ∈ content, ¬ jsWhitespace c) ∧ jsLength content ≤ 4000 := by
  have hblank : jsLength (trim jsWhitespace content) = 0 ↔ ∀ c ∈ content, jsWhitespace c :=
    jsLength_eq_zero.trans trim_eq_nil
  rw [validateMessageContent]
  by_cases hall : ∀ c ∈ content, jsWhitespace c
  · rw [if_pos (hblank.mpr hall)]
    have hnone : ¬ ∃ c ∈ content, ¬ jsWhitespace c := fun ⟨c, hc, hnot⟩ => hnot (hall c hc)
    simp only [reduceCtorEq, hnone, false_and]
  · rw [if_neg (fun h => hall (hblank.mp h))]
    push Not at hall
    simpa [messageMaxLength] using fun _ => hall

theorem isValidContent_iff {content : Text} : isValidContent content ↔
    content.length ≤ 4000 ∧ ∃ c ∈ content, ¬ isSpace c := by
  show isValidContent content ↔ content.length ≤ contentMaxLength ∧ ∃ c ∈ content, ¬ isSpace c
  simp [isValidContent]

theorem messagesAccept_iff {content : Text} : messagesAccept content ↔
    Char.ofNat 0 ∉ content ∧ content.length ≤ 4000 ∧ ∃ c ∈ content, c ≠ ' ' := by
  have hblank : btrim content ≠ [] ↔ ∃ c ∈ content, c ≠ ' ' := by
    rw [ne_eq, btrim, trim_eq_nil]
    simp
  have hholds : textHolds content ↔ Char.ofNat 0 ∉ content := by
    simp only [textHolds, List.all_eq_true, decide_eq_true_eq]
    exact ⟨fun h hmem => h _ hmem rfl, fun h c hc heq => h (heq ▸ hc)⟩
  simp only [messagesAccept, Bool.and_eq_true, decide_eq_true_eq, hblank, hholds, and_assoc]

/-- **The client's check implies the service's, and this the insert's, exactly where the content is
not blank to the service alone and does not hold U+0000.** -/
theorem content_chain (content : Text) :
    ((validateMessageContent content = none → isValidContent content) ∧
        (isValidContent content → messagesAccept content)) ↔
      ¬ blankToServiceOnly content ∧ (content.length ≤ 4000 → Char.ofNat 0 ∉ content) := by
  have hnul : ¬ isSpace (Char.ofNat 0) := by decide
  rw [validateMessageContent_iff, isValidContent_iff, messagesAccept_iff]
  constructor
  · rintro ⟨hclient, hservice⟩
    refine ⟨fun hblank => ?_, fun hlen hmem => ?_⟩
    · simp only [blankToServiceOnly, Bool.and_eq_true, decide_eq_true_eq, List.all_eq_true,
        List.any_eq_true] at hblank
      obtain ⟨⟨hlen, hall⟩, c, hc, honly⟩ := hblank
      have hjs := jsLength_of_bmp fun d hd => isSpace_bmp (hall d hd)
      obtain ⟨_, d, hd, hnot⟩ := hclient ⟨⟨c, hc, (pythonOnlySpace_iff.mp honly).2⟩, by omega⟩
      exact hnot (hall d hd)
    · exact (hservice ⟨hlen, _, hmem, hnul⟩).1 hmem
  · rintro ⟨hblank, hzero⟩
    constructor
    · rintro ⟨⟨c, hc, hnot⟩, hlen⟩
      have hle := length_le_jsLength content
      refine ⟨by omega, ?_⟩
      by_contra hcon
      push Not at hcon
      apply hblank
      simp only [blankToServiceOnly, Bool.and_eq_true, decide_eq_true_eq, List.all_eq_true,
        List.any_eq_true]
      exact ⟨⟨by omega, hcon⟩, c, hc, pythonOnlySpace_iff.mpr ⟨hcon c hc, hnot⟩⟩
    · rintro ⟨hlen, c, hc, hnot⟩
      refine ⟨hzero hlen, hlen, c, hc, ?_⟩
      rintro rfl
      exact hnot rfl

/-- **U+0085 passes the client alone, and U+0000 fails in the database alone.** -/
theorem disagreeing_contents :
    (validateMessageContent [Char.ofNat 0x85] = none ∧ isValidContent [Char.ofNat 0x85] = false) ∧
      isValidContent [Char.ofNat 0] = true ∧ messagesAccept [Char.ofNat 0] = false := by
  decide

/-! ### Channel names -/

/-- `[A-Za-z0-9 _-]`. -/
def channelNameChar (c : Char) : Bool :=
  (65 ≤ c.toNat && c.toNat ≤ 90) || (97 ≤ c.toNat && c.toNat ≤ 122) ||
    (48 ≤ c.toNat && c.toNat ≤ 57) || c = ' ' || c = '_' || c = '-'

/-- `CHANNEL_NAME_RE.match`. -/
def isValidChannelName (name : Text) : Bool := dollarMatch channelNameChar 1 80 name

/-- `CHECK (name ~ '^[A-Za-z0-9 _-]{1,80}$')`. -/
def channelsAccept (name : Text) : Bool := fullMatch channelNameChar 1 80 name

/-- The constraint that an insert violates. -/
inductive Violation where
  | check
  | unique
deriving DecidableEq

/-- The insert into a table with the names `taken`; `lower` is the database's. -/
def insertChannel (lower : Text → Text) (taken : List Text) (name : Text) : Except Violation Unit :=
  if !channelsAccept name then .error .check
  else if taken.any fun other => lower other = lower name then .error .unique
  else .ok ()

/-- How `create_channel_route` answers: a status, or the constraint error that it raises. -/
def createChannelRoute (lower : Text → Text) (taken : List Text) (name : Text) :
    Except Violation ℕ :=
  if !isValidChannelName name then .ok 422
  else
    match insertChannel lower taken name with
    | .ok () => .ok 201
    | .error .unique => .ok 409
    | .error .check => .error .check

theorem createChannelRoute_error {lower : Text → Text} {taken : List Text} {name : Text} :
    (∃ e, createChannelRoute lower taken name = .error e) ↔
      isValidChannelName name ∧ ¬ channelsAccept name := by
  simp only [createChannelRoute, insertChannel]
  by_cases hvalid : isValidChannelName name
  · by_cases haccept : channelsAccept name
    · by_cases htaken : taken.any fun other => lower other = lower name
      · simp [hvalid, haccept, htaken]
      · simp [hvalid, haccept, htaken]
    · simp [hvalid, haccept]
  · simp [hvalid]

/-- **The two patterns accept the same names, and no creation fails with a constraint error that is
not turned into an answer, exactly where the name is not a valid name followed by a newline.** -/
theorem channel_name_agreement (lower : Text → Text) (name : Text) :
    ((isValidChannelName name ↔ channelsAccept name) ∧
        ∀ taken e, createChannelRoute lower taken name ≠ .error e) ↔
      ∀ w, (∀ c ∈ w, channelNameChar c) → 1 ≤ w.length → w.length ≤ 80 → name ≠ w ++ ['\n'] := by
  have hdiffer : (isValidChannelName name ↔ channelsAccept name) ↔
      ∀ w, fullMatch channelNameChar 1 80 w → name ≠ w ++ ['\n'] := dollar_iff_full (by decide)
  have hmatch : ∀ w, fullMatch channelNameChar 1 80 w ↔
      (∀ c ∈ w, channelNameChar c) ∧ 1 ≤ w.length ∧ w.length ≤ 80 := by
    intro w
    simp [fullMatch, and_assoc]
  constructor
  · rintro ⟨hagree, -⟩ w hw hlo hhi
    exact hdiffer.mp hagree w ((hmatch w).mpr ⟨hw, hlo, hhi⟩)
  · intro h
    have hagree : isValidChannelName name ↔ channelsAccept name := by
      refine hdiffer.mpr fun w hw => ?_
      obtain ⟨hall, hlo, hhi⟩ := (hmatch w).mp hw
      exact h w hall hlo hhi
    refine ⟨hagree, fun taken e he => ?_⟩
    obtain ⟨hvalid, hrefused⟩ := createChannelRoute_error.mp ⟨e, he⟩
    exact hrefused (hagree.mp hvalid)

/-- **A name with a final newline is valid and violates the `CHECK`.** -/
theorem newline_name : isValidChannelName "general\n".toList = true ∧
    channelsAccept "general\n".toList = false ∧
    createChannelRoute id [] "general\n".toList = .error .check := by
  decide

end Chatspace.TextChecks
