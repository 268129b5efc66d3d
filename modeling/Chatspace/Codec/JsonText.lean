import Chatspace.Codec.Json
import Mathlib.Data.List.TakeWhile
import Mathlib.Data.Nat.Digits.Lemmas

/-!
# JSON as text

`json.dumps` in its layouts, and a reader of the whole grammar (`JSON.parse`, `json.loads`).

* `Json.dumps` — a value as text, with a gap after each separator and with the characters outside of
  ASCII escaped or not;
* `parse` — the value of a text; of two fields of one name the later one counts;
* `parse_dumps` — **whatever the layout, a text that was dumped is read as the value that it was
  dumped from;**
* `Json.nat`, `Json.nat?` — natural numbers as values.
-/

namespace Codec

/-- How a text is laid out: what follows each separator, and whether it is confined to ASCII. -/
structure Layout where
  gap : List Char
  ensureAscii : Bool
  blank : ∀ c ∈ gap, c = ' '

/-- `json.dumps(value)`. -/
def Layout.default : Layout := ⟨[' '], true, by simp⟩

/-- `json.dumps(value, separators=(",", ":"), ensure_ascii=False)`. -/
def Layout.compact : Layout := ⟨[], false, by simp⟩

/-! ### Writing -/

/-- A digit of `'{:04x}'`. -/
def hexDigit (d : ℕ) : Char := if d < 10 then Char.ofNat (48 + d) else Char.ofNat (87 + d)

/-- `'{:04x}'` of a code unit. -/
def hex4 (n : ℕ) : List Char :=
  [hexDigit (n / 4096 % 16), hexDigit (n / 256 % 16), hexDigit (n / 16 % 16), hexDigit (n % 16)]

def unicodeEscape (n : ℕ) : List Char := '\\' :: 'u' :: hex4 n

/-- The escape of a character outside of ASCII, as one code unit or as a pair of surrogates. -/
def escapeAscii (c : Char) : List Char :=
  if c.toNat < 0x10000 then unicodeEscape c.toNat
  else unicodeEscape (0xd800 + (c.toNat - 0x10000) / 0x400) ++
    unicodeEscape (0xdc00 + (c.toNat - 0x10000) % 0x400)

/-- `ESCAPE_DCT`, where there is a short escape. -/
def shortEscape : Char → Option Char
  | '"' => some '"'
  | '\\' => some '\\'
  | '\n' => some 'n'
  | '\r' => some 'r'
  | '\t' => some 't'
  | '\x08' => some 'b'
  | '\x0c' => some 'f'
  | _ => none

def escape (ensureAscii : Bool) (c : Char) : List Char :=
  match shortEscape c with
  | some e => ['\\', e]
  | none =>
    if c.toNat < 0x20 then unicodeEscape c.toNat
    else if ensureAscii && 0x7f ≤ c.toNat then escapeAscii c
    else [c]

def dumpString (ensureAscii : Bool) (s : List Char) : List Char :=
  '"' :: (s.flatMap (escape ensureAscii) ++ ['"'])

namespace Json

mutual

def dumps (layout : Layout) : Json → List Char
  | .null => ['n', 'u', 'l', 'l']
  | .bool true => ['t', 'r', 'u', 'e']
  | .bool false => ['f', 'a', 'l', 's', 'e']
  | .number literal => literal
  | .string s => dumpString layout.ensureAscii s
  | .array items => '[' :: (dumpItems layout items ++ [']'])
  | .object fields => '{' :: (dumpFields layout fields ++ ['}'])

def dumpItems (layout : Layout) : List Json → List Char
  | [] => []
  | [item] => item.dumps layout
  | item :: items => item.dumps layout ++ ',' :: (layout.gap ++ dumpItems layout items)

def dumpFields (layout : Layout) : List (List Char × Json) → List Char
  | [] => []
  | [(name, value)] =>
    dumpString layout.ensureAscii name ++ ':' :: (layout.gap ++ value.dumps layout)
  | (name, value) :: fields =>
    dumpString layout.ensureAscii name ++ ':' :: (layout.gap ++ (value.dumps layout ++
      ',' :: (layout.gap ++ dumpFields layout fields)))

end

end Json

/-! ### Reading -/

def isBlank (c : Char) : Bool := c = ' ' || c = '\t' || c = '\n' || c = '\r'

def skipBlank (s : List Char) : List Char := s.dropWhile isBlank

def hexDigit? (c : Char) : Option ℕ :=
  if '0' ≤ c ∧ c ≤ '9' then some (c.toNat - 48)
  else if 'a' ≤ c ∧ c ≤ 'f' then some (c.toNat - 87)
  else if 'A' ≤ c ∧ c ≤ 'F' then some (c.toNat - 55)
  else none

/-- The four digits after `\u`. -/
def readUnit : List Char → Option (ℕ × List Char)
  | a :: b :: c :: d :: s => do
    let a ← hexDigit? a
    let b ← hexDigit? b
    let c ← hexDigit? c
    let d ← hexDigit? d
    return (a * 4096 + b * 256 + c * 16 + d, s)
  | _ => none

/-- The second of a pair of surrogates. -/
def readPartner (n : ℕ) : List Char → Option (Char × List Char)
  | '\\' :: 'u' :: s => do
    let (m, s) ← readUnit s
    if 0xdc00 ≤ m ∧ m < 0xe000 then
      return (Char.ofNat (0x10000 + (n - 0xd800) * 0x400 + (m - 0xdc00)), s)
    else none
  | _ => none

/-- What follows a code unit that was escaped; a surrogate without its partner is no text. -/
def readSurrogate (n : ℕ) (s : List Char) : Option (Char × List Char) :=
  if n < 0xd800 ∨ 0xe000 ≤ n then some (Char.ofNat n, s)
  else if 0xdc00 ≤ n then none
  else readPartner n s

def shortUnescape : Char → Option Char
  | '"' => some '"'
  | '\\' => some '\\'
  | '/' => some '/'
  | 'n' => some '\n'
  | 'r' => some '\r'
  | 't' => some '\t'
  | 'b' => some '\x08'
  | 'f' => some '\x0c'
  | _ => none

/-- What follows a backslash. -/
def readEscape : List Char → Option (Char × List Char)
  | [] => none
  | e :: s =>
    if e = 'u' then (readUnit s).bind fun r => readSurrogate r.1 r.2
    else (shortUnescape e).map fun c => (c, s)

/-- One character of a string. -/
def readChar : List Char → Option (Char × List Char)
  | [] => none
  | c :: s =>
    if c = '\\' then readEscape s
    else if c.toNat < 0x20 then none
    else some (c, s)

/-- The rest of a string, up to the quote that ends it. -/
def readChars : ℕ → List Char → Option (List Char × List Char)
  | 0, _ => none
  | fuel + 1, s =>
    if s.head? = some '"' then some ([], s.tail)
    else (readChar s).bind fun r => (readChars fuel r.2).map fun r' => (r.1 :: r'.1, r'.2)

def readString (s : List Char) : Option (List Char × List Char) :=
  if s.head? = some '"' then readChars s.length s.tail else none

/-- One digit or more. -/
def readDigits (s : List Char) : Option (List Char × List Char) :=
  if s.takeWhile Char.isDigit = [] then none
  else some (s.takeWhile Char.isDigit, s.dropWhile Char.isDigit)

/-- What may stand here, and may not. -/
def optional (p : List Char → Option (List Char × List Char)) (s : List Char) :
    List Char × List Char := (p s).getD ([], s)

def readSign : List Char → Option (List Char × List Char)
  | [] => none
  | c :: s => if c = '-' then some ([c], s) else none

/-- A zero, or digits that begin with another one. -/
def readInteger : List Char → Option (List Char × List Char)
  | [] => none
  | c :: s => if c = '0' then some ([c], s) else readDigits (c :: s)

def readFraction : List Char → Option (List Char × List Char)
  | [] => none
  | c :: s => if c = '.' then (readDigits s).map fun r => (c :: r.1, r.2) else none

def readExponentSign : List Char → Option (List Char × List Char)
  | [] => none
  | c :: s => if c = '-' ∨ c = '+' then some ([c], s) else none

def readExponent : List Char → Option (List Char × List Char)
  | [] => none
  | c :: s =>
    if c = 'e' ∨ c = 'E' then
      (readDigits (optional readExponentSign s).2).map fun r =>
        (c :: ((optional readExponentSign s).1 ++ r.1), r.2)
    else none

/-- A number, as it is written. -/
def readNumber (s : List Char) : Option (List Char × List Char) :=
  let sign := optional readSign s
  (readInteger sign.2).map fun int =>
    let fraction := optional readFraction int.2
    let exponent := optional readExponent fraction.2
    (sign.1 ++ int.1 ++ fraction.1 ++ exponent.1, exponent.2)

/-- One of the three names. -/
def readName (name : List Char) (value : Json) (s : List Char) : Option (Json × List Char) :=
  if name.isPrefixOf s then some (value, s.drop name.length) else none

/-- The three names, and numbers. -/
def readScalar (s : List Char) : Option (Json × List Char) :=
  (readName ['n', 'u', 'l', 'l'] .null s).or <|
    (readName ['t', 'r', 'u', 'e'] (.bool true) s).or <|
      (readName ['f', 'a', 'l', 's', 'e'] (.bool false) s).or <|
        (readNumber s).map fun r => (.number r.1, r.2)

/-- The field is set: a name that was there keeps its place. -/
def setField (fields : List (List Char × Json)) (name : List Char) (value : Json) :
    List (List Char × Json) :=
  if fields.any fun f => f.1 = name then
    fields.map fun f => if f.1 = name then (name, value) else f
  else fields ++ [(name, value)]

def ofFields (fields : List (List Char × Json)) : List (List Char × Json) :=
  fields.foldl (fun set f => setField set f.1 f.2) []

mutual

/-- A value, after blanks. -/
def readValue : ℕ → List Char → Option (Json × List Char)
  | 0, _ => none
  | fuel + 1, s =>
    let s := skipBlank s
    if s.head? = some '"' then (readString s).map fun r => (.string r.1, r.2)
    else if s.head? = some '[' then
      if (skipBlank s.tail).head? = some ']' then some (.array [], (skipBlank s.tail).tail)
      else (readItems fuel s.tail).map fun r => (.array r.1, r.2)
    else if s.head? = some '{' then
      if (skipBlank s.tail).head? = some '}' then some (.object [], (skipBlank s.tail).tail)
      else (readFields fuel s.tail).map fun r => (.object (ofFields r.1), r.2)
    else readScalar s

/-- The items of an array that has one, and its bracket. -/
def readItems : ℕ → List Char → Option (List Json × List Char)
  | 0, _ => none
  | fuel + 1, s =>
    (readValue fuel s).bind fun r =>
      let s := skipBlank r.2
      if s.head? = some ',' then (readItems fuel s.tail).map fun r' => (r.1 :: r'.1, r'.2)
      else if s.head? = some ']' then some ([r.1], s.tail)
      else none

/-- The fields of an object that has one, and its brace. -/
def readFields : ℕ → List Char → Option (List (List Char × Json) × List Char)
  | 0, _ => none
  | fuel + 1, s =>
    (readString (skipBlank s)).bind fun name =>
      let s := skipBlank name.2
      if s.head? = some ':' then
        (readValue fuel s.tail).bind fun r =>
          let s := skipBlank r.2
          if s.head? = some ',' then
            (readFields fuel s.tail).map fun r' => ((name.1, r.1) :: r'.1, r'.2)
          else if s.head? = some '}' then some ([(name.1, r.1)], s.tail)
          else none
      else none

end

/-- `JSON.parse`, and `json.loads`, which reads `NaN` and `Infinity` besides. -/
def parse (s : List Char) : Option Json :=
  (readValue (s.length + 1) s).bind fun r => if skipBlank r.2 = [] then some r.1 else none

/-! ### Strings -/

theorem hexDigit?_hexDigit : ∀ d < 16, hexDigit? (hexDigit d) = some d := by decide

theorem readUnit_hex4 {n : ℕ} (hn : n < 65536) (s : List Char) :
    readUnit (hex4 n ++ s) = some (n, s) := by
  have hdigit : ∀ m, hexDigit? (hexDigit (m % 16)) = some (m % 16) :=
    fun m => hexDigit?_hexDigit _ (Nat.mod_lt m (by decide))
  have hsum : n / 4096 % 16 * 4096 + n / 256 % 16 * 256 + n / 16 % 16 * 16 + n % 16 = n := by omega
  simp [hex4, readUnit, hdigit, hsum]

theorem readChar_unicodeEscape {n : ℕ} (hn : n < 65536) (s : List Char) :
    readChar (unicodeEscape n ++ s) = readSurrogate n s := by
  show (readUnit (hex4 n ++ s)).bind _ = _
  rw [readUnit_hex4 hn]
  rfl

/-- A character is no surrogate. -/
theorem toNat_cases (c : Char) : c.toNat < 0xd800 ∨ 0xe000 ≤ c.toNat ∧ c.toNat < 0x110000 := by
  have hvalid : c.toNat.isValidChar := c.valid
  unfold Nat.isValidChar at hvalid
  omega

theorem readSurrogate_toNat (c : Char) (s : List Char) : readSurrogate c.toNat s = some (c, s) := by
  have hplain : c.toNat < 0xd800 ∨ 0xe000 ≤ c.toNat := (toNat_cases c).imp_right And.left
  rw [readSurrogate, if_pos hplain, Char.ofNat_toNat]

theorem readChar_escapeAscii (c : Char) (s : List Char) :
    readChar (escapeAscii c ++ s) = some (c, s) := by
  have hc := toNat_cases c
  unfold escapeAscii
  split
  · rename_i hunit
    rw [readChar_unicodeEscape hunit, readSurrogate_toNat]
  · rename_i hpair
    rw [List.append_assoc, readChar_unicodeEscape (by omega), readSurrogate, if_neg (by omega),
      if_neg (by omega)]
    have hpartner : 0xdc00 ≤ 0xdc00 + (c.toNat - 0x10000) % 0x400 ∧
        0xdc00 + (c.toNat - 0x10000) % 0x400 < 0xe000 := by omega
    show (readUnit (hex4 _ ++ s)).bind _ = _
    rw [readUnit_hex4 (by omega), Option.bind_some]
    dsimp only
    rw [if_pos hpartner]
    have hsum : 0x10000 + (0xd800 + (c.toNat - 0x10000) / 0x400 - 0xd800) * 0x400 +
        (0xdc00 + (c.toNat - 0x10000) % 0x400 - 0xdc00) = c.toNat := by omega
    rw [hsum, Char.ofNat_toNat]
    rfl

theorem readChar_escape (ensureAscii : Bool) (c : Char) (s : List Char) :
    readChar (escape ensureAscii c ++ s) = some (c, s) := by
  unfold escape
  cases hshort : shortEscape c with
  | some e =>
    unfold shortEscape at hshort
    split at hshort <;> cases hshort <;> rfl
  | none =>
    dsimp only
    split
    · rename_i hcontrol
      rw [readChar_unicodeEscape (by omega), readSurrogate_toNat]
    split
    · exact readChar_escapeAscii c s
    · rename_i hcontrol _
      have hslash : c ≠ '\\' := by
        rintro rfl
        cases hshort
      rw [List.singleton_append, readChar, if_neg hslash, if_neg hcontrol]

/-- No character is written as the quote that would end the string. -/
theorem escape_head (ensureAscii : Bool) (c : Char) :
    ∃ d t, escape ensureAscii c = d :: t ∧ d ≠ '"' := by
  unfold escape
  cases hshort : shortEscape c with
  | some e => exact ⟨_, _, rfl, by decide⟩
  | none =>
    dsimp only
    split
    · exact ⟨_, _, rfl, by decide⟩
    split
    · unfold escapeAscii
      split
      · exact ⟨_, _, rfl, by decide⟩
      · exact ⟨_, _, rfl, by decide⟩
    · refine ⟨_, _, rfl, ?_⟩
      rintro rfl
      cases hshort

theorem readChars_escape (ensureAscii : Bool) (s rest : List Char) {fuel : ℕ}
    (h : s.length < fuel) :
    readChars fuel (s.flatMap (escape ensureAscii) ++ '"' :: rest) = some (s, rest) := by
  induction s generalizing fuel with
  | nil =>
    cases fuel with
    | zero => cases h
    | succ fuel => rfl
  | cons c s ih =>
    cases fuel with
    | zero => cases h
    | succ fuel =>
      obtain ⟨d, t, hd, hquote⟩ := escape_head ensureAscii c
      have hhead : (escape ensureAscii c ++ (s.flatMap (escape ensureAscii) ++ '"' :: rest)).head? ≠
          some '"' := by
        rw [hd, List.cons_append, List.head?_cons]
        simpa using hquote
      rw [List.flatMap_cons, List.append_assoc, readChars, if_neg hhead, readChar_escape,
        Option.bind_some, ih (Nat.lt_of_succ_lt_succ h)]
      rfl

theorem length_le_flatMap_escape (ensureAscii : Bool) (s : List Char) :
    s.length ≤ (s.flatMap (escape ensureAscii)).length := by
  induction s with
  | nil => exact le_rfl
  | cons c s ih =>
    obtain ⟨d, t, hd, -⟩ := escape_head ensureAscii c
    rw [List.flatMap_cons, hd, List.length_append, List.length_cons, List.length_cons]
    omega

theorem readString_dump (ensureAscii : Bool) (s rest : List Char) :
    readString (dumpString ensureAscii s ++ rest) = some (s, rest) := by
  have htext : dumpString ensureAscii s ++ rest =
      '"' :: (s.flatMap (escape ensureAscii) ++ '"' :: rest) := by simp [dumpString]
  have hlength := length_le_flatMap_escape ensureAscii s
  rw [htext]
  refine readChars_escape ensureAscii s rest ?_
  simp only [List.length_cons, List.length_append]
  omega

/-! ### Numbers -/

/-- What follows a value: nothing, a separator or an end. -/
def Delimits (rest : List Char) : Prop := ∀ c ∈ rest.head?, c ∈ [',', ']', '}']

/-- What is read does not depend on what follows. -/
def Extends (p : List Char → Option (List Char × List Char)) : Prop :=
  ∀ s rest, Delimits rest → p (s ++ rest) = (p s).map fun r => (r.1, r.2 ++ rest)

theorem Delimits.head_ne {c : Char} {rest : List Char} (h : Delimits (c :: rest)) {d : Char}
    (hd : d ∉ [',', ']', '}']) : c ≠ d := by
  rintro rfl
  exact hd (h c rfl)

theorem Delimits.not_isDigit {c : Char} {rest : List Char} (h : Delimits (c :: rest)) :
    c.isDigit = false := by
  have hmem := h c rfl
  simp only [List.mem_cons, List.not_mem_nil, or_false] at hmem
  rcases hmem with rfl | rfl | rfl <;> rfl

/-- A part that begins with one of some characters, and a text that does not go on with them. -/
theorem extends_of_cons {p : List Char → Option (List Char × List Char)}
    (hnil : p [] = none) (hrest : ∀ c rest, Delimits (c :: rest) → p (c :: rest) = none)
    (hcons : ∀ c s rest, Delimits rest →
      p (c :: (s ++ rest)) = (p (c :: s)).map fun r => (r.1, r.2 ++ rest)) : Extends p := by
  intro s rest h
  cases s with
  | nil =>
    rw [List.nil_append, hnil, Option.map_none]
    cases rest with
    | nil => exact hnil
    | cons c rest => exact hrest c rest h
  | cons c s => exact hcons c s rest h

theorem takeWhile_isDigit_append {rest : List Char} (h : Delimits rest) (s : List Char) :
    (s ++ rest).takeWhile Char.isDigit = s.takeWhile Char.isDigit ∧
      (s ++ rest).dropWhile Char.isDigit = s.dropWhile Char.isDigit ++ rest := by
  induction s with
  | nil =>
    cases rest with
    | nil => exact ⟨rfl, rfl⟩
    | cons c rest => simp [h.not_isDigit]
  | cons c s ih =>
    cases hc : c.isDigit with
    | true => simp [hc, ih.1, ih.2]
    | false => simp [hc]

theorem extends_readDigits : Extends readDigits := by
  intro s rest h
  obtain ⟨htake, hdrop⟩ := takeWhile_isDigit_append h s
  rw [readDigits, readDigits, htake, hdrop]
  split <;> rfl

theorem Extends.optional {p : List Char → Option (List Char × List Char)} (hp : Extends p)
    (s : List Char) {rest : List Char} (h : Delimits rest) :
    optional p (s ++ rest) = ((optional p s).1, (optional p s).2 ++ rest) := by
  rw [Codec.optional, Codec.optional, hp s rest h]
  cases p s <;> rfl

theorem extends_readSign : Extends readSign := by
  refine extends_of_cons rfl (fun c rest h => if_neg (h.head_ne (by decide))) fun c s rest h => ?_
  simp only [readSign]
  split <;> rfl

theorem extends_readInteger : Extends readInteger := by
  refine extends_of_cons rfl (fun c rest h => ?_) fun c s rest h => ?_
  · rw [readInteger, if_neg (h.head_ne (by decide)), readDigits, List.takeWhile_cons,
      h.not_isDigit]
    rfl
  · simp only [readInteger]
    split
    · rfl
    · exact extends_readDigits (c :: s) rest h

theorem extends_readFraction : Extends readFraction := by
  refine extends_of_cons rfl (fun c rest h => if_neg (h.head_ne (by decide))) fun c s rest h => ?_
  simp only [readFraction, extends_readDigits s rest h]
  split
  · cases readDigits s <;> rfl
  · rfl

theorem extends_readExponentSign : Extends readExponentSign := by
  refine extends_of_cons rfl (fun c rest h => if_neg ?_) fun c s rest h => ?_
  · exact not_or.mpr ⟨h.head_ne (by decide), h.head_ne (by decide)⟩
  · simp only [readExponentSign]
    split <;> rfl

theorem extends_readExponent : Extends readExponent := by
  refine extends_of_cons rfl (fun c rest h => if_neg ?_) fun c s rest h => ?_
  · exact not_or.mpr ⟨h.head_ne (by decide), h.head_ne (by decide)⟩
  · simp only [readExponent, extends_readExponentSign.optional s h, extends_readDigits _ rest h]
    split
    · cases readDigits (Codec.optional readExponentSign s).2 <;> rfl
    · rfl

theorem extends_readNumber : Extends readNumber := by
  intro s rest h
  simp only [readNumber, extends_readSign.optional s h,
    extends_readInteger (Codec.optional readSign s).2 rest h]
  cases readInteger (Codec.optional readSign s).2 with
  | none => rfl
  | some int =>
    simp only [Option.map_some, extends_readFraction.optional _ h,
      extends_readExponent.optional _ h]

/-- A number begins with its sign or with a digit. -/
theorem readNumber_head {c : Char} {s : List Char} (h : readNumber (c :: s) ≠ none) :
    c = '-' ∨ c.isDigit = true := by
  by_contra hc
  push Not at hc
  have hsign : Codec.optional readSign (c :: s) = ([], c :: s) := by
    simp [Codec.optional, readSign, hc.1]
  have hzero : c ≠ '0' := by
    rintro rfl
    exact hc.2 rfl
  have hinteger : readInteger (c :: s) = none := by
    simp [readInteger, readDigits, hzero, hc.2]
  refine h ?_
  simp only [readNumber, hsign, hinteger, Option.map_none]

/-! ### Values -/

namespace Json

mutual

/-- What can be written: numbers as the grammar has them, and no name twice. -/
def Valid : Json → Prop
  | .null | .bool _ | .string _ => True
  | .number literal => readNumber literal = some (literal, [])
  | .array items => ValidItems items
  | .object fields => (fields.map Prod.fst).Nodup ∧ ValidFields fields

def ValidItems : List Json → Prop
  | [] => True
  | item :: items => item.Valid ∧ ValidItems items

def ValidFields : List (List Char × Json) → Prop
  | [] => True
  | (_, value) :: fields => value.Valid ∧ ValidFields fields

end

/-- A natural number, in decimal digits. -/
def nat (n : ℕ) : Json :=
  .number (if n = 0 then ['0'] else ((Nat.digits 10 n).map hexDigit).reverse)

/-- The number that decimal digits make. -/
def nat? : Json → Option ℕ
  | .number literal =>
    if literal ≠ [] ∧ literal.all Char.isDigit then
      some (Nat.ofDigits 10 (literal.reverse.map fun c => c.toNat - 48))
    else none
  | _ => none

end Json

variable {layout : Layout} {fuel : ℕ} {s rest : List Char}

theorem skipBlank_of_not {c : Char} (h : isBlank c = false) : skipBlank (c :: s) = c :: s := by
  rw [skipBlank, List.dropWhile_cons, h]
  rfl

theorem skipBlank_gap (layout : Layout) (s : List Char) :
    skipBlank (layout.gap ++ s) = skipBlank s := by
  have hgap : ∀ gap : List Char, (∀ c ∈ gap, c = ' ') → skipBlank (gap ++ s) = skipBlank s := by
    intro gap hblank
    induction gap with
    | nil => rfl
    | cons c gap ih =>
      obtain rfl := hblank c List.mem_cons_self
      exact ih fun c hc => hblank c (List.mem_cons_of_mem _ hc)
  exact hgap layout.gap layout.blank

theorem readValue_gap : readValue fuel (layout.gap ++ s) = readValue fuel s := by
  cases fuel with
  | zero => rfl
  | succ fuel => simp only [readValue, skipBlank_gap]

theorem readItems_gap : readItems fuel (layout.gap ++ s) = readItems fuel s := by
  cases fuel with
  | zero => rfl
  | succ fuel => simp only [readItems, readValue_gap]

theorem readFields_gap : readFields fuel (layout.gap ++ s) = readFields fuel s := by
  cases fuel with
  | zero => rfl
  | succ fuel => simp only [readFields, skipBlank_gap]

/-- How the text of a value begins. -/
def Begins (c : Char) : Prop := isBlank c = false ∧ c ≠ ']'

theorem begins_number {c : Char} (h : c = '-' ∨ c.isDigit = true) :
    Begins c ∧ c ∉ ['"', '[', '{', 'n', 't', 'f'] := by
  have hne : ∀ d : Char, d ≠ '-' → d.isDigit = false → c ≠ d := by
    rintro d hminus hdigit rfl
    rcases h with rfl | h
    · exact hminus rfl
    · rw [hdigit] at h
      cases h
  have hblank : isBlank c = false := by
    simp [isBlank, hne ' ' (by decide) rfl, hne '\t' (by decide) rfl, hne '\n' (by decide) rfl,
      hne '\r' (by decide) rfl]
  refine ⟨⟨hblank, hne _ (by decide) rfl⟩, ?_⟩
  simp [hne '"' (by decide) rfl, hne '[' (by decide) rfl, hne '{' (by decide) rfl,
    hne 'n' (by decide) rfl, hne 't' (by decide) rfl, hne 'f' (by decide) rfl]

theorem dumps_head (layout : Layout) {v : Json} (hv : v.Valid) :
    ∃ c t, v.dumps layout = c :: t ∧ Begins c := by
  cases v with
  | null => exact ⟨_, _, rfl, rfl, by decide⟩
  | bool b => cases b <;> exact ⟨_, _, rfl, rfl, by decide⟩
  | number literal =>
    cases literal with
    | nil => cases hv
    | cons c s =>
      have hsome : readNumber (c :: s) ≠ none := by
        rw [show readNumber (c :: s) = some (c :: s, []) from hv]
        exact nofun
      exact ⟨c, s, rfl, (begins_number (readNumber_head hsome)).1⟩
  | string s => exact ⟨_, _, rfl, rfl, by decide⟩
  | array items => exact ⟨_, _, rfl, rfl, by decide⟩
  | object fields => exact ⟨_, _, rfl, rfl, by decide⟩

theorem dumpItems_head (layout : Layout) {item : Json} (h : item.Valid) (items : List Json) :
    ∃ c t, Json.dumpItems layout (item :: items) = c :: t ∧ Begins c := by
  obtain ⟨c, t, ht, hc⟩ := dumps_head layout h
  cases items with
  | nil => exact ⟨c, t, ht, hc⟩
  | cons item' items =>
    have htext : Json.dumpItems layout (item :: item' :: items) =
        item.dumps layout ++ ',' :: (layout.gap ++ Json.dumpItems layout (item' :: items)) := rfl
    rw [ht, List.cons_append] at htext
    exact ⟨c, _, htext, hc⟩

theorem dumpFields_head (layout : Layout) (field : List Char × Json)
    (fields : List (List Char × Json)) : ∃ t, Json.dumpFields layout (field :: fields) = '"' :: t := by
  cases fields <;> exact ⟨_, rfl⟩

/-- Fields that are not there yet are put behind the others. -/
theorem foldl_setField (fields set : List (List Char × Json))
    (h : ((set ++ fields).map Prod.fst).Nodup) :
    fields.foldl (fun set f => setField set f.1 f.2) set = set ++ fields := by
  induction fields generalizing set with
  | nil => exact (List.append_nil set).symm
  | cons f fields ih =>
    have hnew : (set.any fun g => g.1 = f.1) = false := by
      rw [List.map_append, List.nodup_append] at h
      rw [List.any_eq_false]
      intro g hg heq
      refine h.2.2 g.1 (List.mem_map_of_mem hg) f.1 (List.mem_map_of_mem List.mem_cons_self) ?_
      simpa using heq
    have hset : setField set f.1 f.2 = set ++ [f] := by
      rw [setField, hnew]
      rfl
    rw [List.foldl_cons, hset, ih _ (by rwa [List.append_assoc]), List.append_assoc]
    rfl

theorem ofFields_eq {fields : List (List Char × Json)} (h : (fields.map Prod.fst).Nodup) :
    ofFields fields = fields := foldl_setField fields [] h

theorem readName_of_ne {name : List Char} {value : Json} {c d : Char} (h : d ≠ c) :
    readName (d :: name) value (c :: s) = none := by
  have hd : (d == c) = false := by simpa using h
  simp [readName, List.isPrefixOf, hd]

theorem readValue_number {c : Char} (h : readNumber (c :: s) = some (c :: s, []))
    (hrest : Delimits rest) :
    readValue (fuel + 1) (c :: s ++ rest) = some (.number (c :: s), rest) := by
  obtain ⟨hbegins, hother⟩ := begins_number (readNumber_head (by rw [h]; exact nofun))
  simp only [List.mem_cons, List.not_mem_nil, or_false, not_or] at hother
  obtain ⟨hquote, hbracket, hbrace, hn, ht, hf⟩ := hother
  have hnumber : readNumber (c :: (s ++ rest)) = some (c :: s, rest) := by
    have hextends := extends_readNumber (c :: s) rest hrest
    rw [h] at hextends
    exact hextends
  simp only [readValue, List.cons_append, skipBlank_of_not hbegins.1, List.head?_cons,
    Option.some.injEq, hquote, hbracket, hbrace, if_false, readScalar,
    readName_of_ne (Ne.symm hn), readName_of_ne (Ne.symm ht), readName_of_ne (Ne.symm hf), hnumber,
    Option.none_or, Option.map_some]

mutual

/-- **A value is read back,** whatever follows it. -/
theorem readValue_dumps : ∀ v : Json, v.Valid → ∀ (fuel : ℕ) (rest : List Char), Delimits rest →
    (v.dumps layout).length ≤ fuel → readValue fuel (v.dumps layout ++ rest) = some (v, rest)
  | v, hv, 0, _, _, hfuel => by
    obtain ⟨c, t, ht, -⟩ := dumps_head layout hv
    rw [ht] at hfuel
    cases hfuel
  | .null, _, fuel + 1, rest, _, _ => rfl
  | .bool true, _, fuel + 1, rest, _, _ => rfl
  | .bool false, _, fuel + 1, rest, _, _ => rfl
  | .number [], h, fuel + 1, rest, _, _ => by cases h
  | .number (c :: s), h, fuel + 1, rest, hrest, _ => readValue_number h hrest
  | .string s, _, fuel + 1, rest, _, _ => by
    show (readString (dumpString layout.ensureAscii s ++ rest)).map _ = _
    rw [readString_dump]
    rfl
  | .array [], _, fuel + 1, rest, _, _ => rfl
  | .array (item :: items), h, fuel + 1, rest, _, hfuel => by
    have htext : (Json.array (item :: items)).dumps layout ++ rest =
        '[' :: (Json.dumpItems layout (item :: items) ++ ']' :: rest) := by simp [Json.dumps]
    have hitems := readItems_dumps (item :: items) h (List.cons_ne_nil _ _) fuel rest (by
      simp only [Json.dumps, List.length_cons, List.length_append] at hfuel
      omega)
    obtain ⟨c, t, ht, hblank, hc⟩ := dumpItems_head layout h.1 items
    have hend : (skipBlank (Json.dumpItems layout (item :: items) ++ ']' :: rest)).head? ≠
        some ']' := by
      rw [ht, List.cons_append, skipBlank_of_not hblank]
      simpa using hc
    rw [htext]
    show (if _ then _ else (readItems fuel (_ ++ ']' :: rest)).map _) = _
    refine (if_neg hend).trans ?_
    rw [hitems]
    rfl
  | .object [], _, fuel + 1, rest, _, _ => rfl
  | .object (field :: fields), h, fuel + 1, rest, _, hfuel => by
    have htext : (Json.object (field :: fields)).dumps layout ++ rest =
        '{' :: (Json.dumpFields layout (field :: fields) ++ '}' :: rest) := by simp [Json.dumps]
    have hfields := readFields_dumps (field :: fields) h.2 (List.cons_ne_nil _ _) fuel rest (by
      simp only [Json.dumps, List.length_cons, List.length_append] at hfuel
      omega)
    obtain ⟨t, ht⟩ := dumpFields_head layout field fields
    have hend : (skipBlank (Json.dumpFields layout (field :: fields) ++ '}' :: rest)).head? ≠
        some '}' := by
      rw [ht]
      exact nofun
    rw [htext]
    show (if _ then _ else (readFields fuel (_ ++ '}' :: rest)).map _) = _
    refine (if_neg hend).trans ?_
    rw [hfields, Option.map_some, ofFields_eq h.1]

theorem readItems_dumps : ∀ items : List Json, Json.ValidItems items → items ≠ [] →
    ∀ (fuel : ℕ) (rest : List Char), (Json.dumpItems layout items).length < fuel →
      readItems fuel (Json.dumpItems layout items ++ ']' :: rest) = some (items, rest)
  | [], _, h, _, _, _ => absurd rfl h
  | _, _, _, 0, _, hfuel => absurd hfuel (Nat.not_lt_zero _)
  | [item], h, _, fuel + 1, rest, hfuel => by
    have hvalue := readValue_dumps item h.1 fuel (']' :: rest) (by simp [Delimits])
      (Nat.le_of_lt_succ hfuel)
    show (readValue fuel (item.dumps layout ++ ']' :: rest)).bind _ = _
    rw [hvalue]
    rfl
  | item :: item' :: items, h, _, fuel + 1, rest, hfuel => by
    have htext : Json.dumpItems layout (item :: item' :: items) ++ ']' :: rest =
        item.dumps layout ++ ',' :: (layout.gap ++
          (Json.dumpItems layout (item' :: items) ++ ']' :: rest)) := by simp [Json.dumpItems]
    simp only [Json.dumpItems, List.length_append, List.length_cons] at hfuel
    have hvalue := readValue_dumps item h.1 fuel (',' :: (layout.gap ++
      (Json.dumpItems layout (item' :: items) ++ ']' :: rest))) (by simp [Delimits]) (by omega)
    have hitems := readItems_dumps (item' :: items) h.2 (List.cons_ne_nil _ _) fuel rest (by omega)
    rw [htext]
    show (readValue fuel (_ ++ ',' :: _)).bind _ = _
    rw [hvalue]
    show (readItems fuel (layout.gap ++ _)).map _ = _
    rw [readItems_gap, hitems]
    rfl

theorem readFields_dumps : ∀ fields : List (List Char × Json), Json.ValidFields fields →
    fields ≠ [] → ∀ (fuel : ℕ) (rest : List Char), (Json.dumpFields layout fields).length < fuel →
      readFields fuel (Json.dumpFields layout fields ++ '}' :: rest) = some (fields, rest)
  | [], _, h, _, _, _ => absurd rfl h
  | _, _, _, 0, _, hfuel => absurd hfuel (Nat.not_lt_zero _)
  | [(name, value)], h, _, fuel + 1, rest, hfuel => by
    have htext : Json.dumpFields layout [(name, value)] ++ '}' :: rest =
        dumpString layout.ensureAscii name ++ ':' :: (layout.gap ++
          (value.dumps layout ++ '}' :: rest)) := by simp [Json.dumpFields]
    simp only [Json.dumpFields, List.length_append, List.length_cons] at hfuel
    have hvalue := readValue_dumps value h.1 fuel ('}' :: rest) (by simp [Delimits]) (by omega)
    rw [htext]
    show (readString (dumpString layout.ensureAscii name ++ _)).bind _ = _
    rw [readString_dump]
    show (readValue fuel (layout.gap ++ _)).bind _ = _
    rw [readValue_gap, hvalue]
    rfl
  | (name, value) :: field :: fields, h, _, fuel + 1, rest, hfuel => by
    have htext : Json.dumpFields layout ((name, value) :: field :: fields) ++ '}' :: rest =
        dumpString layout.ensureAscii name ++ ':' :: (layout.gap ++
          (value.dumps layout ++ ',' :: (layout.gap ++
            (Json.dumpFields layout (field :: fields) ++ '}' :: rest)))) := by
      simp [Json.dumpFields]
    simp only [Json.dumpFields, List.length_append, List.length_cons] at hfuel
    have hvalue := readValue_dumps value h.1 fuel (',' :: (layout.gap ++
      (Json.dumpFields layout (field :: fields) ++ '}' :: rest))) (by simp [Delimits]) (by omega)
    have hfields := readFields_dumps (field :: fields) h.2 (List.cons_ne_nil _ _) fuel rest
      (by omega)
    rw [htext]
    show (readString (dumpString layout.ensureAscii name ++ _)).bind _ = _
    rw [readString_dump]
    show (readValue fuel (layout.gap ++ _)).bind _ = _
    rw [readValue_gap, hvalue]
    show (readFields fuel (layout.gap ++ _)).map _ = _
    rw [readFields_gap, hfields]
    rfl

end

/-- **What was dumped is read as what it was dumped from.** -/
theorem parse_dumps {v : Json} (hv : v.Valid) : parse (v.dumps layout) = some v := by
  have hread : readValue ((v.dumps layout).length + 1) (v.dumps layout ++ []) = some (v, []) :=
    readValue_dumps v hv _ [] nofun (Nat.le_succ _)
  rw [List.append_nil] at hread
  rw [parse, hread]
  rfl

/-! ### Natural numbers -/

theorem isDigit_hexDigit : ∀ d < 10, (hexDigit d).isDigit = true ∧ (hexDigit d).toNat - 48 = d := by
  decide

theorem hexDigit_eq_zero : ∀ d < 10, hexDigit d = '0' → d = 0 := by decide

theorem takeWhile_isDigit_eq_self (h : ∀ c ∈ s, c.isDigit = true) :
    s.takeWhile Char.isDigit = s ∧ s.dropWhile Char.isDigit = [] :=
  ⟨List.takeWhile_eq_self_iff.mpr h, List.dropWhile_eq_nil_iff.mpr h⟩

/-- Digits that do not begin with a zero. -/
theorem readNumber_digits {c : Char} (h : ∀ d ∈ c :: s, d.isDigit = true) (hc : c ≠ '0') :
    readNumber (c :: s) = some (c :: s, []) := by
  obtain ⟨htake, hdrop⟩ := takeWhile_isDigit_eq_self h
  have hminus : c ≠ '-' := by
    rintro rfl
    cases h '-' List.mem_cons_self
  have hsign : Codec.optional readSign (c :: s) = ([], c :: s) := by
    simp [Codec.optional, readSign, hminus]
  have hinteger : readInteger (c :: s) = some (c :: s, []) := by
    rw [readInteger, if_neg hc, readDigits, htake, hdrop]
    rfl
  simp only [readNumber, hsign, hinteger, Option.map_some]
  simp [Codec.optional, readFraction, readExponent]

theorem Json.valid_nat (n : ℕ) : (Json.nat n).Valid := by
  unfold Json.nat
  split
  · rfl
  · rename_i hn
    have hdigits : ∀ c ∈ ((Nat.digits 10 n).map hexDigit).reverse, c.isDigit = true := by
      intro c hc
      obtain ⟨d, hd, rfl⟩ := List.mem_map.mp (List.mem_reverse.mp hc)
      exact (isDigit_hexDigit d (Nat.digits_lt_base (by decide) hd)).1
    have hne : Nat.digits 10 n ≠ [] := Nat.digits_ne_nil_iff_ne_zero.mpr hn
    have hlast := Nat.getLast_digit_ne_zero 10 hn
    have htext : ((Nat.digits 10 n).map hexDigit).reverse =
        hexDigit ((Nat.digits 10 n).getLast hne) ::
          ((Nat.digits 10 n).dropLast.map hexDigit).reverse := by
      conv_lhs => rw [← List.dropLast_append_getLast hne]
      simp
    rw [htext] at hdigits ⊢
    refine readNumber_digits hdigits fun hzero => hlast (hexDigit_eq_zero _ ?_ hzero)
    exact Nat.digits_lt_base (by decide) (List.getLast_mem hne)

theorem Json.nat?_nat (n : ℕ) : (Json.nat n).nat? = some n := by
  unfold Json.nat
  split
  · rename_i hn
    rw [hn]
    rfl
  · rename_i hn
    have hne : ((Nat.digits 10 n).map hexDigit).reverse ≠ [] := by
      simpa [Nat.digits_eq_nil_iff_eq_zero] using hn
    have hdigits : (((Nat.digits 10 n).map hexDigit).reverse).all Char.isDigit = true := by
      rw [List.all_eq_true]
      intro c hc
      obtain ⟨d, hd, rfl⟩ := List.mem_map.mp (List.mem_reverse.mp hc)
      exact (isDigit_hexDigit d (Nat.digits_lt_base (by decide) hd)).1
    have hvalues : ((Nat.digits 10 n).map hexDigit).map (fun c => c.toNat - 48) =
        Nat.digits 10 n := by
      rw [List.map_map]
      refine (List.map_congr_left fun d hd => ?_).trans (List.map_id _)
      exact (isDigit_hexDigit d (Nat.digits_lt_base (by decide) hd)).2
    rw [Json.nat?, if_pos ⟨hne, hdigits⟩, List.reverse_reverse, hvalues, Nat.ofDigits_digits]

end Codec
