import Chatspace.Core.RedactText
import Chatspace.Store.InsertionMap

/-!
# `core/redact.py` and `core/logging.py`

What a log line keeps of a record.

* `normalizeKey`, `isSensitiveKey` — the keys whose values are never logged;
* `redactValue`, `redactMapping`, `extraFields` — what is logged;
* `redactMapping_idem` — **a redacted mapping is redacted no further**;
* `isSensitiveKey_iff` — which spellings of a sensitive name are recognised;
* `redaction_covers` — **what is stored under the names stays out of the log exactly when they are
  spelled so.**
-/

namespace Chatspace.Redact

/-- What is logged: strings, dicts and sequences; any other object is kept as it is. -/
inductive Value where
  | str (s : Text)
  | dict (fields : List (Text × Value))
  | list (items : List Value)
  | tuple (items : List Value)
  | other (literal : Text)

/-- `_SENSITIVE_KEYS`. -/
def sensitiveKeys : List Text :=
  ["password", "hashed_password", "token", "access_token", "refresh_token", "refresh_token_hash",
    "invite_token", "invite_token_hash", "reset_token", "reset_token_hash", "token_hash",
    "authorization", "jwt", "jwt_signing_key", "signing_key", "sid", "content", "message_content",
    "message_body", "text", "username", "email", "first_name", "last_name", "avatar_url",
    "last_seen", "recipient_id", "filename", "ip_address", "user_agent"].map String.toList

/-- `[A-Z]`. -/
def isCapital (c : Char) : Bool := 65 ≤ c.toNat && c.toNat ≤ 90

/-- An underscore before every capital. -/
def splitCapitals : Text → Text
  | [] => []
  | c :: s => if isCapital c then '_' :: c :: splitCapitals s else c :: splitCapitals s

variable (lower : Text → Text) (isWord : Char → Bool)

/-- `_normalize_key`: no underscore goes before the first character. -/
def normalizeKey : Text → Text
  | [] => lower []
  | c :: key => lower (c :: splitCapitals key)

def isSensitiveKey (key : Text) : Bool := normalizeKey lower key ∈ sensitiveKeys

mutual

def redactValue (key : Text) : Value → Value
  | .str s => if isSensitiveKey lower key then .str redacted else .str (redactText isWord s)
  | .dict fields => if isSensitiveKey lower key then .str redacted else .dict (redactMapping fields)
  | .list items => if isSensitiveKey lower key then .str redacted else .list (redactItems key items)
  | .tuple items => if isSensitiveKey lower key then .str redacted else .list (redactItems key items)
  | .other literal => if isSensitiveKey lower key then .str redacted else .other literal

def redactItems (key : Text) : List Value → List Value
  | [] => []
  | item :: items => redactValue key item :: redactItems key items

def redactMapping : List (Text × Value) → List (Text × Value)
  | [] => []
  | (key, value) :: fields => (key, redactValue key value) :: redactMapping fields

end

/-! ### Log lines -/

/-- `_RESERVED_LOG_RECORD_ATTRS`. -/
def reservedLogRecordAttrs : List Text :=
  ["name", "msg", "args", "levelname", "levelno", "pathname", "filename", "module", "exc_info",
    "exc_text", "stack_info", "lineno", "funcName", "created", "msecs", "relativeCreated", "thread",
    "threadName", "processName", "process", "taskName"].map String.toList

structure LogRecord where
  levelname : Text
  name : Text
  /-- `getMessage()`. -/
  message : Text
  /-- `__dict__`, whose keys are distinct. -/
  attrs : List (Text × Value)
  /-- The name of the type in `exc_info`, if there is any. -/
  excType : Option (Option Text)

/-- The entries of the payload before the extra fields. -/
def basePayload (timestamp : Text) (correlationId : Value) (record : LogRecord) :
    List (Text × Value) :=
  [("timestamp".toList, .str timestamp), ("level".toList, .str record.levelname),
    ("logger".toList, .str record.name),
    ("message".toList, .str (redactText isWord record.message)),
    ("correlation_id".toList, correlationId)]

def payloadKeys : List Text :=
  ["timestamp", "level", "logger", "message", "correlation_id"].map String.toList

/-- The attribute becomes an extra field. -/
def isExtra (attr : Text × Value) : Bool :=
  attr.1 ∉ reservedLogRecordAttrs && attr.1 ∉ payloadKeys

/-- The loop over `record.__dict__`. -/
def extraFields (attrs : List (Text × Value)) : List (Text × Value) :=
  (attrs.filter isExtra).map fun attr => (attr.1, redactValue lower isWord attr.1 attr.2)

/-- `JsonFormatter.format`, but for `json.dumps`. -/
def format (timestamp : Text) (correlationId : Value) (record : LogRecord) : List (Text × Value) :=
  let payload := basePayload isWord timestamp correlationId record ++
    extraFields lower isWord record.attrs
  match record.excType with
  | none => payload
  | some excType => Store.InsertionMap.set payload "exc_type".toList
      (excType.elim (.other "None".toList) .str)

variable {lower isWord}

theorem extraFields_eq (attrs : List (Text × Value)) :
    extraFields lower isWord attrs = redactMapping lower isWord (attrs.filter isExtra) := by
  unfold extraFields
  induction attrs.filter isExtra with
  | nil => rfl
  | cons attr attrs ih =>
    rw [List.map_cons, ih]
    rfl

/-! ### Redacting twice -/

@[simp] theorem redactValue_sensitive {key : Text} (h : isSensitiveKey lower key = true)
    (v : Value) : redactValue lower isWord key v = .str redacted := by
  cases v <;> rw [redactValue, if_pos h]

theorem not_sensitive {key : Text} (h : isSensitiveKey lower key = false) :
    ¬ isSensitiveKey lower key = true := by
  rw [h]
  decide

mutual

theorem redactValue_idem (key : Text) (v : Value) : redactValue lower isWord key
    (redactValue lower isWord key v) = redactValue lower isWord key v := by
  cases hkey : isSensitiveKey lower key with
  | true => rw [redactValue_sensitive hkey, redactValue_sensitive hkey]
  | false =>
    have hno := not_sensitive hkey
    cases v with
    | str s => simp only [redactValue, if_neg hno, redactText_idem]
    | dict fields => simp only [redactValue, if_neg hno, redactMapping_idem fields]
    | list items => simp only [redactValue, if_neg hno, redactItems_idem key items]
    | tuple items => simp only [redactValue, if_neg hno, redactItems_idem key items]
    | other literal => simp only [redactValue, if_neg hno]

theorem redactItems_idem (key : Text) (items : List Value) : redactItems lower isWord key
    (redactItems lower isWord key items) = redactItems lower isWord key items := by
  cases items with
  | nil => rfl
  | cons item items =>
    simp only [redactItems, redactValue_idem key item, redactItems_idem key items]

/-- **A redacted mapping is redacted no further.** -/
theorem redactMapping_idem (fields : List (Text × Value)) :
    redactMapping lower isWord (redactMapping lower isWord fields) =
      redactMapping lower isWord fields := by
  cases fields with
  | nil => rfl
  | cons field fields =>
    obtain ⟨key, value⟩ := field
    simp only [redactMapping, redactValue_idem key value, redactMapping_idem fields]

end

/-! ### Spellings -/

/-- What is relied on of `str.lower`: characters are lower-cased one by one, but for the sigma, and
ASCII characters as in ASCII. -/
structure PyLower (lower : Text → Text) : Prop where
  charwise : ∀ s, 'Σ' ∉ s → lower s = s.flatMap fun c => lower [c]
  sigma : ∀ s, 'Σ' ∈ s → ∃ c ∈ lower s, 128 ≤ c.toNat
  ascii : ∀ c, c.toNat < 128 → lower [c] = [c.toLower]

/-- What may stand between words. -/
def isSeparator (c : Char) : Bool := c = '_' || c = '-' || c = ' ' || c = '.'

/-- The key is a sensitive name but for case and separators. -/
def Named (lower : Text → Text) (key : Text) : Prop :=
  ∃ name ∈ sensitiveKeys, (key.filter fun c => !isSeparator c).flatMap (fun c => lower [c]) =
    name.filter fun c => !isSeparator c

/-- After its first character, `key` spells `name` in snake case or in camel case: a capital stands
for an underscore and the letter. -/
inductive Spells (lower : Text → Text) : Text → Text → Prop where
  | nil : Spells lower [] []
  | capital {c : Char} {key name : Text} (hc : isCapital c = true) (h : Spells lower key name) :
    Spells lower (c :: key) ('_' :: c.toLower :: name)
  | letter {c : Char} {key name : Text} (hc : isCapital c = false) (h : Spells lower key name) :
    Spells lower (c :: key) (lower [c] ++ name)

/-- The key is a sensitive name in snake case or in camel case, its first letter of either case. -/
def Plain (lower : Text → Text) (key : Text) : Prop :=
  ∃ c rest name, key = c :: rest ∧ Spells lower rest name ∧ lower [c] ++ name ∈ sensitiveKeys

theorem sensitiveKeys_ascii : ∀ name ∈ sensitiveKeys, ∀ c ∈ name, c.toNat < 128 := by
  have hall : (sensitiveKeys.all fun name => name.all fun c => c.toNat < 128) = true := by decide
  intro name hname
  simpa using List.all_eq_true.mp hall name hname

section Keys

variable (hlower : PyLower lower)

include hlower

/-- Where the result is ASCII text, characters are lower-cased one by one. -/
theorem lower_mem_sensitiveKeys (s : Text) : lower s ∈ sensitiveKeys ↔
    (s.flatMap fun c => lower [c]) ∈ sensitiveKeys := by
  by_cases hsigma : 'Σ' ∈ s
  · have hno : lower s ∉ sensitiveKeys := by
      intro h
      obtain ⟨c, hc, hle⟩ := hlower.sigma s hsigma
      have := sensitiveKeys_ascii _ h c hc
      omega
    have hno' : (s.flatMap fun c => lower [c]) ∉ sensitiveKeys := by
      intro h
      obtain ⟨c, hc, hle⟩ := hlower.sigma ['Σ'] (by simp)
      have := sensitiveKeys_ascii _ h c (List.mem_flatMap.mpr ⟨'Σ', hsigma, hc⟩)
      omega
    exact iff_of_false hno hno'
  · rw [hlower.charwise s hsigma]

theorem spells_iff {key name : Text} : Spells lower key name ↔
    (splitCapitals key).flatMap (fun c => lower [c]) = name := by
  have hunderscore : lower ['_'] = ['_'] := hlower.ascii '_' (by decide)
  have hcapital : ∀ c, isCapital c = true → lower [c] = [c.toLower] := by
    intro c hc
    simp only [isCapital, Bool.and_eq_true, decide_eq_true_eq] at hc
    exact hlower.ascii c (by omega)
  constructor
  · intro h
    induction h with
    | nil => rfl
    | @capital c key name hc h ih =>
      rw [splitCapitals, if_pos hc, List.flatMap_cons, List.flatMap_cons, ih, hunderscore,
        hcapital c hc]
      rfl
    | @letter c key name hc h ih =>
      rw [splitCapitals, if_neg (by rw [hc]; decide), List.flatMap_cons, ih]
  · intro h
    subst h
    induction key with
    | nil => exact .nil
    | cons c key ih =>
      cases hc : isCapital c with
      | true =>
        have hspells := Spells.capital hc ih
        rw [splitCapitals, if_pos hc, List.flatMap_cons, List.flatMap_cons, hunderscore,
          hcapital c hc]
        exact hspells
      | false =>
        rw [splitCapitals, if_neg (by rw [hc]; decide), List.flatMap_cons]
        exact .letter hc ih

/-- **The sensitive keys are the names in snake case and in camel case.** -/
theorem isSensitiveKey_iff (key : Text) : isSensitiveKey lower key = true ↔ Plain lower key := by
  unfold isSensitiveKey Plain
  rw [decide_eq_true_eq]
  cases key with
  | nil =>
    have hnil : lower [] = [] := hlower.charwise [] (by simp)
    refine iff_of_false ?_ ?_
    · rw [normalizeKey, hnil]
      decide
    · intro ⟨c, rest, name, h, _⟩
      cases h
  | cons c rest =>
    rw [normalizeKey, lower_mem_sensitiveKeys hlower, List.flatMap_cons]
    constructor
    · intro h
      exact ⟨c, rest, _, rfl, (spells_iff hlower).mpr rfl, h⟩
    · intro ⟨c', rest', name, heq, hspells, hname⟩
      obtain ⟨rfl, rfl⟩ := List.cons.inj heq
      rw [(spells_iff hlower).mp hspells]
      exact hname

end Keys

/-! ### What a log line depends on -/

mutual

/-- The same value but for what is stored under names. -/
def AlikeValue (lower : Text → Text) : Value → Value → Prop
  | .str s, w => w = .str s
  | .dict fields, w => ∃ fields', w = .dict fields' ∧ AlikeFields lower fields fields'
  | .list items, w => ∃ items', w = .list items' ∧ AlikeItems lower items items'
  | .tuple items, w => ∃ items', w = .tuple items' ∧ AlikeItems lower items items'
  | .other literal, w => w = .other literal

def AlikeItems (lower : Text → Text) : List Value → List Value → Prop
  | [], items' => items' = []
  | item :: items, items' => ∃ item' rest, items' = item' :: rest ∧ AlikeValue lower item item' ∧
      AlikeItems lower items rest

def AlikeFields (lower : Text → Text) : List (Text × Value) → List (Text × Value) → Prop
  | [], fields' => fields' = []
  | (key, value) :: fields, fields' => ∃ value' rest, fields' = (key, value') :: rest ∧
      (Named lower key ∨ AlikeValue lower value value') ∧ AlikeFields lower fields rest

end

mutual

/-- Names are in snake case or in camel case, outside of what is redacted as a whole. -/
def PlainValue (lower : Text → Text) : Value → Prop
  | .str _ => True
  | .dict fields => PlainFields lower fields
  | .list items => PlainItems lower items
  | .tuple items => PlainItems lower items
  | .other _ => True

def PlainItems (lower : Text → Text) : List Value → Prop
  | [] => True
  | item :: items => PlainValue lower item ∧ PlainItems lower items

def PlainFields (lower : Text → Text) : List (Text × Value) → Prop
  | [] => True
  | (key, value) :: fields =>
    (Plain lower key ∨ (¬ Named lower key ∧ PlainValue lower value)) ∧ PlainFields lower fields

end

mutual

theorem alikeValue_refl (v : Value) : AlikeValue lower v v := by
  cases v with
  | str s => rfl
  | dict fields => exact ⟨fields, rfl, alikeFields_refl fields⟩
  | list items => exact ⟨items, rfl, alikeItems_refl items⟩
  | tuple items => exact ⟨items, rfl, alikeItems_refl items⟩
  | other literal => rfl

theorem alikeItems_refl (items : List Value) : AlikeItems lower items items := by
  cases items with
  | nil => rfl
  | cons item items => exact ⟨item, items, rfl, alikeValue_refl item, alikeItems_refl items⟩

theorem alikeFields_refl (fields : List (Text × Value)) : AlikeFields lower fields fields := by
  cases fields with
  | nil => rfl
  | cons field fields =>
    obtain ⟨key, value⟩ := field
    exact ⟨value, fields, rfl, .inr (alikeValue_refl value), alikeFields_refl fields⟩

end

mutual

/-- Where names are plain, what is stored under them does not matter. -/
theorem redactValue_alike (hlower : PyLower lower) (key : Text) (v w : Value)
    (hplain : PlainValue lower v) (h : AlikeValue lower v w) :
    redactValue lower isWord key w = redactValue lower isWord key v := by
  cases hkey : isSensitiveKey lower key with
  | true => rw [redactValue_sensitive hkey, redactValue_sensitive hkey]
  | false =>
    have hno := not_sensitive hkey
    cases v with
    | str s => rw [h]
    | dict fields =>
      obtain ⟨fields', rfl, hfields⟩ := h
      simp only [redactValue, if_neg hno, redactMapping_alike hlower fields fields' hplain hfields]
    | list items =>
      obtain ⟨items', rfl, hitems⟩ := h
      simp only [redactValue, if_neg hno, redactItems_alike hlower key items items' hplain hitems]
    | tuple items =>
      obtain ⟨items', rfl, hitems⟩ := h
      simp only [redactValue, if_neg hno, redactItems_alike hlower key items items' hplain hitems]
    | other literal => rw [h]

theorem redactItems_alike (hlower : PyLower lower) (key : Text) (items items' : List Value)
    (hplain : PlainItems lower items) (h : AlikeItems lower items items') :
    redactItems lower isWord key items' = redactItems lower isWord key items := by
  cases items with
  | nil => rw [h]
  | cons item items =>
    obtain ⟨item', rest, rfl, hitem, hitems⟩ := h
    simp only [redactItems, redactValue_alike hlower key item item' hplain.1 hitem,
      redactItems_alike hlower key items rest hplain.2 hitems]

theorem redactMapping_alike (hlower : PyLower lower) (fields fields' : List (Text × Value))
    (hplain : PlainFields lower fields) (h : AlikeFields lower fields fields') :
    redactMapping lower isWord fields' = redactMapping lower isWord fields := by
  cases fields with
  | nil => rw [h]
  | cons field fields =>
    obtain ⟨key, value⟩ := field
    obtain ⟨value', rest, rfl, hvalue, hfields⟩ := h
    have hrest := redactMapping_alike hlower fields rest hplain.2 hfields
    have hfirst : redactValue lower isWord key value' = redactValue lower isWord key value := by
      rcases hplain.1 with hkey | ⟨hnamed, hplain⟩
      · have hkey := (isSensitiveKey_iff hlower key).mpr hkey
        rw [redactValue_sensitive hkey, redactValue_sensitive hkey]
      · rcases hvalue with hvalue | hvalue
        · exact absurd hvalue hnamed
        · exact redactValue_alike hlower key value value' hplain hvalue
    simp only [redactMapping, hfirst, hrest]

end

/-- Another value under a key that is not sensitive shows. -/
theorem exists_redactValue_ne {key : Text} (h : isSensitiveKey lower key = false) (v : Value) :
    ∃ w, redactValue lower isWord key w ≠ redactValue lower isWord key v := by
  have hno := not_sensitive h
  by_cases hempty : redactValue lower isWord key v = .list []
  · refine ⟨.str [], ?_⟩
    rw [hempty, redactValue, if_neg hno]
    exact Value.noConfusion
  · refine ⟨.list [], ?_⟩
    rw [redactValue, if_neg hno]
    exact fun heq => hempty heq.symm

mutual

/-- Where a name is not plain, what is stored under it shows. -/
theorem value_shows (hlower : PyLower lower) {key : Text}
    (hkey : isSensitiveKey lower key = false) (v : Value) (h : ¬ PlainValue lower v) :
    ∃ w, AlikeValue lower v w ∧
      redactValue lower isWord key w ≠ redactValue lower isWord key v := by
  have hno := not_sensitive hkey
  cases v with
  | str s => exact absurd trivial h
  | dict fields =>
    obtain ⟨fields', halike, hne⟩ := fields_show hlower fields h
    refine ⟨.dict fields', ⟨fields', rfl, halike⟩, ?_⟩
    simp only [redactValue, if_neg hno]
    exact fun heq => hne (Value.dict.inj heq)
  | list items =>
    obtain ⟨items', halike, hne⟩ := items_show hlower hkey items h
    refine ⟨.list items', ⟨items', rfl, halike⟩, ?_⟩
    simp only [redactValue, if_neg hno]
    exact fun heq => hne (Value.list.inj heq)
  | tuple items =>
    obtain ⟨items', halike, hne⟩ := items_show hlower hkey items h
    refine ⟨.tuple items', ⟨items', rfl, halike⟩, ?_⟩
    simp only [redactValue, if_neg hno]
    exact fun heq => hne (Value.list.inj heq)
  | other literal => exact absurd trivial h

theorem items_show (hlower : PyLower lower) {key : Text}
    (hkey : isSensitiveKey lower key = false) (items : List Value)
    (h : ¬ PlainItems lower items) : ∃ items', AlikeItems lower items items' ∧
      redactItems lower isWord key items' ≠ redactItems lower isWord key items := by
  cases items with
  | nil => exact absurd trivial h
  | cons item items =>
    by_cases hitem : PlainValue lower item
    · have hitems : ¬ PlainItems lower items := fun hitems => h ⟨hitem, hitems⟩
      obtain ⟨items', halike, hne⟩ := items_show hlower hkey items hitems
      refine ⟨item :: items', ⟨item, items', rfl, alikeValue_refl item, halike⟩, ?_⟩
      simp only [redactItems]
      exact fun heq => hne (List.cons.inj heq).2
    · obtain ⟨item', halike, hne⟩ := value_shows hlower hkey item hitem
      refine ⟨item' :: items, ⟨item', items, rfl, halike, alikeItems_refl items⟩, ?_⟩
      simp only [redactItems]
      exact fun heq => hne (List.cons.inj heq).1

theorem fields_show (hlower : PyLower lower) (fields : List (Text × Value))
    (h : ¬ PlainFields lower fields) : ∃ fields', AlikeFields lower fields fields' ∧
      redactMapping lower isWord fields' ≠ redactMapping lower isWord fields := by
  cases fields with
  | nil => exact absurd trivial h
  | cons field fields =>
    obtain ⟨key, value⟩ := field
    by_cases hfields : PlainFields lower fields
    · have hfirst : ¬ (Plain lower key ∨ (¬ Named lower key ∧ PlainValue lower value)) :=
        fun hfirst => h ⟨hfirst, hfields⟩
      rw [not_or] at hfirst
      have hkey : isSensitiveKey lower key = false := by
        rw [← Bool.not_eq_true, isSensitiveKey_iff hlower]
        exact hfirst.1
      obtain ⟨value', halike, hne⟩ : ∃ value', (Named lower key ∨ AlikeValue lower value value') ∧
          redactValue lower isWord key value' ≠ redactValue lower isWord key value := by
        by_cases hnamed : Named lower key
        · obtain ⟨value', hne⟩ : ∃ value', redactValue lower isWord key value' ≠
              redactValue lower isWord key value := exists_redactValue_ne hkey value
          exact ⟨value', .inl hnamed, hne⟩
        · have hvalue : ¬ PlainValue lower value := fun hvalue => hfirst.2 ⟨hnamed, hvalue⟩
          obtain ⟨value', halike, hne⟩ := value_shows hlower hkey value hvalue
          exact ⟨value', .inr halike, hne⟩
      refine ⟨(key, value') :: fields, ⟨value', fields, rfl, halike, alikeFields_refl fields⟩, ?_⟩
      simp only [redactMapping]
      exact fun heq => hne (Prod.mk.inj (List.cons.inj heq).1).2
    · obtain ⟨fields', halike, hne⟩ := fields_show hlower fields hfields
      refine ⟨(key, value) :: fields', ⟨value, fields', rfl, .inr (alikeValue_refl value), halike⟩,
        ?_⟩
      simp only [redactMapping]
      exact fun heq => hne (List.cons.inj heq).2

end

/-- What is stored under names does not matter exactly when names are plain. -/
theorem hidden_iff (hlower : PyLower lower) (fields : List (Text × Value)) :
    (∀ fields', AlikeFields lower fields fields' →
      redactMapping lower isWord fields' = redactMapping lower isWord fields) ↔
      PlainFields lower fields := by
  constructor
  · intro h
    by_contra hplain
    obtain ⟨fields', halike, hne⟩ : ∃ fields', AlikeFields lower fields fields' ∧
        redactMapping lower isWord fields' ≠ redactMapping lower isWord fields :=
      fields_show hlower fields hplain
    exact hne (h fields' halike)
  · exact fun hplain fields' halike => redactMapping_alike hlower fields fields' hplain halike

/-! ### The extra fields -/

/-- Whether an attribute becomes an extra field depends on its name alone. -/
theorem isExtra_key (key : Text) (v w : Value) : isExtra (key, v) = isExtra (key, w) := rfl

theorem alikeFields_filter (attrs attrs' : List (Text × Value))
    (h : AlikeFields lower attrs attrs') :
    AlikeFields lower (attrs.filter isExtra) (attrs'.filter isExtra) := by
  induction attrs generalizing attrs' with
  | nil =>
    rw [h]
    rfl
  | cons attr attrs ih =>
    obtain ⟨key, value⟩ := attr
    obtain ⟨value', rest, rfl, hvalue, hrest⟩ := h
    rw [List.filter_cons, List.filter_cons, isExtra_key key value' value]
    split
    · exact ⟨value', rest.filter isExtra, rfl, hvalue, ih rest hrest⟩
    · exact ih rest hrest

/-- Other extra fields come from other attributes. -/
theorem exists_alikeFields (attrs kept : List (Text × Value))
    (h : AlikeFields lower (attrs.filter isExtra) kept) :
    ∃ attrs', AlikeFields lower attrs attrs' ∧ attrs'.filter isExtra = kept := by
  induction attrs generalizing kept with
  | nil => exact ⟨[], rfl, h.symm⟩
  | cons attr attrs ih =>
    obtain ⟨key, value⟩ := attr
    cases hextra : isExtra (key, value) with
    | true =>
      rw [List.filter_cons, if_pos hextra] at h
      obtain ⟨value', rest, rfl, hvalue, hrest⟩ := h
      obtain ⟨attrs', halike, hfilter⟩ := ih rest hrest
      refine ⟨(key, value') :: attrs', ⟨value', attrs', rfl, hvalue, halike⟩, ?_⟩
      rw [List.filter_cons, isExtra_key key value' value, if_pos hextra, hfilter]
    | false =>
      have hno : ¬ isExtra (key, value) = true := by simp [hextra]
      rw [List.filter_cons, if_neg hno] at h
      obtain ⟨attrs', halike, hfilter⟩ := ih kept h
      refine ⟨(key, value) :: attrs',
        ⟨value, attrs', rfl, .inr (alikeValue_refl value), halike⟩, ?_⟩
      rw [List.filter_cons, if_neg hno, hfilter]

/-- The same of the extra fields of a log record. -/
theorem extraFields_hidden_iff (hlower : PyLower lower) (attrs : List (Text × Value)) :
    (∀ attrs', AlikeFields lower attrs attrs' →
      extraFields lower isWord attrs' = extraFields lower isWord attrs) ↔
      PlainFields lower (attrs.filter isExtra) := by
  rw [← @hidden_iff lower isWord hlower]
  constructor
  · intro h kept hkept
    obtain ⟨attrs', halike, hfilter⟩ := exists_alikeFields attrs kept hkept
    have heq := h attrs' halike
    rw [extraFields_eq, extraFields_eq, hfilter] at heq
    exact heq
  · intro h attrs' halike
    rw [extraFields_eq, extraFields_eq]
    exact h _ (alikeFields_filter attrs attrs' halike)

/-- **Redaction hides what is stored under the sensitive names, in a mapping and in the extra fields
of a log record, exactly when every name that counts is in snake case or in camel case; and it is
idempotent.** -/
theorem redaction_covers (isWord : Char → Bool) (hlower : PyLower lower) :
    (∀ data, ((∀ data', AlikeFields lower data data' →
        redactMapping lower isWord data' = redactMapping lower isWord data) ∧
      redactMapping lower isWord (redactMapping lower isWord data) =
        redactMapping lower isWord data) ↔ PlainFields lower data) ∧
    ∀ attrs, (∀ attrs', AlikeFields lower attrs attrs' →
      extraFields lower isWord attrs' = extraFields lower isWord attrs) ↔
      PlainFields lower (attrs.filter isExtra) := by
  constructor
  · intro data
    rw [hidden_iff hlower]
    exact and_iff_left (redactMapping_idem data)
  · exact extraFields_hidden_iff hlower

theorem pyLower_map : PyLower (List.map Char.toLower) where
  charwise s _ := by
    rw [List.map_eq_flatMap]
    rfl
  sigma s hs := ⟨'Σ', List.mem_map.mpr ⟨'Σ', hs, by decide⟩, by decide⟩
  ascii _ _ := rfl

/-- A token in camel case inside another field. -/
theorem redaction_covers_nested : PyLower (List.map Char.toLower) ∧ ∀ data',
    AlikeFields (List.map Char.toLower)
      [("user".toList, .dict [("refreshToken".toList, .str "abc".toList)])] data' →
    redactMapping (List.map Char.toLower) Char.isAlphanum data' =
      redactMapping (List.map Char.toLower) Char.isAlphanum
        [("user".toList, .dict [("refreshToken".toList, .str "abc".toList)])] := by
  have hcovers := (redaction_covers Char.isAlphanum pyLower_map).1
    [("user".toList, .dict [("refreshToken".toList, .str "abc".toList)])]
  have htoken : Plain (List.map Char.toLower) "refreshToken".toList :=
    (isSensitiveKey_iff pyLower_map _).mp (by decide)
  have huser : ¬ Named (List.map Char.toLower) "user".toList := by
    unfold Named
    decide
  exact ⟨pyLower_map, (hcovers.mpr ⟨.inr ⟨huser, .inl htoken, trivial⟩, trivial⟩).1⟩

/-- A password whose name is in capitals is logged. -/
theorem capitals_logged : ¬ ∀ data data' : List (Text × Value),
    AlikeFields (List.map Char.toLower) data data' →
      redactMapping (List.map Char.toLower) Char.isAlphanum data' =
        redactMapping (List.map Char.toLower) Char.isAlphanum data := by
  intro h
  have hnamed : Named (List.map Char.toLower) "PASSWORD".toList :=
    ⟨"password".toList, by decide, by decide⟩
  have heq := h [("PASSWORD".toList, .str "hunter2".toList)] [("PASSWORD".toList, .str [])]
    ⟨.str [], [], rfl, .inl hnamed, rfl⟩
  have hno : isSensitiveKey (List.map Char.toLower) "PASSWORD".toList = false := by decide
  simp only [redactMapping, redactValue, if_neg (not_sensitive hno)] at heq
  exact absurd heq (by simp; decide)

end Chatspace.Redact
