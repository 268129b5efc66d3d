import Chatspace.Backend.Schema
import Chatspace.Codec.Text
import Mathlib.Algebra.BigOperators.Group.List.Basic
import Mathlib.Algebra.GroupWithZero.Nat

/-!
# `core/body_limit.py`

`MaxBodySizeMiddleware`.  The application is known by the results of its `receive` calls, as many
as it makes.

* `parseInt`, `contentLength` — the length a request declares;
* `guardedReceive`, `call` — the middleware;
* `body_ceiling` — **the application is handed at most the ceiling, and a request within it
  unchanged.**
-/

namespace Chatspace.BodyLimit

abbrev Bytes : Type := List UInt8

/-! ### The declared length -/

/-- White space as `int` skips it in bytes. -/
def isSpaceByte (b : UInt8) : Bool := b = 32 || (9 ≤ b && b ≤ 13)

def isDigitByte (b : UInt8) : Bool := 48 ≤ b && b ≤ 57

/-- Digits, with single underscores between them. -/
def literalDigits : Bytes → Option (List ℕ)
  | [] => none
  | [d] => if isDigitByte d then some [d.toNat - 48] else none
  | d :: 95 :: rest =>
    if isDigitByte d then (literalDigits rest).map fun ds => (d.toNat - 48) :: ds else none
  | d :: rest =>
    if isDigitByte d then (literalDigits rest).map fun ds => (d.toNat - 48) :: ds else none

/-- `sys.int_info.default_max_str_digits`. -/
def maxStrDigits : ℕ := 4300

/-- A literal without a sign; one of too many digits is a `ValueError`. -/
def parseNat (literal : Bytes) : Option ℕ :=
  match literalDigits literal with
  | none => none
  | some ds => if maxStrDigits < ds.length then none else some (ds.foldl (fun n d => 10 * n + d) 0)

/-- `int(value)`, where `none` is a `ValueError`. -/
def parseInt (value : Bytes) : Option ℤ :=
  match Codec.trim isSpaceByte value with
  | 43 :: literal => (parseNat literal).map Int.ofNat
  | 45 :: literal => (parseNat literal).map fun n => -Int.ofNat n
  | literal => (parseNat literal).map Int.ofNat

/-- `int(b" +1_0\n")`. -/
example : parseInt [32, 43, 49, 95, 48, 10] = some 10 := by decide

/-- The entries of an ASGI scope that are read here. -/
structure Scope where
  type : Text
  path : Option Text
  headers : List (Bytes × Bytes)

/-- `b"content-length"`. -/
def contentLengthName : Bytes := "content-length".toList.map fun c => UInt8.ofNat c.toNat

/-- `_content_length`: the first header of the name counts. -/
def contentLength (scope : Scope) : Option ℤ :=
  match scope.headers.find? fun h => h.1 = contentLengthName with
  | some (_, value) => parseInt value
  | none => none

/-! ### The middleware -/

/-- An ASGI message: its type, its body if it has one, and its other entries. -/
structure Message (α : Type) where
  type : Text
  body : Option Bytes
  entries : α

structure BodyTooLargeError where
  detail : Text
deriving DecidableEq

/-- `_problem_body`. -/
structure ProblemBody where
  type : Text
  title : Text
  status : ℕ
  detail : Text
  instancePath : Text
  correlationId : Option Text
deriving DecidableEq

def problemBody (instancePath : Text) (correlationId : Option Text) : ProblemBody where
  type := "https://chatspace.example/problems/payload-too-large".toList
  title := "Payload too large".toList
  status := 413
  detail := "Request body exceeds the maximum allowed size.".toList
  instancePath := instancePath
  correlationId := correlationId

/-- What the middleware sends itself. -/
inductive Response where
  | start (status : ℕ) (headers : List (Text × Text))
  | body (payload : ProblemBody)
deriving DecidableEq

/-- `_send_413`. -/
def send413 (scope : Scope) (correlationId : Option Text) : List Response :=
  [.start 413 [("content-type".toList, "application/problem+json".toList)],
    .body (problemBody (scope.path.getD []) correlationId)]

/-- What a request comes to: the application runs, and these are the results of its `receive`
calls; or it does not run, and this is sent. -/
inductive Call (α : Type) where
  | runs (results : List (Except BodyTooLargeError (Message α)))
  | refused (sent : List Response)

section Middleware

variable {α : Type} (maxBytes : ℕ)

/-- `http.request`. -/
def Message.isRequest (message : Message α) : Bool := message.type = "http.request".toList

/-- `len(message.get("body") or b"")`. -/
def Message.length (message : Message α) : ℕ := (message.body.getD []).length

def bodyTooLarge : BodyTooLargeError :=
  ⟨"request body exceeded ".toList ++ (toString maxBytes).toList ++ " bytes.".toList⟩

/-- `guarded_receive` on the next message, and `total` after it. -/
def guardedReceive (total : ℕ) (message : Message α) :
    Except BodyTooLargeError (Message α) × ℕ :=
  if message.isRequest then
    let total := total + message.length
    if total > maxBytes then (.error (bodyTooLarge maxBytes), total) else (.ok message, total)
  else (.ok message, total)

/-- One `receive` call after the other. -/
def receives : ℕ → List (Message α) → List (Except BodyTooLargeError (Message α))
  | _, [] => []
  | total, message :: messages =>
    (guardedReceive maxBytes total message).1 ::
      receives (guardedReceive maxBytes total message).2 messages

/-- `MaxBodySizeMiddleware.__call__`. -/
def call (correlationId : Option Text) (scope : Scope) (messages : List (Message α)) : Call α :=
  if scope.type ≠ "http".toList then .runs (messages.map .ok)
  else
    match contentLength scope with
    | some declared =>
      if declared > maxBytes then .refused (send413 scope correlationId)
      else .runs (receives maxBytes 0 messages)
    | none => .runs (receives maxBytes 0 messages)

/-- The bytes of body that a message carries. -/
def Message.bodyLength (message : Message α) : ℕ :=
  if message.isRequest then message.length else 0

/-- The bytes of body that messages carry. -/
def total (messages : List (Message α)) : ℕ := (messages.map Message.bodyLength).sum

@[simp] theorem total_nil : total ([] : List (Message α)) = 0 := rfl

@[simp] theorem total_cons (m : Message α) (messages : List (Message α)) :
    total (m :: messages) = m.bodyLength + total messages := by
  rw [total, List.map_cons, List.sum_cons]
  rfl

/-- The messages that the application gets. -/
def handed (results : List (Except BodyTooLargeError (Message α))) : List (Message α) :=
  results.filterMap Except.toOption

/-- The message is refused when it carries body and crosses the ceiling or comes after that. -/
theorem guardedReceive_eq (n : ℕ) (m : Message α) : guardedReceive maxBytes n m =
    (if m.isRequest ∧ maxBytes < n + m.bodyLength then .error (bodyTooLarge maxBytes) else .ok m,
      n + m.bodyLength) := by
  unfold guardedReceive Message.bodyLength
  by_cases h : m.isRequest
  · by_cases hover : maxBytes < n + m.length
    · simp [h, hover]
    · simp [h, hover]
  · simp [h]

/-- What is handed on fits into what is left of the ceiling. -/
theorem total_handed (n : ℕ) (messages : List (Message α)) :
    total (handed (receives maxBytes n messages)) ≤ maxBytes - n := by
  induction messages generalizing n with
  | nil => exact Nat.zero_le _
  | cons m messages ih =>
    have hrest := ih (n + m.bodyLength)
    simp only [receives, guardedReceive_eq]
    split
    · show total (handed (receives maxBytes (n + m.bodyLength) messages)) ≤ maxBytes - n
      omega
    · rename_i hpass
      show total (m :: handed (receives maxBytes (n + m.bodyLength) messages)) ≤ maxBytes - n
      rw [total_cons]
      by_cases h : m.isRequest
      · have hfits : ¬ maxBytes < n + m.bodyLength := fun hover => hpass ⟨h, hover⟩
        omega
      · have hnone : m.bodyLength = 0 := if_neg h
        omega

/-- Every message in turn: it is refused or handed on unchanged. -/
theorem getElem?_receives (n : ℕ) (messages : List (Message α)) (i : ℕ) :
    (receives maxBytes n messages)[i]? = messages[i]?.map fun m =>
      if m.isRequest ∧ maxBytes < n + total (messages.take (i + 1)) then
        .error (bodyTooLarge maxBytes)
      else .ok m := by
  induction messages generalizing n i with
  | nil => rfl
  | cons m messages ih =>
    rw [receives, guardedReceive_eq]
    cases i with
    | zero => simp
    | succ i =>
      rw [List.getElem?_cons_succ, List.getElem?_cons_succ, ih]
      simp only [List.take_succ_cons, total_cons, Nat.add_assoc]

theorem total_take_le (messages : List (Message α)) (i : ℕ) :
    total (messages.take i) ≤ total messages := by
  induction messages generalizing i with
  | nil => simp
  | cons m messages ih =>
    cases i with
    | zero => exact Nat.zero_le _
    | succ i =>
      have := ih i
      simp only [List.take_succ_cons, total_cons]
      omega

/-- A stream within the ceiling is handed on unchanged. -/
theorem receives_of_le {messages : List (Message α)} (h : total messages ≤ maxBytes) :
    receives maxBytes 0 messages = messages.map .ok := by
  apply List.ext_getElem?
  intro i
  rw [getElem?_receives, List.getElem?_map]
  cases hm : messages[i]? with
  | none => rfl
  | some m =>
    have hle := total_take_le messages (i + 1)
    have hpass : ¬ (m.isRequest ∧ maxBytes < 0 + total (messages.take (i + 1))) := by omega
    simp only [Option.map_some, if_neg hpass]

/-- The messages that the application gets, if it runs. -/
def Call.handed : Call α → List (Message α)
  | .runs results => BodyLimit.handed results
  | .refused _ => []

theorem call_of_within {scope : Scope} (hhttp : scope.type = "http".toList)
    (hdeclared : ∀ d, contentLength scope = some d → d ≤ maxBytes) (correlationId : Option Text)
    (messages : List (Message α)) :
    call maxBytes correlationId scope messages = .runs (receives maxBytes 0 messages) := by
  unfold call
  rw [if_neg (fun hne => hne hhttp)]
  cases h : contentLength scope with
  | none => rfl
  | some d => exact if_neg (Int.not_lt.mpr (hdeclared d h))

theorem call_of_over {scope : Scope} (hhttp : scope.type = "http".toList) {d : ℤ}
    (hdeclared : contentLength scope = some d) (hover : maxBytes < d) (correlationId : Option Text)
    (messages : List (Message α)) :
    call maxBytes correlationId scope messages = .refused (send413 scope correlationId) := by
  unfold call
  rw [if_neg (fun hne => hne hhttp), hdeclared]
  exact if_pos hover

/-- **The application is never handed more body than the ceiling.**  A request whose declared length
and body are within it reaches the application unchanged; one that declares more is refused before
the application runs; otherwise the message that crosses the ceiling raises, and so does every later
one that carries body. -/
theorem body_ceiling {scope : Scope} (hhttp : scope.type = "http".toList)
    (correlationId : Option Text) (messages : List (Message α)) :
    total (call maxBytes correlationId scope messages).handed ≤ maxBytes ∧
    ((∀ d, contentLength scope = some d → d ≤ maxBytes) → total messages ≤ maxBytes →
      call maxBytes correlationId scope messages = .runs (messages.map .ok)) ∧
    ((∃ d, contentLength scope = some d ∧ maxBytes < d) →
      call maxBytes correlationId scope messages = .refused (send413 scope correlationId)) ∧
    ((∀ d, contentLength scope = some d → d ≤ maxBytes) → ∃ results,
      call maxBytes correlationId scope messages = .runs results ∧
      ∀ i : ℕ, results[i]? = messages[i]?.map fun m =>
        if m.isRequest ∧ maxBytes < total (messages.take (i + 1)) then
          .error (bodyTooLarge maxBytes)
        else .ok m) := by
  refine ⟨?_, ?_, ?_, ?_⟩
  · by_cases hover : ∃ d, contentLength scope = some d ∧ maxBytes < d
    · obtain ⟨d, hd, hd'⟩ := hover
      rw [call_of_over maxBytes hhttp hd hd']
      exact Nat.zero_le _
    · have hdeclared : ∀ d, contentLength scope = some d → d ≤ maxBytes :=
        fun d hd => Int.not_lt.mp fun hd' => hover ⟨d, hd, hd'⟩
      rw [call_of_within maxBytes hhttp hdeclared]
      exact total_handed maxBytes 0 messages
  · intro hdeclared hle
    rw [call_of_within maxBytes hhttp hdeclared, receives_of_le maxBytes hle]
  · intro ⟨d, hd, hover⟩
    exact call_of_over maxBytes hhttp hd hover correlationId messages
  · intro hdeclared
    refine ⟨receives maxBytes 0 messages, call_of_within maxBytes hhttp hdeclared _ _, ?_⟩
    intro i
    simpa only [Nat.zero_add] using getElem?_receives maxBytes 0 messages i

end Middleware

/-- A stream in two messages under a ceiling of five bytes. -/
theorem body_ceiling_five :
    total (call 5 none ⟨"http".toList, none, [(contentLengthName, [51])]⟩
      [(⟨"http.request".toList, some [1, 2, 3, 4], true⟩ : Message Bool),
        ⟨"http.request".toList, some [5, 6], false⟩]).handed ≤ 5 ∧
    (call 5 none ⟨"http".toList, none, [(contentLengthName, [51])]⟩
      [(⟨"http.request".toList, some [1, 2, 3, 4], true⟩ : Message Bool),
        ⟨"http.request".toList, some [5, 6], false⟩]).handed.length = 1 :=
  ⟨(body_ceiling 5 rfl none _).1, by decide⟩

end Chatspace.BodyLimit
