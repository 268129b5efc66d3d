import Chatspace.Backend.Schema
import Chatspace.Rates.Budget
import Chatspace.Rates.Rounding

/-!
# `app/core/rate_limit.py`

The token buckets.  A call carries two times: `time`, when Redis runs the script (which is also the
time by which keys expire), and `now`, what the caller supplies.  The script is modelled over any
numbers, which say what the result of an operation is rounded to and what `tostring` keeps of it:
the doubles of Lua, without a bound on the exponent, or exact rational numbers, for which the
functions have the short names.

* `policies` — the policy of each scope;
* `LuaNumbers`, `LuaNumbers.doubles`, `LuaNumbers.exact` — the numbers;
* `LuaNumbers.tokenBucketScript`, `LuaNumbers.checkRateLimit` — one call;
* `LuaNumbers.checks` — the decisions of a sequence of calls, with the calls they answer.
-/

namespace Chatspace

inductive RateLimitScope
  | messageSend
  | auth
  | mediaUpload
  | generalRead
deriving DecidableEq

def RateLimitScope.value : RateLimitScope → Text
  | .messageSend => ['m', 'e', 's', 's', 'a', 'g', 'e', '_', 's', 'e', 'n', 'd']
  | .auth => ['a', 'u', 't', 'h']
  | .mediaUpload => ['m', 'e', 'd', 'i', 'a', '_', 'u', 'p', 'l', 'o', 'a', 'd']
  | .generalRead => ['g', 'e', 'n', 'e', 'r', 'a', 'l', '_', 'r', 'e', 'a', 'd']

def rateLimitBucketKey (scope : RateLimitScope) (subject : Text) : Text :=
  ['r', 'a', 't', 'e', 'l', 'i', 'm', 'i', 't', ':'] ++ (scope.value ++ ':' :: subject)

structure RateLimitPolicy where
  capacity : ℕ
  refillRatePerSecond : ℚ
  ttlSeconds : ℕ
deriving DecidableEq

/-- `_POLICIES`. -/
def policies : RateLimitScope → RateLimitPolicy
  | .messageSend => ⟨20, 10 / 10, 60⟩
  | .auth => ⟨5, 5 / 300, 600⟩
  | .mediaUpload => ⟨20, 20 / 60, 120⟩
  | .generalRead => ⟨60, 60 / 60, 120⟩

structure RateLimitDecision where
  allowed : Bool
  retryAfterSeconds : ℤ
deriving DecidableEq

/-- The hash `{tokens, ts}` of a key, with the last moment at which the key is there. -/
structure Bucket where
  tokens : ℚ
  ts : ℚ
  deadline : ℚ
deriving DecidableEq

/-- The buckets in Redis, by key. -/
abbrev Buckets : Type := Text → Option Bucket

/-- `HMGET` at `time`. -/
def Buckets.lookup (m : Buckets) (time : ℚ) (key : Text) : Option Bucket :=
  (m key).filter fun b => time ≤ b.deadline

/-- A call of `check_rate_limit`. -/
structure RateLimitCall where
  scope : RateLimitScope
  subject : Text
  time : ℚ
  now : ℚ
deriving DecidableEq

/-- The bucket a call is about. -/
def RateLimitCall.key (c : RateLimitCall) : Text := rateLimitBucketKey c.scope c.subject

/-! ### The script -/

/-- The numbers a script computes with. -/
structure LuaNumbers where
  /-- The result of an operation. -/
  round : ℚ → ℚ
  /-- `tonumber(tostring(x))`. -/
  stored : ℚ → ℚ
  round_nonneg : ∀ x, 0 ≤ x → 0 ≤ round x
  stored_nonneg : ∀ x, 0 ≤ x → 0 ≤ stored x

namespace LuaNumbers

def exact : LuaNumbers := ⟨id, id, fun _ h => h, fun _ h => h⟩

/-- Fifty-three binary digits, and fourteen decimal ones where a number is written (`%.14g`). -/
def doubles : LuaNumbers where
  round := Rates.significant 2 53
  stored x := Rates.significant 2 53 (Rates.significant 10 14 x)
  round_nonneg _ := Rates.significant_nonneg
  stored_nonneg _ h := Rates.significant_nonneg (Rates.significant_nonneg h)

variable (L : LuaNumbers)

/-- `_TOKEN_BUCKET_SCRIPT`, run by Redis at `time`: what it returns and the hash it leaves. -/
def tokenBucketScript (capacity refillRate now requested : ℚ) (ttl : ℕ) (time : ℚ)
    (bucket : Option Bucket) : (ℤ × ℤ) × Bucket :=
  let (tokens, ts) := match bucket with
    | none => (capacity, now)
    | some b => (b.tokens, b.ts)
  let elapsed := if L.round (now - ts) < 0 then 0 else L.round (now - ts)
  let tokens := min capacity (L.round (tokens + L.round (elapsed * refillRate)))
  if tokens ≥ requested then
    ((1, 0), ⟨L.stored (L.round (tokens - requested)), L.stored now, time + ttl⟩)
  else
    let deficit := L.round (requested - tokens)
    let retryAfter := if refillRate > 0 then ⌈L.round (deficit / refillRate)⌉ else -1
    ((0, retryAfter), ⟨L.stored tokens, L.stored now, time + ttl⟩)

/-- `_consume`, of one token. -/
def consume (m : Buckets) (time : ℚ) (key : Text) (policy : RateLimitPolicy) (now : ℚ) :
    RateLimitDecision × Buckets :=
  let ((allowed, retryAfter), bucket) := L.tokenBucketScript policy.capacity
    (L.round policy.refillRatePerSecond) now 1 policy.ttlSeconds time (m.lookup time key)
  (⟨allowed ≠ 0, max 0 retryAfter⟩, Function.update m key (some bucket))

def checkRateLimit (m : Buckets) (c : RateLimitCall) : RateLimitDecision × Buckets :=
  L.consume m c.time c.key (policies c.scope) c.now

/-- Calls one after the other: each with its decision, and the buckets they leave. -/
def checks (m : Buckets) : List RateLimitCall → List (RateLimitCall × RateLimitDecision) × Buckets
  | [] => ([], m)
  | c :: cs =>
    let (decision, m') := L.checkRateLimit m c
    let (rest, m'') := checks m' cs
    ((c, decision) :: rest, m'')

end LuaNumbers

/-! ### With exact numbers -/

abbrev tokenBucketScript (capacity refillRate now requested : ℚ) (ttl : ℕ) (time : ℚ)
    (bucket : Option Bucket) : (ℤ × ℤ) × Bucket :=
  LuaNumbers.exact.tokenBucketScript capacity refillRate now requested ttl time bucket

abbrev checkRateLimit (m : Buckets) (c : RateLimitCall) : RateLimitDecision × Buckets :=
  LuaNumbers.exact.checkRateLimit m c

abbrev checks (m : Buckets) (cs : List RateLimitCall) :
    List (RateLimitCall × RateLimitDecision) × Buckets :=
  LuaNumbers.exact.checks m cs

/-- No bucket. -/
def Buckets.empty : Buckets := fun _ => none

end Chatspace
