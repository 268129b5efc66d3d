import Chatspace.Core.RateLimit

/-!
# What the token buckets allow

A bucket is a meter of the library, refilled and then taken from; a key that is not there is a full
meter.  Whether the callers' clocks agree with Redis's or not, and whatever the numbers, the calls
allowed in a window are within a budget as long as no call is behind the bucket it finds (`InStep`)
and no rounding gives the callers anything (`Unrewarded`).

* `LuaNumbers.checkRateLimit_cases` — what one call does;
* `Accounted.check`, `allowedWithin_le` — one call, and a run of calls, keep the budget;
* `skewed_clocks_bounded` — doubles, and clocks that differ;
* `skewed_callers` — two instances an eighth of a second apart exceed the budget;
* `rate_limit_bounds` — exact numbers, and clocks that agree and never go back: stored tokens,
  windows, retries.
-/

namespace Chatspace

open Rates

variable {L : LuaNumbers} {m : Buckets} {c c' : RateLimitCall} {cs : List RateLimitCall}
  {scope scope' : RateLimitScope} {subject subject' : Text} {b : Bucket}
  {start stop first last : ℚ} {n : ℕ}

section Policies

/-- The capacity of the scope's bucket, as a number of tokens. -/
abbrev RateLimitScope.cap (scope : RateLimitScope) : ℚ := (policies scope).capacity

/-- The refill rate of the scope's bucket. -/
abbrev RateLimitScope.rate (scope : RateLimitScope) : ℚ := (policies scope).refillRatePerSecond

theorem refillRate_pos (scope : RateLimitScope) : 0 < (policies scope).refillRatePerSecond := by
  cases scope <;> norm_num [policies]

theorem one_le_capacity (scope : RateLimitScope) : (1 : ℚ) ≤ (policies scope).capacity := by
  cases scope <;> norm_num [policies]

/-- **A bucket that expires would be full**: the TTL is no shorter than a refill from empty. -/
theorem capacity_le_ttl (scope : RateLimitScope) :
    ((policies scope).capacity : ℚ) ≤
      (policies scope).refillRatePerSecond * (policies scope).ttlSeconds := by
  cases scope <;> norm_num [policies]

/-- Two scopes share no bucket, and two subjects of a scope share none. -/
theorem rateLimitBucketKey_inj (h : rateLimitBucketKey scope subject =
    rateLimitBucketKey scope' subject') : scope = scope' ∧ subject = subject' := by
  have hcolon : ∀ s : RateLimitScope, ':' ∉ s.value := by
    intro s
    cases s <;> simp [RateLimitScope.value]
  have hvalue : ∀ s t : RateLimitScope, s.value = t.value → s = t := by
    intro s t
    cases s <;> cases t <;> simp [RateLimitScope.value]
  have htail : scope.value ++ ':' :: subject = scope'.value ++ ':' :: subject' :=
    List.append_cancel_left h
  have hlength := congrArg (List.idxOf ':') htail
  rw [List.idxOf_append_of_notMem (hcolon scope), List.idxOf_append_of_notMem (hcolon scope'),
    List.idxOf_cons_self, List.idxOf_cons_self] at hlength
  obtain ⟨hs, ht⟩ := List.append_inj htail hlength
  exact ⟨hvalue scope scope' hs, List.tail_eq_of_cons_eq ht⟩

end Policies

section OneCall

namespace LuaNumbers

variable (L)

/-- The refill rate of the scope's bucket, as the script reads it. -/
def rate (scope : RateLimitScope) : ℚ := L.round scope.rate

theorem rate_nonneg (scope : RateLimitScope) : 0 ≤ L.rate scope :=
  L.round_nonneg _ (refillRate_pos scope).le

/-- What the script has to spend from: the stored bucket refilled, or a full one. -/
def level (capacity rate now : ℚ) (bucket : Option Bucket) : ℚ :=
  let b := bucket.getD ⟨capacity, now, 0⟩
  min capacity (L.round (b.tokens + L.round (max 0 (L.round (now - b.ts)) * rate)))

/-- What a call finds. -/
def found (m : Buckets) (c : RateLimitCall) : ℚ :=
  L.level c.scope.cap (L.rate c.scope) c.now (m.lookup c.time c.key)

theorem found_le_cap : L.found m c ≤ c.scope.cap := min_le_left _ _

/-- The script spends from the level it finds. -/
theorem tokenBucketScript_eq (capacity rate now time : ℚ) (ttl : ℕ) (bucket : Option Bucket) :
    L.tokenBucketScript capacity rate now 1 ttl time bucket =
      if 1 ≤ L.level capacity rate now bucket then
        ((1, 0), ⟨L.stored (L.round (L.level capacity rate now bucket - 1)), L.stored now,
          time + ttl⟩)
      else
        ((0, if 0 < rate then
            ⌈L.round (L.round (1 - L.level capacity rate now bucket) / rate)⌉ else -1),
          ⟨L.stored (L.level capacity rate now bucket), L.stored now, time + ttl⟩) := by
  have helapsed : ∀ x : ℚ, (if x < 0 then 0 else x) = max 0 x := by
    intro x
    split
    · rename_i hx
      exact (max_eq_left hx.le).symm
    · rename_i hx
      exact (max_eq_right (not_lt.mp hx)).symm
  cases bucket with
  | none =>
    simp only [tokenBucketScript, helapsed, level, Option.getD_none]
    rfl
  | some b =>
    simp only [tokenBucketScript, helapsed, level, Option.getD_some]
    rfl

/-- **One call**: a token is taken from what is found, or what is found is written back. -/
theorem checkRateLimit_cases (m : Buckets) (c : RateLimitCall) :
    ∃ b, (L.checkRateLimit m c).2 = Function.update m c.key (some b) ∧
      b.deadline = c.time + (policies c.scope).ttlSeconds ∧ b.ts = L.stored c.now ∧
      (1 ≤ L.found m c ∧ (L.checkRateLimit m c).1 = ⟨true, 0⟩ ∧
          b.tokens = L.stored (L.round (L.found m c - 1)) ∨
        L.found m c < 1 ∧ b.tokens = L.stored (L.found m c) ∧
          (L.checkRateLimit m c).1 = ⟨false, max 0 (if 0 < L.rate c.scope then
            ⌈L.round (L.round (1 - L.found m c) / L.rate c.scope)⌉ else -1)⟩) := by
  unfold checkRateLimit consume
  rw [tokenBucketScript_eq]
  by_cases h : 1 ≤ L.found m c
  · have h' : 1 ≤ L.level (policies c.scope).capacity
        (L.round (policies c.scope).refillRatePerSecond) c.now (m.lookup c.time c.key) := h
    rw [if_pos h']
    exact ⟨_, rfl, rfl, rfl, .inl ⟨h, rfl, rfl⟩⟩
  · have h' : ¬1 ≤ L.level (policies c.scope).capacity
        (L.round (policies c.scope).refillRatePerSecond) c.now (m.lookup c.time c.key) := h
    rw [if_neg h']
    exact ⟨_, rfl, rfl, rfl, .inr ⟨not_le.mp h, rfl, rfl⟩⟩

/-- A call leaves the buckets of the others alone. -/
theorem check_other (h : ¬(c.scope = scope ∧ c.subject = subject)) :
    (L.checkRateLimit m c).2 (rateLimitBucketKey scope subject) =
      m (rateLimitBucketKey scope subject) := by
  obtain ⟨b, hm', -, -, -⟩ := L.checkRateLimit_cases m c
  have hkey : rateLimitBucketKey scope subject ≠ c.key := by
    intro hkey
    obtain ⟨hs, ht⟩ := rateLimitBucketKey_inj hkey
    exact h ⟨hs.symm, ht.symm⟩
  rw [hm', Function.update_of_ne hkey]

end LuaNumbers

/-- What was stored under a key after a call on it. -/
theorem stored_of_check (h : (L.checkRateLimit m c).2 c.key = some b) :
    b.deadline = c.time + (policies c.scope).ttlSeconds ∧ b.ts = L.stored c.now ∧
      (1 ≤ L.found m c ∧ b.tokens = L.stored (L.round (L.found m c - 1)) ∨
        L.found m c < 1 ∧ b.tokens = L.stored (L.found m c)) := by
  obtain ⟨b', hm', hdeadline, hts, hcases⟩ := L.checkRateLimit_cases m c
  rw [hm', Function.update_self] at h
  cases h
  refine ⟨hdeadline, hts, ?_⟩
  rcases hcases with ⟨hlevel, -, htokens⟩ | ⟨hlevel, htokens, -⟩
  · exact .inl ⟨hlevel, htokens⟩
  · exact .inr ⟨hlevel, htokens⟩

end OneCall

section Runs

/-- A property of every stored level that calls keep. -/
theorem stored_check {P : RateLimitScope → ℚ → Prop}
    (hm : ∀ scope subject b, m (rateLimitBucketKey scope subject) = some b → P scope b.tokens)
    (hspent : 1 ≤ L.found m c → P c.scope (L.stored (L.round (L.found m c - 1))))
    (hkept : P c.scope (L.stored (L.found m c))) :
    ∀ scope subject b, (L.checkRateLimit m c).2 (rateLimitBucketKey scope subject) = some b →
      P scope b.tokens := by
  intro scope subject b hb
  by_cases hown : c.scope = scope ∧ c.subject = subject
  · obtain ⟨rfl, rfl⟩ := hown
    rcases (stored_of_check hb).2.2 with ⟨hlevel, htokens⟩ | ⟨-, htokens⟩
    · rw [htokens]
      exact hspent hlevel
    · rw [htokens]
      exact hkept
  · rw [L.check_other hown] at hb
    exact hm scope subject b hb

/-- No stored level is negative. -/
def Buckets.Nonneg (m : Buckets) : Prop :=
  ∀ scope subject b, m (rateLimitBucketKey scope subject) = some b → 0 ≤ b.tokens

theorem nonneg_empty : Buckets.empty.Nonneg := by
  intro scope subject b h
  cases h

theorem Buckets.Nonneg.found (hm : m.Nonneg) (c : RateLimitCall) : 0 ≤ L.found m c := by
  have hcap : (0 : ℚ) ≤ c.scope.cap := Nat.cast_nonneg _
  have htokens : 0 ≤ ((m.lookup c.time c.key).getD ⟨c.scope.cap, c.now, 0⟩).tokens := by
    cases hb : m.lookup c.time c.key with
    | none => exact hcap
    | some b => exact hm _ _ _ (Option.filter_eq_some_iff.mp hb).1
  have hgain := mul_nonneg (le_max_left 0 (L.round (c.now -
    ((m.lookup c.time c.key).getD ⟨c.scope.cap, c.now, 0⟩).ts))) (L.rate_nonneg c.scope)
  exact le_min hcap (L.round_nonneg _ (add_nonneg htokens (L.round_nonneg _ hgain)))

theorem Buckets.Nonneg.check (hm : m.Nonneg) (c : RateLimitCall) :
    (L.checkRateLimit m c).2.Nonneg := by
  refine stored_check (P := fun _ tokens => 0 ≤ tokens) hm ?_ (L.stored_nonneg _ (hm.found c))
  intro hlevel
  exact L.stored_nonneg _ (L.round_nonneg _ (sub_nonneg.mpr hlevel))

/-- The caller is not behind the bucket it finds, and one that expired would be full by its
clock. -/
def LuaNumbers.InStep (L : LuaNumbers) (m : Buckets) (c : RateLimitCall) : Prop :=
  ∀ b ∈ m c.key, (c.time ≤ b.deadline → b.ts ≤ c.now) ∧
    (b.deadline < c.time → c.scope.cap ≤ L.rate c.scope * (c.now - b.ts))

/-- No rounding is in the caller's favour: the clock is not written down as an earlier one, a refill
is no more than the time since the last call gives, and what is left is not written down as more. -/
structure LuaNumbers.Unrewarded (L : LuaNumbers) (m : Buckets) (c : RateLimitCall) : Prop where
  clock : c.now ≤ L.stored c.now
  refill : ∀ b ∈ m.lookup c.time c.key,
    L.found m c ≤ b.tokens + max 0 (c.now - b.ts) * L.rate c.scope
  spent : 1 ≤ L.found m c → L.stored (L.round (L.found m c - 1)) ≤ L.found m c - 1
  kept : L.found m c < 1 → L.stored (L.found m c) ≤ L.found m c

/-- Both. -/
def LuaNumbers.Steady (L : LuaNumbers) (m : Buckets) (c : RateLimitCall) : Prop :=
  L.InStep m c ∧ L.Unrewarded m c

/-- What every call keeps, a run keeps. -/
theorem checks_induction {P : Buckets → Prop} (h : P m)
    (hstep : ∀ m c, P m → P (L.checkRateLimit m c).2) : P (L.checks m cs).2 := by
  induction cs generalizing m with
  | nil => exact h
  | cons c cs ih => exact ih (hstep m c h)

/-- Every call of the bucket is steady when its turn comes. -/
def LuaNumbers.AllSteady (L : LuaNumbers) (scope : RateLimitScope) (subject : Text) :
    Buckets → List RateLimitCall → Prop
  | _, [] => True
  | m, c :: cs => (c.scope = scope → c.subject = subject → L.Steady m c) ∧
    AllSteady L scope subject (L.checkRateLimit m c).2 cs

section Decidability

instance : Decidable (L.InStep m c) :=
  inferInstanceAs (Decidable (∀ b ∈ m c.key, (c.time ≤ b.deadline → b.ts ≤ c.now) ∧
    (b.deadline < c.time → c.scope.cap ≤ L.rate c.scope * (c.now - b.ts))))

instance : Decidable (L.Unrewarded m c) :=
  decidable_of_iff (c.now ≤ L.stored c.now ∧
      (∀ b ∈ m.lookup c.time c.key,
        L.found m c ≤ b.tokens + max 0 (c.now - b.ts) * L.rate c.scope) ∧
      (1 ≤ L.found m c → L.stored (L.round (L.found m c - 1)) ≤ L.found m c - 1) ∧
      (L.found m c < 1 → L.stored (L.found m c) ≤ L.found m c))
    ⟨fun h => ⟨h.1, h.2.1, h.2.2.1, h.2.2.2⟩, fun h => ⟨h.clock, h.refill, h.spent, h.kept⟩⟩

instance : Decidable (L.Steady m c) := inferInstanceAs (Decidable (_ ∧ _))

instance : (cs : List RateLimitCall) → (m : Buckets) → Decidable (L.AllSteady scope subject m cs)
  | [], _ => isTrue trivial
  | c :: cs, m =>
    have := instDecidableAllSteady cs (L.checkRateLimit m c).2
    inferInstanceAs (Decidable (_ ∧ _))

end Decidability

/-- A call of the bucket that was allowed between `first` and `last`, by Redis's time. -/
def Counts (scope : RateLimitScope) (subject : Text) (first last : ℚ)
    (x : RateLimitCall × RateLimitDecision) : Prop :=
  (x.1.scope = scope ∧ x.1.subject = subject) ∧ (first ≤ x.1.time ∧ x.1.time ≤ last) ∧
    x.2.allowed = true

instance : DecidablePred (Counts scope subject first last) :=
  fun _ => inferInstanceAs (Decidable (_ ∧ _))

/-- How many calls of a bucket were allowed in a window. -/
def allowedWithin (scope : RateLimitScope) (subject : Text) (first last : ℚ)
    (answers : List (RateLimitCall × RateLimitDecision)) : ℕ :=
  answers.countP fun x => Counts scope subject first last x

def Bucket.meter (b : Bucket) : Meter ℚ := ⟨b.tokens, b.ts⟩

/-- `n` calls were allowed since the clocks showed `start`, and the bucket accounts for them. -/
def Accounted (L : LuaNumbers) (m : Buckets) (scope : RateLimitScope) (subject : Text)
    (start : ℚ) (n : ℕ) : Prop :=
  n = 0 ∨ ∃ b, m (rateLimitBucketKey scope subject) = some b ∧
    Budget scope.cap (L.rate scope) start n b.meter

/-- The budget holds of what a steady call finds, at its clock. -/
theorem Accounted.found (h : Accounted L m c.scope c.subject start n) (hm : m.Nonneg)
    (hsteady : L.Steady m c) (hstart : n = 0 → start ≤ c.now) :
    Budget c.scope.cap (L.rate c.scope) start n ⟨L.found m c, c.now⟩ := by
  rcases h with rfl | ⟨b, hb, hbudget⟩
  · rw [Nat.cast_zero]
    exact .begins (L.rate_nonneg c.scope) L.found_le_cap (hstart rfl)
  · obtain ⟨hthere, hexpired⟩ := hsteady.1 b hb
    rcases le_or_gt c.time b.deadline with htime | htime
    · have hlookup : m.lookup c.time c.key = some b :=
        Option.filter_eq_some_iff.mpr ⟨hb, by simpa using htime⟩
      have hgain := hsteady.2.refill b hlookup
      rw [max_eq_right (sub_nonneg.mpr (hthere htime))] at hgain
      exact hbudget.gain hgain
    · have hfull : Budget c.scope.cap (L.rate c.scope) start n (Meter.full c.scope.cap c.now) :=
        hbudget.restart (hm _ _ b hb) (hexpired htime)
      exact hfull.store (L.rate_nonneg c.scope) L.found_le_cap le_rfl

/-- **One call keeps the budget**, counted or not. -/
theorem Accounted.check (h : Accounted L m scope subject start n) (hm : m.Nonneg)
    (hsteady : c.scope = scope → c.subject = subject → L.Steady m c)
    (hstart : first ≤ c.time → c.time ≤ last → start ≤ c.now) :
    Accounted L (L.checkRateLimit m c).2 scope subject start
      (n + if Counts scope subject first last (c, (L.checkRateLimit m c).1) then 1 else 0) := by
  by_cases hown : c.scope = scope ∧ c.subject = subject
  case neg =>
    have hcounts : ¬Counts scope subject first last (c, (L.checkRateLimit m c).1) :=
      fun hc => hown hc.1
    rw [if_neg hcounts]
    unfold Accounted at h ⊢
    rwa [L.check_other hown]
  obtain ⟨rfl, rfl⟩ := hown
  have hrounds := (hsteady rfl rfl).2
  by_cases hfirst : n = 0 ∧ ¬Counts c.scope c.subject first last (c, (L.checkRateLimit m c).1)
  · rw [if_neg hfirst.2]
    exact .inl hfirst.1
  · have hbudget : Budget c.scope.cap (L.rate c.scope) start n ⟨L.found m c, c.now⟩ := by
      apply h.found hm (hsteady rfl rfl)
      intro hn
      have hcounts := not_not.mp fun hc => hfirst ⟨hn, hc⟩
      exact hstart hcounts.2.1.1 hcounts.2.1.2
    obtain ⟨b, hm', -, hts, hcases⟩ := L.checkRateLimit_cases m c
    have hb : (L.checkRateLimit m c).2 (rateLimitBucketKey c.scope c.subject) = some b := by
      rw [hm']
      exact Function.update_self ..
    have hclock : c.now ≤ b.meter.clock := hrounds.clock.trans_eq hts.symm
    refine .inr ⟨b, hb, ?_⟩
    rcases hcases with ⟨hlevel, -, htokens⟩ | ⟨hlevel, htokens, hanswer⟩
    · -- the token is taken whether or not the call falls in the window
      have hspent : b.meter.level ≤ L.found m c - 1 := htokens.trans_le (hrounds.spent hlevel)
      have htaken := (hbudget.take (k := 1)).store (L.rate_nonneg c.scope) hspent hclock
      apply htaken.mono
      split <;> simp
    · have hcounts : ¬Counts c.scope c.subject first last (c, (L.checkRateLimit m c).1) := by
        rw [hanswer]
        exact fun hc => Bool.false_ne_true hc.2.2
      have hkept : b.meter.level ≤ L.found m c := htokens.trans_le (hrounds.kept hlevel)
      rw [if_neg hcounts, Nat.add_zero]
      exact hbudget.store (L.rate_nonneg c.scope) hkept hclock

/-- A call that is counted is within the budget of the time it carries. -/
theorem Accounted.le (h : Accounted L m scope subject start n) (hm : m.Nonneg)
    (hsteady : c.scope = scope → c.subject = subject → L.Steady m c)
    (hstart : start ≤ c.now) (hstop : c.now ≤ stop)
    (hcounts : Counts scope subject first last (c, (L.checkRateLimit m c).1)) :
    ((n + 1 : ℕ) : ℚ) ≤ scope.cap + L.rate scope * (stop - start) := by
  obtain ⟨⟨rfl, rfl⟩, -, hallowed⟩ := hcounts
  have hlevel : 1 ≤ L.found m c := by
    obtain ⟨-, -, -, -, ⟨hlevel, -⟩ | ⟨-, -, hanswer⟩⟩ := L.checkRateLimit_cases m c
    · exact hlevel
    · rw [hanswer] at hallowed
      cases hallowed
  have htaken := (h.found hm (hsteady rfl rfl) fun _ => hstart).take (k := 1)
  have hbound := htaken.le (L.rate_nonneg c.scope) (sub_nonneg.mpr hlevel) hstop
  exact_mod_cast hbound

/-- **A run keeps the budget**: whatever the order of the calls' times, the calls allowed between
`first` and `last` are at most a burst and what is refilled while the clocks go from `start` to
`stop`. -/
theorem allowedWithin_le (start stop first last : ℚ) (hm : m.Nonneg)
    (h : Accounted L m scope subject start n)
    (hn : (n : ℚ) ≤ scope.cap + L.rate scope * (stop - start))
    (hsteady : L.AllSteady scope subject m cs)
    (hclocks : ∀ c ∈ cs, first ≤ c.time → c.time ≤ last → start ≤ c.now ∧ c.now ≤ stop) :
    ((n + allowedWithin scope subject first last (L.checks m cs).1 : ℕ) : ℚ) ≤
      scope.cap + L.rate scope * (stop - start) := by
  induction cs generalizing m n with
  | nil => simpa [LuaNumbers.checks, allowedWithin] using hn
  | cons c cs ih =>
    obtain ⟨hnow, hrest⟩ := List.forall_mem_cons.mp hclocks
    have hstep := h.check hm hsteady.1 fun h1 h2 => (hnow h1 h2).1
    have hbound : ((n + if Counts scope subject first last (c, (L.checkRateLimit m c).1) then 1
        else 0 : ℕ) : ℚ) ≤ scope.cap + L.rate scope * (stop - start) := by
      by_cases hcounts : Counts scope subject first last (c, (L.checkRateLimit m c).1)
      · obtain ⟨hafter, hbefore⟩ := hnow hcounts.2.1.1 hcounts.2.1.2
        rw [if_pos hcounts]
        exact h.le hm hsteady.1 hafter hbefore hcounts
      · rwa [if_neg hcounts]
    have hrun := ih (hm.check c) hstep hbound hsteady.2 hrest
    have hsum : n + allowedWithin scope subject first last (L.checks m (c :: cs)).1 =
        (n + if Counts scope subject first last (c, (L.checkRateLimit m c).1) then 1 else 0) +
          allowedWithin scope subject first last (L.checks (L.checkRateLimit m c).2 cs).1 := by
      simp only [LuaNumbers.checks, allowedWithin, List.countP_cons, decide_eq_true_eq]
      omega
    rwa [hsum]

/-- **A window**: with every supplied clock within `d / 2` of the true time, the calls allowed in a
window of length `T` are at most a burst and what is refilled in `T + d` seconds, in every run whose
calls on the bucket are steady. -/
theorem window_bounded {calls : List RateLimitCall} {d T : ℚ} (hd : 0 ≤ d) (hT : 0 ≤ T)
    (hskew : ∀ c ∈ calls, |c.now - c.time| ≤ d / 2)
    (hsteady : L.AllSteady scope subject Buckets.empty calls) :
    (allowedWithin scope subject first (first + T) (L.checks Buckets.empty calls).1 : ℚ) ≤
      scope.cap + L.rate scope * (T + d) := by
  have hlength : first + T + d / 2 - (first - d / 2) = T + d := by ring
  have hgain : 0 ≤ L.rate scope * (T + d) := mul_nonneg (L.rate_nonneg scope) (add_nonneg hT hd)
  have hrun := allowedWithin_le (n := 0) (first - d / 2) (first + T + d / 2) first (first + T)
    nonneg_empty (.inl rfl)
    (by rw [Nat.cast_zero, hlength]; exact add_nonneg (Nat.cast_nonneg _) hgain) hsteady (by
      intro c hc h1 h2
      obtain ⟨hbehind, hahead⟩ := abs_le.mp (hskew c hc)
      constructor <;> linarith)
  rwa [zero_add, hlength] at hrun

end Runs

section Skew

/-- **Clocks that differ**: what `window_bounded` says of the doubles the script computes with. -/
theorem skewed_clocks_bounded (scope : RateLimitScope) (subject : Text)
    (calls : List RateLimitCall) (d first T : ℚ) (hd : 0 ≤ d) (hT : 0 ≤ T)
    (hskew : ∀ c ∈ calls, |c.now - c.time| ≤ d / 2)
    (hsteady : LuaNumbers.doubles.AllSteady scope subject Buckets.empty calls) :
    (allowedWithin scope subject first (first + T)
        (LuaNumbers.doubles.checks Buckets.empty calls).1 : ℚ) ≤
      (policies scope).capacity +
        LuaNumbers.doubles.round (policies scope).refillRatePerSecond * (T + d) :=
  window_bounded hd hT hskew hsteady

/-- Twenty-one messages of one user at one moment, sent through two instances in turn whose clocks
are a sixteenth of a second fast and slow. -/
def skewedCallers : List RateLimitCall :=
  (List.range 21).map fun i => ⟨.messageSend, ['u'], 1700000000,
    if i % 2 = 0 then 1700000000 + 1 / 16 else 1700000000 - 1 / 16⟩

/-- All of them are allowed, one more than a burst and an eighth of a second's refill. -/
theorem skewed_callers :
    (∀ c ∈ skewedCallers, |c.now - c.time| ≤ (1 / 8) / 2) ∧
      ¬(allowedWithin .messageSend ['u'] 1700000000 (1700000000 + 0)
          (LuaNumbers.doubles.checks Buckets.empty skewedCallers).1 : ℚ) ≤
        (policies .messageSend).capacity +
          LuaNumbers.doubles.round (policies .messageSend).refillRatePerSecond * (0 + 1 / 8) := by
  have hall : allowedWithin .messageSend ['u'] 1700000000 (1700000000 + 0)
      (LuaNumbers.doubles.checks Buckets.empty skewedCallers).1 = 21 := by decide +kernel
  constructor
  · decide +kernel
  · rw [hall]
    decide +kernel

/-- The two instances in one turn each, the slow one first. -/
theorem skewed_clocks_bounded_twice :
    (allowedWithin .messageSend ['u'] 100 (100 + 0) (LuaNumbers.doubles.checks Buckets.empty
        [⟨.messageSend, ['u'], 100, 100 - 1 / 16⟩, ⟨.messageSend, ['u'], 100, 100 + 1 / 16⟩]).1 : ℚ)
      ≤ (policies .messageSend).capacity +
        LuaNumbers.doubles.round (policies .messageSend).refillRatePerSecond * (0 + 1 / 8) :=
  skewed_clocks_bounded .messageSend ['u'] _ (1 / 8) 100 0 (by norm_num) le_rfl
    (by decide +kernel) (by decide +kernel)

end Skew

section Agreement

/-- The buckets were written by clocks that agree with Redis's, no later than `t`. -/
def Buckets.Synced (m : Buckets) (t : ℚ) : Prop :=
  ∀ scope subject b, m (rateLimitBucketKey scope subject) = some b →
    b.ts ≤ t ∧ b.deadline = b.ts + (policies scope).ttlSeconds

theorem synced_empty (t : ℚ) : Buckets.empty.Synced t := by
  intro scope subject b h
  cases h

variable {t : ℚ}

theorem Buckets.Synced.check (h : m.Synced t) (hc : c.now = c.time) (ht : t ≤ c.now) :
    (checkRateLimit m c).2.Synced c.now := by
  intro scope subject b hb
  by_cases hown : c.scope = scope ∧ c.subject = subject
  · obtain ⟨rfl, rfl⟩ := hown
    obtain ⟨hdeadline, hts, -⟩ := stored_of_check hb
    have hts' : b.ts = c.now := hts
    exact ⟨hts'.le, by rw [hdeadline, hts', hc]⟩
  · rw [LuaNumbers.exact.check_other hown] at hb
    exact ⟨(h _ _ b hb).1.trans ht, (h _ _ b hb).2⟩

/-- A call whose clock does not go back is in step: what expired was written a TTL ago. -/
theorem Buckets.Synced.inStep (h : m.Synced t) (hc : c.now = c.time) (ht : t ≤ c.now) :
    LuaNumbers.exact.InStep m c := by
  intro b hb
  obtain ⟨hts, hdeadline⟩ := h _ _ b hb
  constructor
  · intro _
    exact hts.trans ht
  · intro hexpired
    have hidle : ((policies c.scope).ttlSeconds : ℚ) ≤ c.now - b.ts := by
      rw [hdeadline, ← hc] at hexpired
      linarith
    calc c.scope.cap ≤ c.scope.rate * (policies c.scope).ttlSeconds := capacity_le_ttl c.scope
      _ ≤ c.scope.rate * (c.now - b.ts) :=
        mul_le_mul_of_nonneg_left hidle (refillRate_pos c.scope).le

/-- Exact numbers are not rounded. -/
theorem unrewarded_exact : LuaNumbers.exact.Unrewarded m c where
  clock := le_rfl
  refill b hb := by
    unfold LuaNumbers.found
    rw [hb]
    exact min_le_right _ _
  spent _ := le_rfl
  kept _ := le_rfl

theorem Buckets.Synced.allSteady (h : m.Synced t) (hagree : ∀ c ∈ cs, c.now = c.time)
    (ht : ∀ c ∈ cs, t ≤ c.now) (horder : cs.Pairwise fun c c' => c.now ≤ c'.now) :
    LuaNumbers.exact.AllSteady scope subject m cs := by
  induction cs generalizing m t with
  | nil => trivial
  | cons c cs ih =>
    obtain ⟨hc, hagree⟩ := List.forall_mem_cons.mp hagree
    obtain ⟨htc, -⟩ := List.forall_mem_cons.mp ht
    obtain ⟨hlater, horder⟩ := List.pairwise_cons.mp horder
    refine ⟨fun _ _ => ⟨h.inStep hc htc, unrewarded_exact⟩, ?_⟩
    exact ih (h.check hc htc) hagree hlater horder

/-- Where an answer comes from. -/
theorem checks_split {answers rest : List (RateLimitCall × RateLimitDecision)}
    {decision : RateLimitDecision} (h : (L.checks m cs).1 = answers ++ (c, decision) :: rest) :
    ∃ m' after, decision = (L.checkRateLimit m' c).1 ∧
      rest = (L.checks (L.checkRateLimit m' c).2 after).1 := by
  induction answers generalizing m cs with
  | nil =>
    cases cs with
    | nil => cases h
    | cons c' cs =>
      simp only [LuaNumbers.checks, List.nil_append, List.cons.injEq, Prod.mk.injEq] at h
      obtain ⟨⟨rfl, rfl⟩, rfl⟩ := h
      exact ⟨m, cs, rfl, rfl⟩
  | cons x answers ih =>
    cases cs with
    | nil => cases h
    | cons c' cs =>
      simp only [LuaNumbers.checks, List.cons_append, List.cons.injEq] at h
      exact ih h.2

/-- After calls on other buckets a bucket is as it was, when the next call on it is decided. -/
theorem checks_split_other {between rest : List (RateLimitCall × RateLimitDecision)}
    {decision : RateLimitDecision} (h : (L.checks m cs).1 = between ++ (c, decision) :: rest)
    (hother : ∀ x ∈ between, ¬(x.1.scope = c.scope ∧ x.1.subject = c.subject)) :
    ∃ m', m' c.key = m c.key ∧ decision = (L.checkRateLimit m' c).1 := by
  induction between generalizing m cs with
  | nil =>
    cases cs with
    | nil => cases h
    | cons c' cs =>
      simp only [LuaNumbers.checks, List.nil_append, List.cons.injEq, Prod.mk.injEq] at h
      obtain ⟨⟨rfl, rfl⟩, -⟩ := h
      exact ⟨m, rfl, rfl⟩
  | cons x between ih =>
    cases cs with
    | nil => cases h
    | cons c' cs =>
      simp only [LuaNumbers.checks, List.cons_append, List.cons.injEq] at h
      obtain ⟨rfl, h⟩ := h
      obtain ⟨hx, hother⟩ := List.forall_mem_cons.mp hother
      obtain ⟨m', hm', hdecision⟩ := ih h hother
      exact ⟨m', hm'.trans (L.check_other hx), hdecision⟩

/-- With exact numbers what a call finds is the bucket's meter, refilled, -/
theorem found_of_some (h : m.lookup c.time c.key = some b) :
    LuaNumbers.exact.found m c = (b.meter.refill c.scope.cap c.scope.rate c.now).level := by
  unfold LuaNumbers.found
  rw [h]
  rfl

/-- or a full one. -/
theorem found_of_none (h : m.lookup c.time c.key = none) :
    LuaNumbers.exact.found m c = c.scope.cap := by
  have hfull : LuaNumbers.exact.found m c =
      min c.scope.cap (c.scope.cap + max 0 (c.now - c.now) * c.scope.rate) := by
    unfold LuaNumbers.found
    rw [h]
    rfl
  rw [hfull, sub_self, max_self, zero_mul, add_zero, min_self]

/-- No stored level is above the capacity, with exact numbers. -/
def Buckets.Capped (m : Buckets) : Prop :=
  ∀ scope subject b, m (rateLimitBucketKey scope subject) = some b → b.tokens ≤ scope.cap

theorem capped_empty : Buckets.empty.Capped := by
  intro scope subject b h
  cases h

theorem Buckets.Capped.check (hm : m.Capped) (c : RateLimitCall) :
    (checkRateLimit m c).2.Capped := by
  have hfound : LuaNumbers.exact.found m c ≤ c.scope.cap := LuaNumbers.exact.found_le_cap
  refine stored_check (P := fun scope tokens => tokens ≤ scope.cap) hm ?_ hfound
  intro _
  exact (sub_le_self _ zero_le_one).trans hfound

/-- **A denied call may come back after `retry_after`**: it finds a token. -/
theorem allowed_of_wait {m' : Buckets} (hdenied : (checkRateLimit m c).1.allowed = false)
    (hm' : m' c.key = (checkRateLimit m c).2 c.key) (hscope : c'.scope = c.scope)
    (hsubject : c'.subject = c.subject)
    (hwait : c.now + ((checkRateLimit m c).1.retryAfterSeconds : ℚ) ≤ c'.now) :
    (checkRateLimit m' c').1.allowed = true := by
  have hlevel : 1 ≤ LuaNumbers.exact.found m' c' := by
    obtain ⟨b, hstore, -, hts, hcases⟩ := LuaNumbers.exact.checkRateLimit_cases m c
    rcases hcases with ⟨-, hanswer, -⟩ | ⟨-, htokens, hanswer⟩
    · rw [hanswer] at hdenied
      cases hdenied
    have hkey : c'.key = c.key := by rw [RateLimitCall.key, hscope, hsubject]; rfl
    cases hlookup : m'.lookup c'.time c'.key with
    | none =>
      rw [found_of_none hlookup]
      exact one_le_capacity c'.scope
    | some b' =>
      have hb : b' = b := by
        have hstored := (Option.filter_eq_some_iff.mp hlookup).1
        rw [hkey, hm', hstore, Function.update_self] at hstored
        exact (Option.some.inj hstored).symm
      subst hb
      rw [found_of_some hlookup]
      apply Meter.le_refill_of_wait (refillRate_pos c'.scope) (one_le_capacity c'.scope)
      have hceil : (1 - b'.meter.level) / c.scope.rate ≤
          ((checkRateLimit m c).1.retryAfterSeconds : ℚ) := by
        have hrate : 0 < LuaNumbers.exact.rate c.scope := refillRate_pos c.scope
        have hlevel : b'.meter.level = LuaNumbers.exact.found m c := htokens
        rw [hanswer, hlevel, if_pos hrate]
        exact (Int.le_ceil _).trans (by exact_mod_cast le_max_right _ _)
      have hclock : b'.meter.clock = c.now := hts
      rw [hclock, hscope]
      linarith
  obtain ⟨-, -, -, -, ⟨-, hanswer, -⟩ | ⟨hless, -⟩⟩ :=
    LuaNumbers.exact.checkRateLimit_cases m' c'
  · rw [hanswer]
  · exact absurd hlevel (not_le.mpr hless)

/-- **The token buckets**, called with clocks that never go back and that Redis shares. -/
theorem rate_limit_bounds (calls : List RateLimitCall) (hagree : ∀ c ∈ calls, c.now = c.time)
    (horder : calls.Pairwise fun c c' => c.now ≤ c'.now) :
    (∀ scope subject b,
      (checks Buckets.empty calls).2 (rateLimitBucketKey scope subject) = some b →
        0 ≤ b.tokens ∧ b.tokens ≤ (policies scope).capacity) ∧
    (∀ scope subject (first T : ℚ), 0 ≤ T →
      (allowedWithin scope subject first (first + T) (checks Buckets.empty calls).1 : ℚ) ≤
        (policies scope).capacity + (policies scope).refillRatePerSecond * T) ∧
    ∀ before c decision between c' decision' after,
      (checks Buckets.empty calls).1 =
        before ++ (c, decision) :: (between ++ (c', decision') :: after) →
      decision.allowed = false → c'.scope = c.scope → c'.subject = c.subject →
      (∀ x ∈ between, ¬(x.1.scope = c.scope ∧ x.1.subject = c.subject)) →
      c.now + (decision.retryAfterSeconds : ℚ) ≤ c'.now → decision'.allowed = true := by
  refine ⟨?_, ?_, ?_⟩
  · intro scope subject b hb
    exact ⟨checks_induction nonneg_empty (fun _ c hm => hm.check c) scope subject b hb,
      checks_induction capped_empty (fun _ c hm => hm.check c) scope subject b hb⟩
  · intro scope subject first T hT
    have hsteady : LuaNumbers.exact.AllSteady scope subject Buckets.empty calls := by
      cases calls with
      | nil => trivial
      | cons c cs =>
        refine (synced_empty c.now).allSteady hagree ?_ horder
        exact List.forall_mem_cons.mpr ⟨le_rfl, (List.pairwise_cons.mp horder).1⟩
    refine (window_bounded le_rfl hT (fun c hc => ?_) hsteady).trans_eq (by rw [add_zero]; rfl)
    simp [hagree c hc]
  · intro before c decision between c' decision' after hsplit hdenied hscope hsubject hother hwait
    obtain ⟨m, later, rfl, hrest⟩ := checks_split hsplit
    rw [← hscope, ← hsubject] at hother
    obtain ⟨m', hm', rfl⟩ := checks_split_other hrest.symm hother
    have hkey : c'.key = c.key := by rw [RateLimitCall.key, hscope, hsubject]; rfl
    rw [hkey] at hm'
    exact allowed_of_wait hdenied hm' hscope hsubject hwait

/-- Six sign-ins of one caller at one moment: the last is denied for a minute, and allowed then. -/
theorem rate_limit_bounds_login :
    let call : ℚ → RateLimitCall := fun now => ⟨.auth, ['u'], now, now⟩
    let calls := List.replicate 6 (call 100) ++ [call 160]
    (allowedWithin .auth ['u'] 100 (100 + 60) (checks Buckets.empty calls).1 : ℚ) ≤
        (policies .auth).capacity + (policies .auth).refillRatePerSecond * 60 ∧
      (checks Buckets.empty calls).1.map (fun x => x.2) =
        List.replicate 5 ⟨true, 0⟩ ++ [⟨false, 60⟩, ⟨true, 0⟩] := by
  intro call calls
  have hagree : ∀ c ∈ calls, c.now = c.time := by decide +kernel
  have horder : calls.Pairwise fun c c' => c.now ≤ c'.now := by decide +kernel
  exact ⟨(rate_limit_bounds calls hagree horder).2.1 .auth ['u'] 100 60 (by norm_num),
    by decide +kernel⟩

end Agreement

end Chatspace
