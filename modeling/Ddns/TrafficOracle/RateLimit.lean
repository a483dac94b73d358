import Ddns.Lib.FinMap
import Ddns.Lib.Js
import Ddns.Lib.Run
import Ddns.Lib.TokenBucket
import Mathlib.Tactic.Linarith
import Mathlib.Tactic.NormNum
import Mathlib.Tactic.Ring

/-!
# The rate limiter of the traffic oracle

`TokenBucketLimiter` (`services/traffic-oracle/src/rate_limit.ts`) keeps a bucket for each key. A call
that finds the clock set back moves the refill time back with it, so the time that follows is refilled
again, and more calls are allowed than the range of the clock pays for (`exampleCalls_not_limited`). The
bound holds where the clock goes forward by no more than its range (`limited_of_steady`). A definition
without a docstring is the item of the source with the same words in its name.
-/

namespace Ddns.TrafficOracle

open Runs

/-! ## Model -/

/-- The parameters of a limiter, with at least one token. -/
structure TokenBucketLimiter where
  capacity : ℚ
  refillPerSec : ℚ
  one_le_capacity : 1 ≤ capacity
  refill_nonneg : 0 ≤ refillPerSec

structure Bucket where
  tokens : ℚ
  lastRefillMs : ℚ
  deriving DecidableEq

abbrev Buckets := FinMap JsText Bucket

/-- The arguments of `allow`. -/
structure Call where
  key : JsText
  now : ℚ
  deriving DecidableEq

/-- The bucket of a key after a call, and whether it is allowed. -/
def allowFrom (l : TokenBucketLimiter) (bucket : Option Bucket) (now : ℚ) : Bucket × Bool :=
  let bucket := bucket.getD ⟨l.capacity, now⟩
  let elapsedSec := max 0 ((now - bucket.lastRefillMs) / 1000)
  let tokens := min l.capacity (bucket.tokens + elapsedSec * l.refillPerSec)
  if tokens < 1 then (⟨tokens, now⟩, false) else (⟨tokens - 1, now⟩, true)

def allow (l : TokenBucketLimiter) (buckets : Buckets) (call : Call) : Buckets × Bool :=
  let out := allowFrom l (buckets.get call.key) call.now
  (buckets.set call.key out.1, out.2)

/-! ## The law -/

/-- The decisions on the calls of a key. -/
def decisions (l : TokenBucketLimiter) (buckets : Buckets) (key : JsText) (calls : List Call) :
    List Bool :=
  ((trace (allow l) buckets calls).filter fun e => e.input.key = key).map Event.out

/-- The allowed calls of a key. -/
def allowed (l : TokenBucketLimiter) (buckets : Buckets) (key : JsText) (calls : List Call) : ℕ :=
  (decisions l buckets key calls).count true

/-- The instants of the calls of a key. -/
def clock (key : JsText) (calls : List Call) : List ℚ :=
  (calls.filter fun call => call.key = key).map Call.now

/-- The calls of a key are between two instants. -/
def Within (key : JsText) (calls : List Call) (first last : ℚ) : Prop :=
  first ≤ last ∧ ∀ now ∈ clock key calls, first ≤ now ∧ now ≤ last

/-- **The limiter limits**: the allowed calls of a key are bounded, a refused call never reduces what is
allowed later, and the decisions of a key depend on its own calls only. -/
structure Limited (l : TokenBucketLimiter) (calls : List Call) : Prop where
  bound : ∀ key first last, Within key calls first last →
    (allowed l .empty key calls : ℚ) ≤ l.capacity + l.refillPerSec * (last - first) / 1000
  refused : ∀ before call after, calls = before ++ call :: after →
    (allow l (exec (allow l) .empty before) call).2 = false → ∀ key later,
      allowed l (exec (allow l) .empty before) key later ≤
        allowed l (exec (allow l) .empty (before ++ [call])) key later
  isolated : ∀ key, decisions l .empty key calls =
    decisions l .empty key (calls.filter fun call => call.key = key)

/-- What the clock goes forward from one instant to the next. -/
def forward : List ℚ → ℚ
  | [] => 0
  | now :: later => TokenBucket.forward now later

/-- Nothing is refilled, or the clock of no key goes forward by more than its range. -/
def Steady (l : TokenBucketLimiter) (calls : List Call) : Prop :=
  l.refillPerSec = 0 ∨
    ∀ key first last, Within key calls first last → forward (clock key calls) ≤ last - first

/-! ## One key -/

section Limiter

variable {l : TokenBucketLimiter} {buckets : Buckets} {key : JsText} {calls : List Call}

/-- The decisions on calls of one key. -/
def decisionsFrom (l : TokenBucketLimiter) : Option Bucket → List ℚ → List Bool
  | _, [] => []
  | bucket, now :: later =>
    (allowFrom l bucket now).2 :: decisionsFrom l (some (allowFrom l bucket now).1) later

/-- **Isolation**: the decisions on the calls of a key come from its bucket and its instants. -/
theorem decisions_eq : decisions l buckets key calls =
    decisionsFrom l (buckets.get key) (clock key calls) := by
  induction calls generalizing buckets with
  | nil => rfl
  | cons call calls ih =>
    unfold decisions clock at ih ⊢
    rw [trace_cons, List.filter_cons, List.filter_cons, event_input]
    by_cases hkey : call.key = key
    · rw [if_pos (decide_eq_true hkey), if_pos (decide_eq_true hkey), List.map_cons, List.map_cons, ih,
        decisionsFrom, event_out]
      subst hkey
      unfold allow
      dsimp only
      rw [FinMap.get_set_self]
    · have hget : (allow l buckets call).1.get key = buckets.get key :=
        FinMap.get_set_ne _ _ fun h => hkey h.symm
      rw [if_neg (by simpa using hkey), if_neg (by simpa using hkey), ih, hget]

theorem clock_filter : clock key (calls.filter fun call => call.key = key) = clock key calls := by
  unfold clock
  rw [List.filter_filter]
  simp

/-- The rule of the bucket of a key, in milliseconds. -/
def rule (l : TokenBucketLimiter) : TokenBucket.Rule ℚ := ⟨l.capacity, l.refillPerSec / 1000⟩

/-- A bucket as one of the library; a key without one has a full one. -/
def bucketAt (l : TokenBucketLimiter) (bucket : Option Bucket) (now : ℚ) : TokenBucket.Bucket ℚ :=
  match bucket with
  | some b => ⟨b.tokens, b.lastRefillMs⟩
  | none => ⟨l.capacity, now⟩

theorem allowFrom_eq (bucket : Option Bucket) (now : ℚ) : allowFrom l bucket now =
    (⟨((rule l).take (bucketAt l bucket now) now).1.tokens, now⟩,
      ((rule l).take (bucketAt l bucket now) now).2) := by
  have helapsed (last : ℚ) : max 0 ((now - last) / 1000) * l.refillPerSec =
      max 0 (now - last) * (l.refillPerSec / 1000) := by
    rw [← zero_div (1000 : ℚ), max_div_div_right (by norm_num), zero_div]
    ring
  have hsame : (rule l).available (bucketAt l bucket now) now = min l.capacity
      ((bucket.getD ⟨l.capacity, now⟩).tokens +
        max 0 ((now - (bucket.getD ⟨l.capacity, now⟩).lastRefillMs) / 1000) * l.refillPerSec) := by
    rw [helapsed]
    cases bucket <;> rfl
  unfold allowFrom
  dsimp only
  rw [← hsame]
  unfold TokenBucket.Rule.take
  split <;> rfl

/-- The decisions of a key are those of its bucket. -/
theorem decisionsFrom_some (b : Bucket) (instants : List ℚ) :
    decisionsFrom l (some b) instants = (rule l).decisions ⟨b.tokens, b.lastRefillMs⟩ instants := by
  induction instants generalizing b with
  | nil => rfl
  | cons now later ih =>
    have hbucket : ((rule l).take ⟨b.tokens, b.lastRefillMs⟩ now).1 =
        ⟨((rule l).take ⟨b.tokens, b.lastRefillMs⟩ now).1.tokens, now⟩ := by
      unfold TokenBucket.Rule.take
      split <;> rfl
    rw [decisionsFrom, TokenBucket.Rule.decisions, ih, allowFrom_eq, hbucket]
    rfl

theorem decisionsFrom_none (now : ℚ) (later : List ℚ) : decisionsFrom l none (now :: later) =
    (rule l).decisions ⟨l.capacity, now⟩ (now :: later) := by
  rw [← decisionsFrom_some ⟨l.capacity, now⟩, decisionsFrom, decisionsFrom]
  rfl

/-! ## The bound -/

/-- **The calls that are allowed** are paid by the capacity and by what the clock goes forward. -/
theorem allowed_le (key : JsText) (calls : List Call) : (allowed l .empty key calls : ℚ) ≤
    l.capacity + l.refillPerSec * forward (clock key calls) / 1000 := by
  have hcapacity : 0 ≤ l.capacity := zero_le_one.trans l.one_le_capacity
  unfold allowed
  rw [decisions_eq, FinMap.get_empty]
  cases hclock : clock key calls with
  | nil =>
    show ((0 : ℕ) : ℚ) ≤ l.capacity + l.refillPerSec * 0 / 1000
    simpa using hcapacity
  | cons now later =>
    have hrate : 0 ≤ (rule l).rate := div_nonneg l.refill_nonneg (by norm_num)
    have hbound := TokenBucket.taken_le (r := rule l) (b := ⟨l.capacity, now⟩) hcapacity hrate hcapacity
      (now :: later)
    rw [decisionsFrom_none]
    refine hbound.trans_eq ?_
    rw [TokenBucket.forward, sub_self, max_self, zero_add]
    show l.capacity + _ * (l.refillPerSec / 1000) = _
    unfold forward
    ring

theorem Steady.bound (h : Steady l calls) {first last : ℚ} (hwithin : Within key calls first last) :
    (allowed l .empty key calls : ℚ) ≤ l.capacity + l.refillPerSec * (last - first) / 1000 := by
  refine (allowed_le key calls).trans ?_
  rcases h with hzero | hforward
  · rw [hzero, zero_mul, zero_mul]
  · have hle := mul_le_mul_of_nonneg_left (hforward key first last hwithin) l.refill_nonneg
    linarith

/-! ## Refused calls -/

/-- A refused call had a bucket. -/
theorem allowFrom_none (now : ℚ) : (allowFrom l none now).2 = true := by
  have hfull : ¬min l.capacity (l.capacity + max 0 ((now - now) / 1000) * l.refillPerSec) < 1 := by
    rw [sub_self, zero_div, max_self, zero_mul, add_zero, min_self, not_lt]
    exact l.one_le_capacity
  unfold allowFrom
  dsimp only [Option.getD_none]
  rw [if_neg hfull]

theorem allowed_of_refused {call : Call} (h : (allow l buckets call).2 = false) (key : JsText)
    (later : List Call) :
    allowed l buckets key later ≤ allowed l (allow l buckets call).1 key later := by
  unfold allowed
  rw [decisions_eq, decisions_eq]
  by_cases hkey : key = call.key
  · subst hkey
    cases hbucket : buckets.get call.key with
    | none =>
      have htrue := allowFrom_none (l := l) call.now
      unfold allow at h
      dsimp only at h
      rw [hbucket, htrue] at h
      cases h
    | some b =>
      have hget : (allow l buckets call).1.get call.key =
          some (allowFrom l (some b) call.now).1 := by
        unfold allow
        dsimp only
        rw [hbucket, FinMap.get_set_self]
      have hrefused : (allowFrom l (some b) call.now).2 = false := by
        rw [← hbucket]
        exact h
      rw [hget, decisionsFrom_some, decisionsFrom_some]
      rw [allowFrom_eq] at hrefused ⊢
      dsimp only [bucketAt] at hrefused ⊢
      have hlt : (rule l).available ⟨b.tokens, b.lastRefillMs⟩ call.now < 1 := by
        by_contra hle
        rw [TokenBucket.take_of_le (not_lt.1 hle)] at hrefused
        cases hrefused
      have hrate : 0 ≤ (rule l).rate := div_nonneg l.refill_nonneg (by norm_num)
      refine TokenBucket.taken_le_of_le (fun now => ?_) (clock call.key later)
      have hmore := TokenBucket.available_of_refused hrate l.one_le_capacity hlt now
      rw [TokenBucket.take_of_lt hlt] at hmore ⊢
      exact hmore
  · have hget : (allow l buckets call).1.get key = buckets.get key := FinMap.get_set_ne _ _ hkey
    rw [hget]

end Limiter

/-- **The limiter limits** where nothing is refilled or the clock goes forward by no more than its
range. -/
theorem limited_of_steady (l : TokenBucketLimiter) (calls : List Call) (h : Steady l calls) :
    Limited l calls where
  bound key first last hwithin := h.bound hwithin
  refused before call after _ hrefused key later := by
    rw [exec_append]
    exact allowed_of_refused hrefused key later
  isolated key := by rw [decisions_eq, decisions_eq, clock_filter]

theorem exampleCapacity_pos : 1 ≤ (1 : ℚ) := le_refl 1

/-- One token, and one more each second. -/
def exampleLimiter : TokenBucketLimiter := ⟨1, 1, exampleCapacity_pos, zero_le_one⟩

/-- Calls of one key, in milliseconds. -/
def callsAt (instants : List ℚ) : List Call := instants.map fun now => ⟨['k'], now⟩

/-- A clock that goes back once is steady if it goes forward only then. -/
theorem exampleCalls_limited : Limited exampleLimiter (callsAt [1000, 0, 500, 2000]) := by
  refine limited_of_steady exampleLimiter _ (.inr fun key first last hwithin => ?_)
  obtain ⟨hle, hclock⟩ := hwithin
  by_cases hkey : ['k'] = key
  · subst hkey
    have hzero := (hclock 0 (by decide +kernel)).1
    have hlast := (hclock 2000 (by decide +kernel)).2
    have hforward : forward (clock ['k'] (callsAt [1000, 0, 500, 2000])) = 2000 := by decide +kernel
    rw [hforward]
    linarith
  · have hnone : clock key (callsAt [1000, 0, 500, 2000]) = [] := by
      simp [clock, callsAt, hkey]
    rw [hnone]
    exact sub_nonneg.2 hle

/-- The clock is set back from one second to zero, and a second is refilled twice. -/
theorem exampleCalls_not_limited : ¬Limited exampleLimiter (callsAt [0, 1000, 0, 1000]) := by
  intro h
  have hbound := h.bound ['k'] 0 1000 (by
    refine ⟨by norm_num, fun now hnow => ?_⟩
    have hclock : clock ['k'] (callsAt [0, 1000, 0, 1000]) = [0, 1000, 0, 1000] := by decide +kernel
    rw [hclock] at hnow
    simp only [List.mem_cons, List.not_mem_nil, or_false] at hnow
    rcases hnow with rfl | rfl | rfl | rfl <;> norm_num)
  have hallowed : allowed exampleLimiter .empty ['k'] (callsAt [0, 1000, 0, 1000]) = 3 := by
    decide +kernel
  rw [hallowed] at hbound
  revert hbound
  decide +kernel

end Ddns.TrafficOracle
