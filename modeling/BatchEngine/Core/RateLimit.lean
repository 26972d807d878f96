import BatchEngine.Lib.PyValue

/-!
# Token bucket and AIMD controller

The bucket paces requests; the controller moves its rate. Both read the clock
through an argument `now`. Arithmetic is over any ordered field: the run of a job
uses the rationals, the pacing law is stated over the reals.
-/

set_option autoImplicit false

namespace BatchEngine.Core

open Py (PyFloat)

structure TokenBucket (K : Type*) where
  rate : K
  capacity : K
  tokens : K
  lastRefill : K
  deriving DecidableEq, Repr

namespace TokenBucket

variable {K : Type*} [Field K] [LinearOrder K]

def new (rate capacity now : K) : TokenBucket K := ⟨rate, capacity, capacity, now⟩

def refill (b : TokenBucket K) (now : K) : TokenBucket K :=
  let elapsed := max 0 (now - b.lastRefill)
  { b with tokens := min b.capacity (b.tokens + elapsed * b.rate), lastRefill := now }

/-- The sleep of a caller that found less than one token. -/
def waitS (b : TokenBucket K) : K :=
  let deficit := 1 - b.tokens
  max (if 0 < b.rate then deficit / b.rate else 1 / 20) (1 / 1000)

/-- One pass of the loop of `acquire`. `none` is a token taken; `some w` is a sleep
of `w` seconds before the next pass. The pass holds the lock and never yields. -/
def acquire (b : TokenBucket K) (now : K) : Option K × TokenBucket K :=
  if 1 ≤ (b.refill now).tokens then
    (none, { b.refill now with tokens := (b.refill now).tokens - 1 })
  else (some (b.refill now).waitS, b.refill now)

def setRate (b : TokenBucket K) (now rate : K) : TokenBucket K :=
  { b.refill now with rate := max rate (1 / 1000000) }

@[simp] theorem refill_rate (b : TokenBucket K) (now : K) : (b.refill now).rate = b.rate := rfl
@[simp] theorem refill_capacity (b : TokenBucket K) (now : K) :
    (b.refill now).capacity = b.capacity := rfl
@[simp] theorem refill_lastRefill (b : TokenBucket K) (now : K) :
    (b.refill now).lastRefill = now := rfl
@[simp] theorem setRate_capacity (b : TokenBucket K) (now r : K) :
    (b.setRate now r).capacity = b.capacity := rfl
@[simp] theorem setRate_rate (b : TokenBucket K) (now r : K) :
    (b.setRate now r).rate = max r (1 / 1000000) := rfl

/-- What one pass does, whether or not it takes a token. -/
theorem acquire_cases (b : TokenBucket K) (now : K) :
    (1 ≤ (b.refill now).tokens ∧
      b.acquire now = (none, { b.refill now with tokens := (b.refill now).tokens - 1 })) ∨
    ((b.refill now).tokens < 1 ∧ b.acquire now = (some (b.refill now).waitS, b.refill now)) := by
  unfold acquire
  by_cases h : 1 ≤ (b.refill now).tokens
  · exact Or.inl ⟨h, if_pos h⟩
  · exact Or.inr ⟨not_le.mp h, if_neg h⟩

@[simp] theorem acquire_rate (b : TokenBucket K) (now : K) : (b.acquire now).2.rate = b.rate := by
  rcases acquire_cases b now with ⟨_, h⟩ | ⟨_, h⟩ <;> rw [h] <;> rfl

@[simp] theorem acquire_capacity (b : TokenBucket K) (now : K) :
    (b.acquire now).2.capacity = b.capacity := by
  rcases acquire_cases b now with ⟨_, h⟩ | ⟨_, h⟩ <;> rw [h] <;> rfl

end TokenBucket

/-- The AIMD controller around the job's bucket. `lastDecreaseAt = none` is the
initial minus infinity. -/
structure AdaptiveController where
  bucket : TokenBucket ℚ
  minRate : ℚ
  maxRate : ℚ
  decreaseFactor : ℚ := 3 / 4
  increaseStep : ℚ := 1 / 2
  successStreakForIncrease : ℕ := 50
  cooldownS : ℚ := 5
  consecutiveSuccesses : ℕ := 0
  lastDecreaseAt : Option ℚ := none
  throttleEvents429 : ℕ := 0
  retriesIssued : ℕ := 0
  deriving DecidableEq, Repr

namespace AdaptiveController

def recordSuccess (c : AdaptiveController) (now : ℚ) : AdaptiveController :=
  if c.successStreakForIncrease ≤ c.consecutiveSuccesses + 1 then
    { c with bucket := c.bucket.setRate now (min c.maxRate (c.bucket.rate + c.increaseStep)),
             consecutiveSuccesses := 0 }
  else { c with consecutiveSuccesses := c.consecutiveSuccesses + 1 }

/-- `now - self._last_decrease_at >= self.cooldown_s`. -/
def cooled (c : AdaptiveController) (now : ℚ) : Bool :=
  match c.lastDecreaseAt with
  | none => true
  | some last => c.cooldownS ≤ now - last

/-- Every 429 is counted, but the rate only decreases once per cooldown window. -/
def recordThrottle (c : AdaptiveController) (now : ℚ) : AdaptiveController :=
  if c.cooled now then
    { c with throttleEvents429 := c.throttleEvents429 + 1, consecutiveSuccesses := 0,
             bucket := c.bucket.setRate now (max c.minRate (c.bucket.rate * c.decreaseFactor)),
             lastDecreaseAt := some now }
  else { c with throttleEvents429 := c.throttleEvents429 + 1, consecutiveSuccesses := 0 }

def recordRetryIssued (c : AdaptiveController) : AdaptiveController :=
  { c with retriesIssued := c.retriesIssued + 1 }

@[simp] theorem recordSuccess_retriesIssued (c : AdaptiveController) (now : ℚ) :
    (c.recordSuccess now).retriesIssued = c.retriesIssued := by
  unfold recordSuccess
  split <;> rfl

@[simp] theorem recordThrottle_retriesIssued (c : AdaptiveController) (now : ℚ) :
    (c.recordThrottle now).retriesIssued = c.retriesIssued := by
  unfold recordThrottle
  split <;> rfl

@[simp] theorem recordRetryIssued_retriesIssued (c : AdaptiveController) :
    c.recordRetryIssued.retriesIssued = c.retriesIssued + 1 := rfl

@[simp] theorem recordRetryIssued_bucket (c : AdaptiveController) :
    c.recordRetryIssued.bucket = c.bucket := rfl

end AdaptiveController

/-- The first sleep of `honor_reset_header`: `none` when there is none to make,
`some none` when the reset never comes. The jitter sleep follows it. -/
def resetPause (resetEpoch : PyFloat) (now : ℚ) : Option (Option ℚ) :=
  match resetEpoch with
  | .fin e => if 0 < max 0 (e - now) then some (some (max 0 (e - now))) else none
  | .posInf => some none
  | _ => none

end BatchEngine.Core
