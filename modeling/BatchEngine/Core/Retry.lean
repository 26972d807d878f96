import BatchEngine.Core.Models
import BatchEngine.Providers.Base
import Mathlib.Data.Rat.Floor

/-!
# Failure classification, backoff, retry budget and circuit breaker
-/

set_option autoImplicit false

namespace BatchEngine.Core

open BatchEngine.Providers

/-- What `process_item` makes of one call before it classifies it: every exception
has been turned into a `ProviderTransportError`. -/
inductive Outcome where
  | response (r : ProviderResponse)
  | transportError
  deriving DecidableEq, Repr

def Outcome.httpStatus : Outcome → Option ℤ
  | .response r => some r.statusCode
  | .transportError => none

/-- http status to failure class and maximal number of attempts, the first included. -/
def statusTable : List (ℤ × FailureClass × ℕ) :=
  [(408, .transient, 5), (429, .throttled, 8), (500, .transient, 5), (502, .transient, 5),
   (503, .transient, 5), (504, .transient, 5), (400, .invalidInput, 1), (422, .invalidInput, 1),
   (413, .invalidInput, 1), (401, .fatalAuth, 1), (403, .fatalAuth, 1), (402, .fatalBilling, 1)]

def defaultMaxAttempts : ℕ := 5

def classify : Outcome → FailureClass × ℕ
  | .transportError => (.transient, defaultMaxAttempts)
  | .response r =>
    if r.statusCode = 200 then
      if r.malformed then (.transient, 2) else (.success, 1)
    else match Dict.get? statusTable r.statusCode with
      | some entry => entry
      | none => (.transient, defaultMaxAttempts)

/-- The four ways a call is classified. -/
theorem classify_cases (o : Outcome) :
    (∃ r, o = .response r ∧ r.statusCode = 200 ∧ r.malformed = false ∧ classify o = (.success, 1)) ∨
    (∃ r, o = .response r ∧ r.statusCode = 200 ∧ r.malformed = true ∧ classify o = (.transient, 2)) ∨
    (∃ r, ∃ p ∈ statusTable, o = .response r ∧ r.statusCode = p.1 ∧ classify o = p.2) ∨
    classify o = (.transient, defaultMaxAttempts) := by
  cases o with
  | transportError => exact Or.inr (Or.inr (Or.inr rfl))
  | response r =>
    simp only [classify]
    by_cases h200 : r.statusCode = 200
    · cases hm : r.malformed with
      | false => exact Or.inl ⟨r, rfl, h200, hm, by simp [h200]⟩
      | true => exact Or.inr (Or.inl ⟨r, rfl, h200, hm, by simp [h200]⟩)
    · cases he : Dict.get? statusTable r.statusCode with
      | none => exact Or.inr (Or.inr (Or.inr (by simp [h200])))
      | some entry =>
        exact Or.inr (Or.inr (Or.inl ⟨r, _, Dict.mem_of_get? he, rfl, rfl, by simp [h200]⟩))

/-- No class allows more than the eight attempts of a throttled item. -/
theorem classify_maxAttempts_le (o : Outcome) : (classify o).2 ≤ 8 := by
  rcases classify_cases o with ⟨_, _, _, _, h⟩ | ⟨_, _, _, _, h⟩ | ⟨_, p, hp, _, _, h⟩ | h
  · rw [h]; decide
  · rw [h]; decide
  · have htable : ∀ p ∈ statusTable, p.2.2 ≤ 8 := by decide
    rw [h]
    exact htable p hp
  · rw [h]; decide

/-- A call is a success exactly when it is a well-formed 200. -/
theorem classify_success_iff (o : Outcome) :
    (classify o).1 = .success ↔ ∃ r, o = .response r ∧ r.statusCode = 200 ∧ r.malformed = false := by
  constructor
  · intro hs
    rcases classify_cases o with ⟨r, ho, h200, hm, _⟩ | ⟨_, _, _, _, h⟩ | ⟨_, p, hp, _, _, h⟩ | h
    · exact ⟨r, ho, h200, hm⟩
    · rw [h] at hs; cases hs
    · have htable : ∀ p ∈ statusTable, p.2.1 ≠ .success := by decide
      rw [h] at hs
      exact absurd hs (htable p hp)
    · rw [h] at hs; cases hs
  · rintro ⟨r, rfl, h200, hm⟩
    simp [classify, h200, hm]

/-- The statuses that the input or the account is to blame for. -/
def FailureClass.statuses : FailureClass → List ℤ
  | invalidInput => [400, 413, 422]
  | fatalAuth => [401, 403]
  | fatalBilling => [402]
  | _ => []

def Outcome.HasStatus (o : Outcome) (codes : List ℤ) : Prop :=
  ∃ code ∈ codes, o.httpStatus = some code

theorem classify_status (o : Outcome) :
    (classify o).1 ≠ .transientExhausted ∧ (classify o).1 ≠ .cancelled ∧
      ((classify o).1 = .invalidInput ∨ (classify o).1.isFatal = true →
        o.HasStatus (classify o).1.statuses) := by
  rcases classify_cases o with ⟨_, _, _, _, h⟩ | ⟨_, _, _, _, h⟩ | ⟨r, p, hp, rfl, hcode, h⟩ | h
  · rw [h]
    exact ⟨nofun, nofun, nofun⟩
  · rw [h]
    exact ⟨nofun, nofun, nofun⟩
  · have htable : ∀ p ∈ statusTable, p.2.1 ≠ .transientExhausted ∧ p.2.1 ≠ .cancelled ∧
        (p.2.1 = .invalidInput ∨ p.2.1.isFatal = true → p.1 ∈ p.2.1.statuses) := by decide
    obtain ⟨hexhausted, hcancelled, hblamed⟩ := htable p hp
    rw [h]
    exact ⟨hexhausted, hcancelled, fun hclass => ⟨p.1, hblamed hclass, congrArg some hcode⟩⟩
  · rw [h]
    exact ⟨nofun, nofun, nofun⟩

/-- AWS "full jitter": a draw `u` from `[0, 1]` scales the exponential envelope. -/
def fullJitterDelay (attempt : ℕ) (base cap u : ℚ) : ℚ := u * min cap (base * 2 ^ attempt)

/-- Caps total retries at a fraction of the items of the job. -/
structure RetryBudget where
  totalItems : ℕ
  fraction : ℚ := 1 / 5
  used : ℕ := 0
  deriving DecidableEq, Repr

namespace RetryBudget

def limit (b : RetryBudget) : ℕ := max 1 ⌊(b.totalItems : ℚ) * b.fraction⌋₊

def tryConsume (b : RetryBudget) : Bool × RetryBudget :=
  if b.limit ≤ b.used then (false, b) else (true, { b with used := b.used + 1 })

end RetryBudget

inductive BreakerState where
  | closed
  | opened
  | halfOpen
  deriving DecidableEq, Repr

/-- `outcomes` holds the last `window` outcomes, oldest first; `true` is a failure. -/
structure CircuitBreaker where
  window : ℕ := 100
  threshold : ℚ := 1 / 2
  cooldownS : ℚ := 30
  probeTimeoutS : ℚ := 30
  outcomes : List Bool := []
  state : BreakerState := .closed
  openedAt : ℚ := 0
  probeInFlight : Bool := false
  deriving DecidableEq, Repr

namespace CircuitBreaker

/-- `append` on a deque with `maxlen`. -/
def append (maxlen : ℕ) (outcomes : List Bool) (x : Bool) : List Bool :=
  (outcomes ++ [x]).drop ((outcomes ++ [x]).length - maxlen)

def failureRate (outcomes : List Bool) : ℚ := outcomes.count true / outcomes.length

def record (b : CircuitBreaker) (now : ℚ) (isFailure : Bool) : CircuitBreaker :=
  let outcomes := append b.window b.outcomes isFailure
  match b.state with
  | .halfOpen =>
    if isFailure then
      { b with outcomes := outcomes, probeInFlight := false, state := .opened, openedAt := now }
    else { b with outcomes := [], probeInFlight := false, state := .closed }
  | .closed =>
    if min b.window 10 ≤ outcomes.length ∧ b.threshold < failureRate outcomes then
      { b with outcomes := outcomes, state := .opened, openedAt := now }
    else { b with outcomes := outcomes }
  | .opened => { b with outcomes := outcomes }

/-- The half-open test for a probe that never reported. It is measured from the
opening of the breaker, not from the start of the probe. -/
def stale (b : CircuitBreaker) (now : ℚ) : Bool :=
  b.cooldownS + b.probeTimeoutS < now - b.openedAt

def allowRequest (b : CircuitBreaker) (now : ℚ) : Bool × CircuitBreaker :=
  match b.state with
  | .opened =>
    if b.cooldownS ≤ now - b.openedAt then
      (true, { b with state := .halfOpen, probeInFlight := true })
    else (false, b)
  | .halfOpen =>
    let b := if b.probeInFlight && b.stale now then { b with probeInFlight := false } else b
    (!b.probeInFlight, b)
  | .closed => (true, b)

/-- The first call past the cooldown takes the breaker to half-open and is allowed. -/
theorem allowRequest_opened {b : CircuitBreaker} {now : ℚ} (h : b.state = .opened) :
    b.allowRequest now =
      if b.cooldownS ≤ now - b.openedAt then
        (true, { b with state := .halfOpen, probeInFlight := true })
      else (false, b) := by
  unfold allowRequest
  simp only [h]

theorem allowRequest_closed {b : CircuitBreaker} {now : ℚ} (h : b.state = .closed) :
    b.allowRequest now = (true, b) := by
  unfold allowRequest
  simp only [h]

/-- In half-open a call is refused only while a probe is out and not yet stale. -/
theorem allowRequest_halfOpen {b : CircuitBreaker} {now : ℚ} (h : b.state = .halfOpen) :
    b.allowRequest now =
      if b.probeInFlight = true ∧ b.stale now = false then (false, b)
      else (true, { b with probeInFlight := false }) := by
  obtain ⟨window, threshold, cooldownS, probeTimeoutS, outcomes, state, openedAt, probe⟩ := b
  subst h
  unfold allowRequest
  cases probe
  · simp
  · by_cases hs : stale ⟨window, threshold, cooldownS, probeTimeoutS, outcomes, .halfOpen,
        openedAt, true⟩ now = true
    · simp [hs]
    · simp [hs]

/-- In half-open every report decides: the breaker closes or reopens. -/
theorem record_halfOpen {b : CircuitBreaker} {now : ℚ} {f : Bool} (h : b.state = .halfOpen) :
    (b.record now f).state = if f then .opened else .closed := by
  unfold record
  simp only [h]
  cases f <;> rfl

/-- A use of the breaker. Neither call suspends. -/
inductive Call where
  | allowRequest
  | record (isFailure : Bool)
  deriving DecidableEq, Repr

def onCall (b : CircuitBreaker) (c : ℚ × Call) : CircuitBreaker :=
  match c.2 with
  | .allowRequest => (b.allowRequest c.1).2
  | .record f => b.record c.1 f

def after (b : CircuitBreaker) (calls : List (ℚ × Call)) : CircuitBreaker := calls.foldl onCall b

@[simp] theorem after_nil (b : CircuitBreaker) : b.after [] = b := rfl

end CircuitBreaker

end BatchEngine.Core
