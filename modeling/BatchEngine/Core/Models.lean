import BatchEngine.Lib.Dict
import Mathlib.Data.Rat.Defs

/-!
# Domain types

The types that ingest, scheduling, retry and the sink share. Seconds, rates and
dollars are exact rationals. Token counts are integers: they are whatever the
upstream reports.
-/

set_option autoImplicit false

namespace BatchEngine.Core

/-- Every non-success outcome maps to exactly one of these. -/
inductive FailureClass where
  | success
  | throttled
  | transient
  | invalidInput
  | fatalAuth
  | fatalBilling
  | transientExhausted
  | cancelled
  deriving DecidableEq, Repr

namespace FailureClass

def value : FailureClass → String
  | success => "success"
  | throttled => "throttled"
  | transient => "transient"
  | invalidInput => "invalid_input"
  | fatalAuth => "fatal_auth"
  | fatalBilling => "fatal_billing"
  | transientExhausted => "transient_exhausted"
  | cancelled => "cancelled"

/-- Fatal classes abort the whole job rather than failing one row. -/
def isFatal (c : FailureClass) : Bool := c = fatalAuth ∨ c = fatalBilling

/-- The `errors_by_class` keys are the values, and distinct classes have distinct
keys, so the dictionary may be keyed by the class. -/
theorem value_injective : Function.Injective value := by
  intro a b h
  cases a <;> cases b <;> first | rfl | exact absurd h (by decide)

end FailureClass

inductive JobStatus where
  | queued
  | running
  | succeeded
  | partialResult
  | failed
  | cancelled
  deriving DecidableEq, Repr

namespace JobStatus

def value : JobStatus → String
  | queued => "queued"
  | running => "running"
  | succeeded => "succeeded"
  | partialResult => "partial"
  | failed => "failed"
  | cancelled => "cancelled"

def IsTerminal (s : JobStatus) : Prop :=
  s = succeeded ∨ s = partialResult ∨ s = failed ∨ s = cancelled

instance (s : JobStatus) : Decidable s.IsTerminal := inferInstanceAs (Decidable (_ ∨ _))

end JobStatus

/-- One good row of the input batch. -/
structure PromptItem where
  id : String
  prompt : String
  deriving DecidableEq, Repr

structure UsageDelta where
  inputTokens : ℤ := 0
  outputTokens : ℤ := 0
  deriving DecidableEq, Repr

/-- Why a job was aborted. `fatal` reads `f"{failure_class.value} (HTTP {http_status})"`;
`spendGuard` reads `f"spend guard: cost ${..:.4f} / projected ${..:.4f} >= cap ${..}"`. -/
inductive AbortReason where
  | fatal (failureClass : FailureClass) (httpStatus : Option ℤ)
  | spendGuard (costSoFar projected cap : ℚ)
  deriving DecidableEq, Repr

/-- The texts of the error rows. `ingest` carries the text of a row that was already
terminal when it was read. -/
inductive Message where
  | ingest (text : String)
  | jobCancelledBeforeDispatch
  | jobAborted
  | abort (reason : AbortReason)
  | fatalHttp (httpStatus : Option ℤ)
  | maxAttemptsExhausted
  | retryBudgetExhausted
  | unexpectedExceptionEscapedProcessItem
  deriving DecidableEq, Repr

structure RowResult where
  itemId : String
  responseText : String
  usage : UsageDelta
  latencyS : ℚ
  attempt : ℕ
  deriving DecidableEq, Repr

structure RowError where
  itemId : String
  failureClass : FailureClass
  message : Message
  attempt : ℕ
  httpStatus : Option ℤ := none
  deriving DecidableEq, Repr

/-- What ingestion yields: a prompt to run, or a row that already failed. -/
inductive Entry where
  | item (p : PromptItem)
  | error (e : RowError)
  deriving DecidableEq, Repr

def Entry.itemId : Entry → String
  | .item p => p.id
  | .error e => e.itemId

/-- One terminal row of the result file. -/
inductive Row where
  | result (r : RowResult)
  | error (e : RowError)
  deriving DecidableEq, Repr

def Row.itemId : Row → String
  | .result r => r.itemId
  | .error e => e.itemId

def Row.isResult : Row → Bool
  | .result _ => true
  | .error _ => false

/-- The part of a job's configuration that a run reads. `concurrency = none` sizes the
worker pool from the rate limit; `maxItems = none` reads the whole input. -/
structure JobConfig where
  concurrency : Option ℕ := none
  maxJobSpendUsd : ℚ := 1 / 4
  maxItems : Option ℕ := none
  deriving DecidableEq, Repr

/-- `in_flight` and `pending` are decremented by the code without a check, so they
are integers here. -/
structure JobCounts where
  ingested : ℕ := 0
  succeeded : ℕ := 0
  failed : ℕ := 0
  inFlight : ℤ := 0
  pending : ℤ := 0
  deriving DecidableEq, Repr

/-- Every ingested item is accounted for exactly once. -/
def JobCounts.conserved (c : JobCounts) : Prop := c.succeeded + c.failed = c.ingested

instance (c : JobCounts) : Decidable c.conserved := inferInstanceAs (Decidable (_ = _))

structure UsageTotals where
  inputTokens : ℤ := 0
  outputTokens : ℤ := 0
  estimatedCostUsd : ℚ := 0
  deriving DecidableEq, Repr

/-- The part of a job record that a run writes. -/
structure JobRecord where
  status : JobStatus := .queued
  counts : JobCounts := {}
  finishedAt : Option ℚ := none
  usage : UsageTotals := {}
  errorsByClass : List (FailureClass × ℕ) := []
  abortReason : Option AbortReason := none
  deriving DecidableEq, Repr

end BatchEngine.Core
