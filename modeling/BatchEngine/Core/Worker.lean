import BatchEngine.Core.RateLimit
import BatchEngine.Core.Retry
import BatchEngine.Core.Sink
import BatchEngine.Lib.BoundedQueue

/-!
# The worker loop

A worker is a small machine. Its state is the await point at which it is suspended,
with the item in its hand, and one step is the code from there to the next await
point. `sink.submit`, the lock of the bucket and the spend check never suspend.
-/

set_option autoImplicit false

namespace BatchEngine.Core

open Py (PyFloat)
open BatchEngine.Providers

/-- An ingested entry with its place in the ingest order. -/
structure Ticket where
  seq : ℕ
  entry : Entry
  deriving DecidableEq, Repr

inductive Queued where
  | ticket (t : Ticket)
  | shutdown
  deriving DecidableEq, Repr

/-- One call of `provider.complete`, as the upstream sees it start. -/
structure Call where
  seq : ℕ
  attempt : ℕ
  deriving DecidableEq, Repr

/-- The item that a worker drives, and the attempts begun so far. -/
structure InHand where
  seq : ℕ
  item : PromptItem
  attempt : ℕ
  deriving DecidableEq, Repr

def InHand.ticket (h : InHand) : Ticket := ⟨h.seq, .item h.item⟩

/-- What `classify` made of a call. -/
structure Failure where
  failureClass : FailureClass
  maxAttempts : ℕ
  httpStatus : Option ℤ
  capped : maxAttempts ≤ 8
  deriving DecidableEq, Repr

def Failure.of (outcome : Outcome) : Failure :=
  ⟨(classify outcome).1, (classify outcome).2, outcome.httpStatus, classify_maxAttempts_le outcome⟩

/-- The await points. A `wake` is the clock value at which the sleep ends; `none` never
comes. -/
inductive WorkerState where
  | idle
  | breakerWait (h : InHand) (wake : ℚ)
  | acquiring (h : InHand) (wake : ℚ)
  | calling (h : InHand) (start : ℚ)
  | resetWait (h : InHand) (wake : Option ℚ) (f : Failure)
  | resetJitter (h : InHand) (wake : ℚ) (f : Failure)
  | backoff (h : InHand) (wake : ℚ)
  | returned
  deriving DecidableEq, Repr

namespace WorkerState

def hand : WorkerState → Option InHand
  | idle | returned => none
  | breakerWait h _ | acquiring h _ | calling h _ | resetWait h _ _ | resetJitter h _ _
  | backoff h _ => some h

def isCalling : WorkerState → Bool
  | calling _ _ => true
  | _ => false

def isAcquiring : WorkerState → Bool
  | acquiring _ _ => true
  | _ => false

end WorkerState

/-- What every worker of a job reads and none writes. -/
structure WorkerConfig (R : Type*) where
  provider : InferenceProvider R
  config : JobConfig := {}
  retryBaseS : ℚ := 1 / 2
  retryCapS : ℚ := 30

/-- What the workers of a job share. `counts`, `usage` and `errors_by_class` are those
of the job record. `calls` is the upstream's view. -/
structure WorkerContext where
  now : ℚ
  wall : ℚ
  queue : BoundedQueue Queued
  controller : AdaptiveController
  circuitBreaker : CircuitBreaker
  retryBudget : RetryBudget
  sink : ResultSink
  record : JobRecord
  abortEvent : Bool := false
  cancelEvent : Bool := false
  abortReason : List AbortReason := []
  abortClass : List FailureClass := []
  calls : List Call := []
  deriving DecidableEq, Repr

namespace WorkerContext

def withQueue (ctx : WorkerContext) (queue : BoundedQueue Queued) : WorkerContext :=
  { ctx with queue }

def withController (ctx : WorkerContext) (controller : AdaptiveController) : WorkerContext :=
  { ctx with controller }

def withBucket (ctx : WorkerContext) (bucket : TokenBucket ℚ) : WorkerContext :=
  { ctx with controller.bucket := bucket }

def withBreaker (ctx : WorkerContext) (circuitBreaker : CircuitBreaker) : WorkerContext :=
  { ctx with circuitBreaker }

end WorkerContext

/-! ## Bookkeeping -/

def bumpErrorClass (record : JobRecord) (failureClass : FailureClass) : JobRecord :=
  { record with errorsByClass := Dict.bump record.errorsByClass failureClass }

/-- A terminal error row: to the sink, then to the counters. -/
def passError (ctx : WorkerContext) (e : RowError) : WorkerContext :=
  { ctx with
    sink := ctx.sink.submit (.error e)
    record := bumpErrorClass
      { ctx.record with
        counts.failed := ctx.record.counts.failed + 1
        counts.pending := ctx.record.counts.pending - 1 } e.failureClass }

def emitError (ctx : WorkerContext) (itemId : String) (failureClass : FailureClass)
    (message : Message) (attempt : ℕ) (httpStatus : Option ℤ) : WorkerContext :=
  passError ctx { itemId, failureClass, message, attempt, httpStatus }

/-- The success row, the usage and the counters. -/
def emitResult (ctx : WorkerContext) (h : InHand) (resp : ProviderResponse) (latencyS : ℚ) :
    WorkerContext :=
  { ctx with
    sink := ctx.sink.submit (.result
      { itemId := h.item.id, responseText := resp.text,
        usage := ⟨resp.inputTokens, resp.outputTokens⟩, latencyS, attempt := h.attempt })
    record := { ctx.record with
      usage.inputTokens := ctx.record.usage.inputTokens + resp.inputTokens
      usage.outputTokens := ctx.record.usage.outputTokens + resp.outputTokens
      counts.succeeded := ctx.record.counts.succeeded + 1
      counts.pending := ctx.record.counts.pending - 1 } }

/-- `process_item` is over: `task_done`, and back to the queue. -/
def finish (ctx : WorkerContext) : WorkerContext × WorkerState :=
  (ctx.withQueue ctx.queue.taskDone, .idle)

/-! ## The spend check that the job passes to its workers -/

section SpendCheck

variable {R : Type*} (W : WorkerConfig R)

/-- What the cost of a usage comes to, where it can be computed. -/
def costUsd (usage : UsageTotals) : ℚ :=
  usage.inputTokens / 1000000 * W.provider.costPer1mInput +
    usage.outputTokens / 1000000 * W.provider.costPer1mOutput

/-- `tokens / 1_000_000` raises `OverflowError`: no float holds the quotient. -/
def DivisionOverflows (tokens : ℤ) : Prop := Py.floatBound * 1000000 ≤ tokens.natAbs

instance (tokens : ℤ) : Decidable (DivisionOverflows tokens) := inferInstanceAs (Decidable (_ ≤ _))

def CostOverflows (usage : UsageTotals) : Prop :=
  DivisionOverflows usage.inputTokens ∨ DivisionOverflows usage.outputTokens

instance (usage : UsageTotals) : Decidable (CostOverflows usage) :=
  inferInstanceAs (Decidable (_ ∨ _))

/-- Computing the cost can raise: a division overflows, or a cost method may raise. -/
def CostMayRaise (usage : UsageTotals) : Prop :=
  W.provider.costMayRaise = true ∨ CostOverflows usage

instance (usage : UsageTotals) : Decidable (CostMayRaise W usage) :=
  inferInstanceAs (Decidable (_ ∨ _))

def done (counts : JobCounts) : ℕ := counts.succeeded + counts.failed

/-- The check looks at the cost only on these counts. -/
def SpendCheckDue (counts : JobCounts) : Prop := ¬ (done counts = 0 ∨ done counts % 50 ≠ 0)

instance (counts : JobCounts) : Decidable (SpendCheckDue counts) :=
  inferInstanceAs (Decidable (¬ _))

def projectedUsd (record : JobRecord) : ℚ :=
  costUsd W record.usage / done record.counts *
    (max record.counts.ingested (done record.counts) : ℕ)

def OverCap (record : JobRecord) : Prop :=
  W.config.maxJobSpendUsd ≤ costUsd W record.usage ∨
    W.config.maxJobSpendUsd ≤ projectedUsd W record

instance (record : JobRecord) : Decidable (OverCap W record) := inferInstanceAs (Decidable (_ ∨ _))

/-- The check when it returns. -/
def onSpendCheck (ctx : WorkerContext) : WorkerContext :=
  if SpendCheckDue ctx.record.counts ∧ OverCap W ctx.record then
    { ctx with
      abortReason :=
        if ctx.abortEvent then ctx.abortReason
        else ctx.abortReason ++ [.spendGuard (costUsd W ctx.record.usage)
          (projectedUsd W ctx.record) W.config.maxJobSpendUsd]
      abortEvent := true }
  else ctx

end SpendCheck

/-! ## `process_item`, from one await point to the next -/

/-- `attempt or 1`. -/
def attemptOrOne (attempt : ℕ) : ℕ := if attempt = 0 then 1 else attempt

def startCall (ctx : WorkerContext) (h : InHand) : WorkerContext × WorkerState :=
  ({ ctx with
      record := { ctx.record with counts.inFlight := ctx.record.counts.inFlight + 1 }
      calls := ctx.calls ++ [⟨h.seq, h.attempt⟩] },
    .calling h ctx.now)

/-- One pass of `bucket.acquire`, and the call when it got a token. -/
def acquirePass (ctx : WorkerContext) (h : InHand) : WorkerContext × WorkerState :=
  match ctx.controller.bucket.acquire ctx.now with
  | (none, bucket) => startCall (ctx.withBucket bucket) h
  | (some waitS, bucket) => (ctx.withBucket bucket, .acquiring h (ctx.now + waitS))

/-- The consumption of a retry. -/
def issueRetry (ctx : WorkerContext) (retryBudget : RetryBudget) : WorkerContext :=
  { ctx with retryBudget, controller := ctx.controller.recordRetryIssued }

def abortMessage (ctx : WorkerContext) : Message :=
  match ctx.abortReason.head? with
  | some reason => .abort reason
  | none => .jobAborted

/-- The top of the retry loop. -/
def loopTop (ctx : WorkerContext) (h : InHand) : WorkerContext × WorkerState :=
  if ctx.cancelEvent then
    finish (emitError ctx h.item.id .cancelled .jobCancelledBeforeDispatch
      (attemptOrOne h.attempt) none)
  else if ctx.abortEvent then
    finish (emitError ctx h.item.id (ctx.abortClass.head?.getD .fatalAuth) (abortMessage ctx)
      (attemptOrOne h.attempt) none)
  else
    let (allowed, breaker) := ctx.circuitBreaker.allowRequest ctx.now
    if allowed then acquirePass (ctx.withBreaker breaker) { h with attempt := h.attempt + 1 }
    else (ctx.withBreaker breaker, .breakerWait h (ctx.now + 1 / 4))

/-- The end of the loop body: give up, or consume a retry and back off. -/
def retryOrFail {R : Type*} (W : WorkerConfig R) (ctx : WorkerContext) (h : InHand) (f : Failure)
    (u : ℚ) : WorkerContext × WorkerState :=
  if f.maxAttempts ≤ h.attempt then
    let finalClass :=
      if f.failureClass = .throttled ∨ f.failureClass = .transient then .transientExhausted
      else f.failureClass
    finish (emitError ctx h.item.id finalClass .maxAttemptsExhausted h.attempt f.httpStatus)
  else
    let (consumed, budget) := ctx.retryBudget.tryConsume
    if consumed then
      (issueRetry ctx budget,
        .backoff h (ctx.now + fullJitterDelay h.attempt W.retryBaseS W.retryCapS u))
    else
      finish (emitError ctx h.item.id .transientExhausted .retryBudgetExhausted h.attempt
        f.httpStatus)

/-- Every exception of the provider becomes a transport error. -/
def outcomeOf : CallResult → Outcome
  | .returned resp => .response resp
  | .transportError | .otherException => .transportError

def breakerFailure (c : FailureClass) : Bool :=
  c = .transient ∨ c = .fatalAuth ∨ c = .fatalBilling

/-- `in_flight -= 1`, then the report to the breaker. -/
def recordOutcome (ctx : WorkerContext) (c : FailureClass) : WorkerContext :=
  { ctx with
    record := { ctx.record with counts.inFlight := ctx.record.counts.inFlight - 1 }
    circuitBreaker := ctx.circuitBreaker.record ctx.now (breakerFailure c) }

/-- `float(reset_header)` when it is positive. -/
def resetEpoch (outcome : Outcome) : Option PyFloat :=
  match outcome with
  | .transportError => none
  | .response resp =>
    match Dict.get? resp.headers "x-ratelimit-reset-requests" with
    | none => none
    | some header =>
      if header = "" then none
      else match Py.floatOfString header with
        | some (.fin q) => if 0 < q then some (.fin q) else none
        | some .posInf => some .posInf
        | _ => none

/-- A fatal answer: the class and its reason, and the event that stops the job. -/
def abort (ctx : WorkerContext) (f : Failure) : WorkerContext :=
  { ctx with
    abortReason := ctx.abortReason ++ [.fatal f.failureClass f.httpStatus]
    abortClass := ctx.abortClass ++ [f.failureClass]
    abortEvent := true }

/-- What follows a call that was no success. -/
def afterFailure {R : Type*} (W : WorkerConfig R) (ctx : WorkerContext) (h : InHand)
    (outcome : Outcome) (f : Failure) (u : ℚ) : WorkerContext × WorkerState :=
  if f.failureClass.isFatal then
    finish (emitError (abort ctx f) h.item.id f.failureClass (.fatalHttp f.httpStatus) h.attempt
      f.httpStatus)
  else if f.failureClass = .throttled then
    let ctx := ctx.withController (ctx.controller.recordThrottle ctx.now)
    match resetEpoch outcome with
    | none => retryOrFail W ctx h f u
    | some epoch =>
      match resetPause epoch ctx.wall with
      | none => (ctx, .resetJitter h (ctx.now + u / 4) f)
      | some none => (ctx, .resetWait h none f)
      | some (some waitS) => (ctx, .resetWait h (some (ctx.now + waitS)) f)
  else retryOrFail W ctx h f u

/-- From the reply to the next await. `raises` is the spend check raising, which the safety
net of `worker_loop` turns into a second row. -/
def afterCall {R : Type*} (W : WorkerConfig R) (ctx : WorkerContext) (h : InHand) (start : ℚ)
    (r : R) (u : ℚ) (raises : Bool) : Option (WorkerContext × WorkerState) :=
  let outcome := outcomeOf (W.provider.complete r)
  let f := Failure.of outcome
  let ctx := recordOutcome ctx f.failureClass
  match f.failureClass, outcome with
  | .success, .response resp =>
    let ctx := emitResult (ctx.withController (ctx.controller.recordSuccess ctx.now)) h resp
      (ctx.now - start)
    if raises then
      if SpendCheckDue ctx.record.counts ∧ CostMayRaise W ctx.record.usage then
        some (finish (emitError ctx h.item.id .transientExhausted
          .unexpectedExceptionEscapedProcessItem 1 none))
      else none
    else if SpendCheckDue ctx.record.counts ∧ CostOverflows ctx.record.usage then none
    else some (finish (onSpendCheck W ctx))
  | _, _ => if raises then none else some (afterFailure W ctx h outcome f u)

/-- What `worker_loop` does with what it took from the queue. -/
def takeItem (ctx : WorkerContext) : Queued → WorkerContext × WorkerState
  | .shutdown => (ctx.withQueue ctx.queue.taskDone, .returned)
  | .ticket ⟨_, .error e⟩ => finish (passError ctx e)
  | .ticket ⟨seq, .item p⟩ => loopTop ctx ⟨seq, p, 0⟩

/-! ## One step of a worker -/

/-- What wakes a worker. `u` is the random draw of the segment. -/
inductive WorkerInput (R : Type*) where
  | take
  | wake (u : ℚ)
  | reply (r : R) (u : ℚ) (raises : Bool)

def IsDraw (u : ℚ) : Prop := 0 ≤ u ∧ u ≤ 1

instance (u : ℚ) : Decidable (IsDraw u) := inferInstanceAs (Decidable (_ ∧ _))

def workerStep {R : Type*} (W : WorkerConfig R) (ctx : WorkerContext) :
    WorkerState → WorkerInput R → Option (WorkerContext × WorkerState)
  | .idle, .take => ctx.queue.get.map fun got => takeItem (ctx.withQueue got.2) got.1
  | .breakerWait h wake, .wake _ => if wake ≤ ctx.now then some (loopTop ctx h) else none
  | .acquiring h wake, .wake _ => if wake ≤ ctx.now then some (acquirePass ctx h) else none
  | .calling h start, .reply r u raises =>
    if IsDraw u then afterCall W ctx h start r u raises else none
  | .resetWait h (some wake) f, .wake u =>
    if wake ≤ ctx.now ∧ IsDraw u then some (ctx, .resetJitter h (ctx.now + u / 4) f) else none
  | .resetJitter h wake f, .wake u =>
    if wake ≤ ctx.now ∧ IsDraw u then some (retryOrFail W ctx h f u) else none
  | .backoff h wake, .wake _ => if wake ≤ ctx.now then some (loopTop ctx h) else none
  | _, _ => none

end BatchEngine.Core
