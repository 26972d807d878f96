import BatchEngine.Core.Worker

/-!
# The branches of a worker's segments

`process_item` runs in segments, from one await point to the next. Each segment is inverted
here once: which branch it took, under which guard, and what it returned. What is proved of
a worker later is proved branch by branch and does not unfold it again.
-/

set_option autoImplicit false

namespace BatchEngine.Core

open Py (PyFloat)
open BatchEngine.Providers

/-- What a segment returns: the job and where the worker is. -/
abbrev Next := WorkerContext × WorkerState

inductive LoopBranch (ctx : WorkerContext) (h : InHand) : Next → Prop
  | cancelled (hcancel : ctx.cancelEvent = true) :
      LoopBranch ctx h (finish (emitError ctx h.item.id .cancelled .jobCancelledBeforeDispatch
        (attemptOrOne h.attempt) none))
  | aborted (hcancel : ctx.cancelEvent = false) (habort : ctx.abortEvent = true) :
      LoopBranch ctx h (finish (emitError ctx h.item.id (ctx.abortClass.head?.getD .fatalAuth)
        (abortMessage ctx) (attemptOrOne h.attempt) none))
  | refused (hcancel : ctx.cancelEvent = false) (habort : ctx.abortEvent = false)
      (hask : (ctx.circuitBreaker.allowRequest ctx.now).1 = false) :
      LoopBranch ctx h (ctx.withBreaker (ctx.circuitBreaker.allowRequest ctx.now).2,
        .breakerWait h (ctx.now + 1 / 4))
  | allowed (hcancel : ctx.cancelEvent = false) (habort : ctx.abortEvent = false)
      (hask : (ctx.circuitBreaker.allowRequest ctx.now).1 = true) :
      LoopBranch ctx h (acquirePass (ctx.withBreaker (ctx.circuitBreaker.allowRequest ctx.now).2)
        { h with attempt := h.attempt + 1 })

theorem loopTop_branch (ctx : WorkerContext) (h : InHand) : LoopBranch ctx h (loopTop ctx h) := by
  unfold loopTop
  cases hcancel : ctx.cancelEvent with
  | true => exact .cancelled hcancel
  | false =>
    cases habort : ctx.abortEvent with
    | true => exact .aborted hcancel habort
    | false =>
      cases hask : (ctx.circuitBreaker.allowRequest ctx.now).1 with
      | false =>
        simp only [hask, Bool.false_eq_true, ↓reduceIte]
        exact .refused hcancel habort hask
      | true =>
        simp only [hask, Bool.false_eq_true, ↓reduceIte]
        exact .allowed hcancel habort hask

inductive AcquireBranch (ctx : WorkerContext) (h : InHand) : Next → Prop
  | granted {bucket : TokenBucket ℚ}
      (hgrant : ctx.controller.bucket.acquire ctx.now = (none, bucket)) :
      AcquireBranch ctx h (startCall (ctx.withBucket bucket) h)
  | waits {waitS : ℚ} {bucket : TokenBucket ℚ}
      (hwait : ctx.controller.bucket.acquire ctx.now = (some waitS, bucket)) :
      AcquireBranch ctx h (ctx.withBucket bucket, .acquiring h (ctx.now + waitS))

theorem acquirePass_branch (ctx : WorkerContext) (h : InHand) :
    AcquireBranch ctx h (acquirePass ctx h) := by
  unfold acquirePass
  split
  · exact .granted ‹_›
  · exact .waits ‹_›

inductive RetryBranch {R : Type*} (W : WorkerConfig R) (ctx : WorkerContext) (h : InHand)
    (f : Failure) (u : ℚ) : Next → Prop
  | gaveUp (hmax : f.maxAttempts ≤ h.attempt) :
      RetryBranch W ctx h f u (finish (emitError ctx h.item.id
        (if f.failureClass = .throttled ∨ f.failureClass = .transient then .transientExhausted
          else f.failureClass) .maxAttemptsExhausted h.attempt f.httpStatus))
  | refused (hmax : h.attempt < f.maxAttempts) (hbudget : ctx.retryBudget.tryConsume.1 = false) :
      RetryBranch W ctx h f u (finish (emitError ctx h.item.id .transientExhausted
        .retryBudgetExhausted h.attempt f.httpStatus))
  | retried {budget : RetryBudget} (hmax : h.attempt < f.maxAttempts)
      (hbudget : ctx.retryBudget.tryConsume = (true, budget)) :
      RetryBranch W ctx h f u (issueRetry ctx budget,
        .backoff h (ctx.now + fullJitterDelay h.attempt W.retryBaseS W.retryCapS u))

section Segments

variable {R : Type*} {W : WorkerConfig R}

theorem retryOrFail_branch (W : WorkerConfig R) (ctx : WorkerContext) (h : InHand) (f : Failure)
    (u : ℚ) : RetryBranch W ctx h f u (retryOrFail W ctx h f u) := by
  unfold retryOrFail
  by_cases hmax : f.maxAttempts ≤ h.attempt
  · rw [if_pos hmax]
    exact .gaveUp hmax
  rw [if_neg hmax]
  cases hconsume : ctx.retryBudget.tryConsume with
  | mk consumed budget =>
    cases consumed with
    | false => exact .refused (not_le.mp hmax) (congrArg Prod.fst hconsume)
    | true => exact .retried (not_le.mp hmax) hconsume

/-- What follows a call that was no success. `ctx.withController _` is the job after
`record_throttle`. -/
inductive FailureBranch (W : WorkerConfig R) (ctx : WorkerContext) (h : InHand)
    (outcome : Outcome) (f : Failure) (u : ℚ) : Next → Prop
  | fatal (hfatal : f.failureClass.isFatal = true) :
      FailureBranch W ctx h outcome f u (finish (emitError (abort ctx f) h.item.id f.failureClass
        (.fatalHttp f.httpStatus) h.attempt f.httpStatus))
  | jittered {epoch : PyFloat} (hthrottled : f.failureClass = .throttled)
      (hreset : resetEpoch outcome = some epoch) (hpause : resetPause epoch ctx.wall = none) :
      FailureBranch W ctx h outcome f u
        (ctx.withController (ctx.controller.recordThrottle ctx.now),
          .resetJitter h (ctx.now + u / 4) f)
  | hung {epoch : PyFloat} (hthrottled : f.failureClass = .throttled)
      (hreset : resetEpoch outcome = some epoch)
      (hpause : resetPause epoch ctx.wall = some none) :
      FailureBranch W ctx h outcome f u
        (ctx.withController (ctx.controller.recordThrottle ctx.now), .resetWait h none f)
  | paused {epoch : PyFloat} {waitS : ℚ} (hthrottled : f.failureClass = .throttled)
      (hreset : resetEpoch outcome = some epoch)
      (hpause : resetPause epoch ctx.wall = some (some waitS)) :
      FailureBranch W ctx h outcome f u
        (ctx.withController (ctx.controller.recordThrottle ctx.now),
          .resetWait h (some (ctx.now + waitS)) f)
  | throttled (hthrottled : f.failureClass = .throttled) (hreset : resetEpoch outcome = none) :
      FailureBranch W ctx h outcome f u
        (retryOrFail W (ctx.withController (ctx.controller.recordThrottle ctx.now)) h f u)
  | failed (hfatal : f.failureClass.isFatal = false) (hthrottled : f.failureClass ≠ .throttled) :
      FailureBranch W ctx h outcome f u (retryOrFail W ctx h f u)

theorem afterFailure_branch (W : WorkerConfig R) (ctx : WorkerContext) (h : InHand)
    (outcome : Outcome) (f : Failure) (u : ℚ) :
    FailureBranch W ctx h outcome f u (afterFailure W ctx h outcome f u) := by
  unfold afterFailure
  cases hfatal : f.failureClass.isFatal with
  | true => exact .fatal hfatal
  | false =>
    rw [if_neg Bool.false_ne_true]
    by_cases hthrottled : f.failureClass = .throttled
    · rw [if_pos hthrottled]
      cases hreset : resetEpoch outcome with
      | none => exact .throttled hthrottled hreset
      | some epoch =>
        dsimp only
        split
        · exact .jittered hthrottled hreset ‹_›
        · exact .hung hthrottled hreset ‹_›
        · exact .paused hthrottled hreset ‹_›
    · rw [if_neg hthrottled]
      exact .failed hfatal hthrottled

/-- A success that has its row: `record_success`, the row, the usage and the counters. -/
def emitSuccess (ctx : WorkerContext) (h : InHand) (resp : ProviderResponse) (start : ℚ) :
    WorkerContext :=
  emitResult ((recordOutcome ctx .success).withController (ctx.controller.recordSuccess ctx.now)) h
    resp (ctx.now - start)

inductive CallBranch (W : WorkerConfig R) (ctx : WorkerContext) (h : InHand) (start : ℚ) (r : R)
    (u : ℚ) : Bool → Next → Prop
  | succeeded {resp : ProviderResponse} (hresp : outcomeOf (W.provider.complete r) = .response resp)
      (hclass : (classify (outcomeOf (W.provider.complete r))).1 = .success)
      (hcheck : ¬ (SpendCheckDue (emitSuccess ctx h resp start).record.counts ∧
        CostOverflows (emitSuccess ctx h resp start).record.usage)) :
      CallBranch W ctx h start r u false (finish (onSpendCheck W (emitSuccess ctx h resp start)))
  | raised {resp : ProviderResponse} (hresp : outcomeOf (W.provider.complete r) = .response resp)
      (hclass : (classify (outcomeOf (W.provider.complete r))).1 = .success)
      (hraise : SpendCheckDue (emitSuccess ctx h resp start).record.counts ∧
        CostMayRaise W (emitSuccess ctx h resp start).record.usage) :
      CallBranch W ctx h start r u true (finish (emitError (emitSuccess ctx h resp start) h.item.id
        .transientExhausted .unexpectedExceptionEscapedProcessItem 1 none))
  | failed (hclass : (classify (outcomeOf (W.provider.complete r))).1 ≠ .success) :
      CallBranch W ctx h start r u false
        (afterFailure W (recordOutcome ctx (classify (outcomeOf (W.provider.complete r))).1) h
          (outcomeOf (W.provider.complete r)) (.of (outcomeOf (W.provider.complete r))) u)

theorem afterCall_branch {ctx : WorkerContext} {h : InHand} {start u : ℚ} {r : R} {raises : Bool}
    {next : Next} (hcall : afterCall W ctx h start r u raises = some next) :
    CallBranch W ctx h start r u raises next := by
  unfold afterCall at hcall
  simp only at hcall
  split at hcall
  · rename_i resp hclass hresp
    rw [show (Failure.of (outcomeOf (W.provider.complete r))).failureClass = .success from hclass]
      at hcall
    split at hcall
    · rename_i hraises
      split at hcall
      · obtain rfl := Option.some.inj hcall
        rw [hraises]
        exact .raised hresp hclass ‹_›
      · cases hcall
    · rename_i hraises
      split at hcall
      · cases hcall
      · obtain rfl := Option.some.inj hcall
        rw [Bool.eq_false_of_not_eq_true hraises]
        exact .succeeded hresp hclass ‹_›
  · rename_i hnot
    split at hcall
    · cases hcall
    · rename_i hraises
      obtain rfl := Option.some.inj hcall
      rw [Bool.eq_false_of_not_eq_true hraises]
      refine .failed fun hclass => ?_
      obtain ⟨resp, hresp, -⟩ := (classify_success_iff _).mp hclass
      exact hnot resp hclass hresp

/-- Whatever the answer, the segment ends: it returns, or the spend check raises where it
has to. -/
theorem afterCall_ends (W : WorkerConfig R) (ctx : WorkerContext) (h : InHand) (start : ℚ) (r : R)
    (u : ℚ) : ∃ raises next, afterCall W ctx h start r u raises = some next ∧
      (raises = true → afterCall W ctx h start r u false = none) := by
  cases hreturns : afterCall W ctx h start r u false with
  | some next => exact ⟨false, next, hreturns, fun hraises => by cases hraises⟩
  | none =>
    refine ⟨true, ?_⟩
    unfold afterCall at hreturns ⊢
    simp only [Bool.false_eq_true, ↓reduceIte] at hreturns ⊢
    split at hreturns
    · split at hreturns
      · rename_i hover
        exact ⟨_, if_pos ⟨hover.1, Or.inr hover.2⟩, fun _ => trivial⟩
      · cases hreturns
    · cases hreturns

/-- What wakes a worker, and the segment that it then runs. -/
inductive StepBranch (W : WorkerConfig R) (ctx : WorkerContext) :
    WorkerState → WorkerInput R → Next → Prop
  | took {x : Queued} {q : BoundedQueue Queued} (hget : ctx.queue.get = some (x, q)) :
      StepBranch W ctx .idle .take (takeItem (ctx.withQueue q) x)
  | asked {h : InHand} {wake u : ℚ} (hwake : wake ≤ ctx.now) :
      StepBranch W ctx (.breakerWait h wake) (.wake u) (loopTop ctx h)
  | acquired {h : InHand} {wake u : ℚ} (hwake : wake ≤ ctx.now) :
      StepBranch W ctx (.acquiring h wake) (.wake u) (acquirePass ctx h)
  | replied {h : InHand} {start u : ℚ} {r : R} {raises : Bool} {next : Next} (hdraw : IsDraw u)
      (hcall : CallBranch W ctx h start r u raises next) :
      StepBranch W ctx (.calling h start) (.reply r u raises) next
  | jittered {h : InHand} {wake u : ℚ} {f : Failure} (hwake : wake ≤ ctx.now) (hdraw : IsDraw u) :
      StepBranch W ctx (.resetWait h (some wake) f) (.wake u)
        (ctx, .resetJitter h (ctx.now + u / 4) f)
  | resumed {h : InHand} {wake u : ℚ} {f : Failure} (hwake : wake ≤ ctx.now) (hdraw : IsDraw u) :
      StepBranch W ctx (.resetJitter h wake f) (.wake u) (retryOrFail W ctx h f u)
  | looped {h : InHand} {wake u : ℚ} (hwake : wake ≤ ctx.now) :
      StepBranch W ctx (.backoff h wake) (.wake u) (loopTop ctx h)

theorem workerStep_branch {ctx : WorkerContext} {ws : WorkerState} {input : WorkerInput R}
    {next : Next} (hstep : workerStep W ctx ws input = some next) :
    StepBranch W ctx ws input next := by
  unfold workerStep at hstep
  split at hstep
  · obtain ⟨⟨x, q⟩, hget, rfl⟩ := Option.map_eq_some_iff.mp hstep
    exact .took hget
  · split at hstep
    · obtain rfl := Option.some.inj hstep
      exact .asked ‹_›
    · cases hstep
  · split at hstep
    · obtain rfl := Option.some.inj hstep
      exact .acquired ‹_›
    · cases hstep
  · split at hstep
    · exact .replied ‹_› (afterCall_branch hstep)
    · cases hstep
  · split at hstep
    · obtain rfl := Option.some.inj hstep
      exact .jittered (And.left ‹_›) (And.right ‹_›)
    · cases hstep
  · split at hstep
    · obtain rfl := Option.some.inj hstep
      exact .resumed (And.left ‹_›) (And.right ‹_›)
    · cases hstep
  · split at hstep
    · obtain rfl := Option.some.inj hstep
      exact .looped ‹_›
    · cases hstep
  · cases hstep

end Segments

end BatchEngine.Core
