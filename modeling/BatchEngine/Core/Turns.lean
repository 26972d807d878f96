import BatchEngine.Core.Segments

/-!
# What one turn of a worker can do

`workerStep_turn` says, once, everything a worker can do between two await points:
which state it goes to (`Turn`) and what the job sees of it (`Does`). The invariants
of a job are derived from it without unfolding the worker again.
-/

set_option autoImplicit false

namespace BatchEngine.Core

open BatchEngine.Providers

/-- What the job sees of a turn: items taken from the queue, rows submitted, calls
started, retries consumed, the change of `in_flight`, whether the job was aborted, and
the uses of the breaker. -/
structure Effect where
  pops : List Queued := []
  rows : List Row := []
  calls : List Call := []
  retries : ℕ := 0
  flight : ℤ := 0
  aborts : Bool := false
  asks : List CircuitBreaker.Call := []

/-- The bookkeeping of one terminal row. -/
def JobRecord.settle (record : JobRecord) : Row → JobRecord
  | .result r =>
    { record with
      usage.inputTokens := record.usage.inputTokens + r.usage.inputTokens
      usage.outputTokens := record.usage.outputTokens + r.usage.outputTokens
      counts.succeeded := record.counts.succeeded + 1
      counts.pending := record.counts.pending - 1 }
  | .error e =>
    bumpErrorClass
      { record with
        counts.failed := record.counts.failed + 1
        counts.pending := record.counts.pending - 1 } e.failureClass

def JobRecord.fly (record : JobRecord) (k : ℤ) : JobRecord :=
  { record with counts.inFlight := record.counts.inFlight + k }

/-- `ctx'` is `ctx` after a turn with effect `e`. What it does not mention is as before. -/
structure Does (ctx ctx' : WorkerContext) (e : Effect) : Prop where
  queue : ctx.queue.items = e.pops ++ ctx'.queue.items
  maxsize : ctx'.queue.maxsize = ctx.queue.maxsize
  submitted : ctx'.sink.submitted = ctx.sink.submitted ++ e.rows
  record : ctx'.record = (e.rows.foldl JobRecord.settle ctx.record).fly e.flight
  calls : ctx'.calls = ctx.calls ++ e.calls
  used : ctx'.retryBudget.used = ctx.retryBudget.used + e.retries
  totalItems : ctx'.retryBudget.totalItems = ctx.retryBudget.totalItems
  fraction : ctx'.retryBudget.fraction = ctx.retryBudget.fraction
  withinLimit : 0 < e.retries → ctx'.retryBudget.used ≤ ctx.retryBudget.limit
  retriesIssued : ctx'.controller.retriesIssued = ctx.controller.retriesIssued + e.retries
  capacity : ctx'.controller.bucket.capacity = ctx.controller.bucket.capacity
  rate : 0 < ctx.controller.bucket.rate → 0 < ctx'.controller.bucket.rate
  breaker : ctx'.circuitBreaker = ctx.circuitBreaker.after (e.asks.map fun c => (ctx.now, c))
  abortEvent : ctx'.abortEvent = (ctx.abortEvent || e.aborts)
  cancelEvent : ctx'.cancelEvent = ctx.cancelEvent
  now : ctx'.now = ctx.now
  wall : ctx'.wall = ctx.wall

/-- From the top of the retry loop. -/
inductive LoopTurn (ctx : WorkerContext) (h : InHand) : WorkerState → Effect → Prop
  | stopped {e : RowError} (hstop : ctx.cancelEvent = true ∨ ctx.abortEvent = true)
      (hid : e.itemId = h.item.id) : LoopTurn ctx h .idle { rows := [.error e] }
  | refused {wake : ℚ} (hrun : ctx.cancelEvent = false ∧ ctx.abortEvent = false)
      (hask : (ctx.circuitBreaker.allowRequest ctx.now).1 = false) :
      LoopTurn ctx h (.breakerWait h wake) { asks := [.allowRequest] }
  | admitted {wake : ℚ} (hrun : ctx.cancelEvent = false ∧ ctx.abortEvent = false)
      (hask : (ctx.circuitBreaker.allowRequest ctx.now).1 = true) :
      LoopTurn ctx h (.acquiring { h with attempt := h.attempt + 1 } wake)
        { asks := [.allowRequest] }
  | called (hrun : ctx.cancelEvent = false ∧ ctx.abortEvent = false)
      (hask : (ctx.circuitBreaker.allowRequest ctx.now).1 = true) :
      LoopTurn ctx h (.calling { h with attempt := h.attempt + 1 } ctx.now)
        { asks := [.allowRequest], calls := [⟨h.seq, h.attempt + 1⟩], flight := 1 }

/-- From `if attempt >= max_attempts` to the end of the loop body. -/
inductive RetryTurn (h : InHand) : WorkerState → Effect → Prop
  | gaveUp {e : RowError} (hid : e.itemId = h.item.id) : RetryTurn h .idle { rows := [.error e] }
  | retried {wake : ℚ} (hattempt : h.attempt < 8) : RetryTurn h (.backoff h wake) { retries := 1 }

/-- From the reply, `in_flight` and the breaker's report apart. -/
inductive CallTurn {R : Type*} (W : WorkerConfig R) (ctx' : WorkerContext) (h : InHand)
    (outcome : Outcome) : Bool → WorkerState → Effect → Prop
  | succeeded {resp : ProviderResponse} {latencyS : ℚ} (hresp : outcome = .response resp)
      (hclass : (classify outcome).1 = .success) :
      CallTurn W ctx' h outcome false .idle
        { rows := [.result ⟨h.item.id, resp.text, ⟨resp.inputTokens, resp.outputTokens⟩, latencyS,
            h.attempt⟩]
          aborts := decide (SpendCheckDue ctx'.record.counts ∧ OverCap W ctx'.record) }
  | raised {resp : ProviderResponse} {latencyS : ℚ} {e : RowError}
      (hresp : outcome = .response resp) (hclass : (classify outcome).1 = .success)
      (hid : e.itemId = h.item.id) :
      CallTurn W ctx' h outcome true .idle
        { rows := [.result ⟨h.item.id, resp.text, ⟨resp.inputTokens, resp.outputTokens⟩, latencyS,
            h.attempt⟩, .error e] }
  | fatal {e : RowError} (hclass : (classify outcome).1.isFatal = true)
      (hid : e.itemId = h.item.id) :
      CallTurn W ctx' h outcome false .idle { rows := [.error e], aborts := true }
  | paused {wake : Option ℚ} (hclass : (classify outcome).1 = .throttled) :
      CallTurn W ctx' h outcome false (.resetWait h wake (Failure.of outcome)) {}
  | jittered {wake : ℚ} (hclass : (classify outcome).1 = .throttled) :
      CallTurn W ctx' h outcome false (.resetJitter h wake (Failure.of outcome)) {}
  | failed {ws' : WorkerState} {e : Effect} (hsuccess : (classify outcome).1 ≠ .success)
      (hfatal : (classify outcome).1.isFatal = false) (hretry : RetryTurn h ws' e) :
      CallTurn W ctx' h outcome false ws' e

/-- A turn of a worker. -/
inductive Turn {R : Type*} (W : WorkerConfig R) (ctx ctx' : WorkerContext) :
    WorkerState → WorkerInput R → WorkerState → Effect → Prop
  | shutdown : Turn W ctx ctx' .idle .take .returned { pops := [.shutdown] }
  | passed {seq : ℕ} {e : RowError} : Turn W ctx ctx' .idle .take .idle
      { pops := [.ticket ⟨seq, .error e⟩], rows := [.error e] }
  | taken {seq : ℕ} {p : PromptItem} {ws' : WorkerState} {e : Effect}
      (hloop : LoopTurn ctx ⟨seq, p, 0⟩ ws' e) :
      Turn W ctx ctx' .idle .take ws' { e with pops := [.ticket ⟨seq, .item p⟩] }
  | asked {h : InHand} {wake u : ℚ} {ws' : WorkerState} {e : Effect} (hloop : LoopTurn ctx h ws' e) :
      Turn W ctx ctx' (.breakerWait h wake) (.wake u) ws' e
  | looped {h : InHand} {wake u : ℚ} {ws' : WorkerState} {e : Effect} (hloop : LoopTurn ctx h ws' e) :
      Turn W ctx ctx' (.backoff h wake) (.wake u) ws' e
  | waited {h : InHand} {wake wake' u : ℚ} :
      Turn W ctx ctx' (.acquiring h wake) (.wake u) (.acquiring h wake') {}
  | granted {h : InHand} {wake u : ℚ} :
      Turn W ctx ctx' (.acquiring h wake) (.wake u) (.calling h ctx.now)
        { calls := [⟨h.seq, h.attempt⟩], flight := 1 }
  | replied {h : InHand} {start u : ℚ} {r : R} {raises : Bool} {ws' : WorkerState} {e : Effect}
      (hcall : CallTurn W ctx' h (outcomeOf (W.provider.complete r)) raises ws' e) :
      Turn W ctx ctx' (.calling h start) (.reply r u raises) ws'
        { e with
          flight := -1
          asks := [.record (breakerFailure
            (classify (outcomeOf (W.provider.complete r))).1)] }
  | jittered {h : InHand} {wake wake' u : ℚ} {f : Failure} :
      Turn W ctx ctx' (.resetWait h (some wake) f) (.wake u) (.resetJitter h wake' f) {}
  | resumed {h : InHand} {wake u : ℚ} {f : Failure} {ws' : WorkerState} {e : Effect}
      (hretry : RetryTurn h ws' e) : Turn W ctx ctx' (.resetJitter h wake f) (.wake u) ws' e

/-! ## One update after another -/

def Effect.append (e e' : Effect) : Effect where
  pops := e.pops ++ e'.pops
  rows := e.rows ++ e'.rows
  calls := e.calls ++ e'.calls
  retries := e.retries + e'.retries
  flight := e.flight + e'.flight
  aborts := e.aborts || e'.aborts
  asks := e.asks ++ e'.asks

@[simp] theorem fly_zero (record : JobRecord) : record.fly 0 = record := by
  simp [JobRecord.fly]

theorem settle_fly (record : JobRecord) (k : ℤ) (row : Row) :
    (record.fly k).settle row = (record.settle row).fly k := by
  cases row <;> rfl

theorem settles_fly (rows : List Row) (record : JobRecord) (k : ℤ) :
    rows.foldl JobRecord.settle (record.fly k) = (rows.foldl JobRecord.settle record).fly k := by
  induction rows generalizing record with
  | nil => rfl
  | cons row rows ih => rw [List.foldl_cons, settle_fly, ih, List.foldl_cons]

/-- What no row's bookkeeping touches stays as it is. -/
theorem settles_frame {α : Type*} (f : JobRecord → α)
    (hrow : ∀ (record : JobRecord) (row : Row), f (record.settle row) = f record)
    (rows : List Row) (record : JobRecord) : f (rows.foldl JobRecord.settle record) = f record := by
  induction rows generalizing record with
  | nil => rfl
  | cons row rows ih => rw [List.foldl_cons, ih, hrow]

theorem Does.limit {ctx ctx' : WorkerContext} {e : Effect} (h : Does ctx ctx' e) :
    ctx'.retryBudget.limit = ctx.retryBudget.limit := by
  rw [RetryBudget.limit, RetryBudget.limit, h.totalItems, h.fraction]

/-- Effects of consecutive updates add up. -/
theorem Does.trans {a b c : WorkerContext} {e e' : Effect} (h : Does a b e) (h' : Does b c e') :
    Does a c (e.append e') where
  queue := by rw [h.queue, h'.queue]; exact (List.append_assoc _ _ _).symm
  maxsize := h'.maxsize.trans h.maxsize
  submitted := by rw [h'.submitted, h.submitted]; exact List.append_assoc _ _ _
  record := by
    rw [h'.record, h.record, settles_fly, ← List.foldl_append]
    simp [JobRecord.fly, Effect.append, add_assoc]
  calls := by rw [h'.calls, h.calls]; exact List.append_assoc _ _ _
  used := by rw [h'.used, h.used]; exact Nat.add_assoc _ _ _
  totalItems := h'.totalItems.trans h.totalItems
  fraction := h'.fraction.trans h.fraction
  withinLimit := by
    intro hpos
    by_cases hlast : 0 < e'.retries
    · exact h.limit ▸ h'.withinLimit hlast
    · have hfirst : 0 < e.retries := by
        change 0 < e.retries + e'.retries at hpos
        omega
      have hused := h'.used
      have hle := h.withinLimit hfirst
      omega
  retriesIssued := by rw [h'.retriesIssued, h.retriesIssued]; exact Nat.add_assoc _ _ _
  capacity := h'.capacity.trans h.capacity
  rate := fun hr => h'.rate (h.rate hr)
  breaker := by
    rw [h'.breaker, h.breaker, h.now]
    simp [Effect.append, CircuitBreaker.after]
  abortEvent := by rw [h'.abortEvent, h.abortEvent]; exact Bool.or_assoc _ _ _
  cancelEvent := h'.cancelEvent.trans h.cancelEvent
  now := h'.now.trans h.now
  wall := h'.wall.trans h.wall

theorem does_refl (ctx : WorkerContext) : Does ctx ctx {} := by
  constructor <;> simp

/-! ## The updates that a worker makes -/

theorem setRate_rate_pos (b : TokenBucket ℚ) (now r : ℚ) : 0 < (b.setRate now r).rate :=
  lt_of_lt_of_le (by norm_num) (le_max_right r (1 / 1000000))

theorem does_withController {ctx : WorkerContext} {c : AdaptiveController}
    (hissued : c.retriesIssued = ctx.controller.retriesIssued)
    (hcapacity : c.bucket.capacity = ctx.controller.bucket.capacity)
    (hrate : 0 < ctx.controller.bucket.rate → 0 < c.bucket.rate) :
    Does ctx (ctx.withController c) {} := by
  constructor <;> simp [WorkerContext.withController, *]
  exact hrate

theorem does_recordSuccess (ctx : WorkerContext) :
    Does ctx (ctx.withController (ctx.controller.recordSuccess ctx.now)) {} := by
  refine does_withController (AdaptiveController.recordSuccess_retriesIssued _ _) ?_ ?_
  · unfold AdaptiveController.recordSuccess
    split <;> rfl
  · intro hr
    unfold AdaptiveController.recordSuccess
    split
    · exact setRate_rate_pos _ _ _
    · exact hr

theorem does_recordThrottle (ctx : WorkerContext) :
    Does ctx (ctx.withController (ctx.controller.recordThrottle ctx.now)) {} := by
  refine does_withController (AdaptiveController.recordThrottle_retriesIssued _ _) ?_ ?_
  · unfold AdaptiveController.recordThrottle
    split <;> rfl
  · intro hr
    unfold AdaptiveController.recordThrottle
    split
    · exact setRate_rate_pos _ _ _
    · exact hr

theorem does_acquire (ctx : WorkerContext) :
    Does ctx (ctx.withBucket (ctx.controller.bucket.acquire ctx.now).2) {} :=
  does_withController rfl (TokenBucket.acquire_capacity _ _)
    fun hr => (TokenBucket.acquire_rate ctx.controller.bucket ctx.now).symm ▸ hr

theorem does_finish (ctx : WorkerContext) : Does ctx (finish ctx).1 {} := by
  constructor <;> simp [finish, WorkerContext.withQueue]

theorem does_shutdown (ctx : WorkerContext) : Does ctx (ctx.withQueue ctx.queue.taskDone) {} :=
  does_finish ctx

theorem does_passError (ctx : WorkerContext) (e : RowError) :
    Does ctx (passError ctx e) { rows := [.error e] } := by
  constructor <;> simp [passError, JobRecord.settle]

theorem does_emitResult (ctx : WorkerContext) (h : InHand) (resp : ProviderResponse)
    (latencyS : ℚ) :
    Does ctx (emitResult ctx h resp latencyS)
      { rows := [.result ⟨h.item.id, resp.text, ⟨resp.inputTokens, resp.outputTokens⟩, latencyS,
          h.attempt⟩] } := by
  constructor <;> simp [emitResult, JobRecord.settle]

theorem does_startCall (ctx : WorkerContext) (h : InHand) :
    Does ctx (startCall ctx h).1 { calls := [⟨h.seq, h.attempt⟩], flight := 1 } := by
  constructor <;> simp [startCall, JobRecord.fly]

theorem does_allowRequest (ctx : WorkerContext) :
    Does ctx (ctx.withBreaker (ctx.circuitBreaker.allowRequest ctx.now).2)
      { asks := [.allowRequest] } := by
  constructor <;> simp [WorkerContext.withBreaker, CircuitBreaker.after, CircuitBreaker.onCall]

theorem does_recordOutcome (ctx : WorkerContext) (c : FailureClass) :
    Does ctx (recordOutcome ctx c) { flight := -1, asks := [.record (breakerFailure c)] } := by
  constructor <;>
    simp [recordOutcome, JobRecord.fly, CircuitBreaker.after, CircuitBreaker.onCall, sub_eq_add_neg]

theorem does_abort (ctx : WorkerContext) (f : Failure) :
    Does ctx (abort ctx f) { aborts := true } := by
  constructor <;> simp [abort]

theorem does_get {ctx : WorkerContext} {x : Queued} {q : BoundedQueue Queued}
    (hget : ctx.queue.get = some (x, q)) : Does ctx (ctx.withQueue q) { pops := [x] } := by
  obtain ⟨hitems, hmax⟩ := BoundedQueue.get_some hget
  constructor <;> simp [WorkerContext.withQueue, hitems, hmax]

theorem does_onSpendCheck {R : Type*} (W : WorkerConfig R) (ctx : WorkerContext) :
    Does ctx (onSpendCheck W ctx)
      { aborts := decide (SpendCheckDue ctx.record.counts ∧ OverCap W ctx.record) } := by
  unfold onSpendCheck
  by_cases h : SpendCheckDue ctx.record.counts ∧ OverCap W ctx.record
  · constructor <;> simp [h]
  · rw [if_neg h]
    constructor <;> simp [h]

@[simp] theorem onSpendCheck_record {R : Type*} (W : WorkerConfig R) (ctx : WorkerContext) :
    (onSpendCheck W ctx).record = ctx.record := by
  unfold onSpendCheck
  split <;> rfl

@[simp] theorem finish_record (ctx : WorkerContext) : (finish ctx).1.record = ctx.record := rfl

/-- A success from its row to `task_done`, with the spend check read from the end. -/
theorem does_completion {R : Type*} (W : WorkerConfig R) (ctx : WorkerContext) (h : InHand)
    (resp : ProviderResponse) (latencyS : ℚ) {ctx' : WorkerContext}
    (hctx' : (finish (onSpendCheck W (emitResult ctx h resp latencyS))).1 = ctx') :
    Does ctx ctx'
      { rows := [.result ⟨h.item.id, resp.text, ⟨resp.inputTokens, resp.outputTokens⟩, latencyS,
          h.attempt⟩]
        aborts := decide (SpendCheckDue ctx'.record.counts ∧ OverCap W ctx'.record) } := by
  rw [← hctx', finish_record, onSpendCheck_record]
  have hemit := does_emitResult ctx h resp latencyS
  have hcheck := hemit.trans (does_onSpendCheck W (emitResult ctx h resp latencyS))
  simpa [Effect.append] using hcheck.trans (does_finish _)

theorem does_issueRetry {ctx : WorkerContext} {budget : RetryBudget}
    (h : ctx.retryBudget.tryConsume = (true, budget)) :
    Does ctx (issueRetry ctx budget) { retries := 1 } := by
  unfold RetryBudget.tryConsume at h
  split at h
  · cases h
  · rename_i hle
    obtain ⟨-, rfl⟩ := Prod.mk.inj h
    constructor <;> simp [issueRetry, RetryBudget.limit] at hle ⊢
    omega

/-! ## The segments -/

theorem does_emitError_finish (ctx : WorkerContext) (itemId : String) (c : FailureClass)
    (m : Message) (attempt : ℕ) (status : Option ℤ) :
    Does ctx (finish (emitError ctx itemId c m attempt status)).1
      { rows := [.error ⟨itemId, c, m, attempt, status⟩] } :=
  (does_passError ctx _).trans (does_finish _)

theorem acquirePass_cases (ctx : WorkerContext) (h : InHand) :
    (∃ wake, (acquirePass ctx h).2 = .acquiring h wake ∧ Does ctx (acquirePass ctx h).1 {}) ∨
    ((acquirePass ctx h).2 = .calling h ctx.now ∧
      Does ctx (acquirePass ctx h).1 { calls := [⟨h.seq, h.attempt⟩], flight := 1 }) := by
  have hbucket := does_acquire ctx
  have hbranch := acquirePass_branch ctx h
  generalize acquirePass ctx h = next at hbranch ⊢
  cases hbranch with
  | granted hgrant =>
    rw [hgrant] at hbucket
    exact Or.inr ⟨rfl, hbucket.trans (does_startCall _ h)⟩
  | waits hwait =>
    rw [hwait] at hbucket
    exact Or.inl ⟨_, rfl, hbucket⟩

theorem loopTop_turn (ctx : WorkerContext) (h : InHand) :
    ∃ e, LoopTurn ctx h (loopTop ctx h).2 e ∧ Does ctx (loopTop ctx h).1 e := by
  have hdoes := does_allowRequest ctx
  have hbranch := loopTop_branch ctx h
  generalize loopTop ctx h = next at hbranch ⊢
  cases hbranch with
  | cancelled hcancel =>
    exact ⟨_, .stopped (Or.inl hcancel) rfl, does_emitError_finish _ _ _ _ _ _⟩
  | aborted hcancel habort =>
    exact ⟨_, .stopped (Or.inr habort) rfl, does_emitError_finish _ _ _ _ _ _⟩
  | refused hcancel habort hask => exact ⟨_, .refused ⟨hcancel, habort⟩ hask, hdoes⟩
  | allowed hcancel habort hask =>
    obtain ⟨wake, hws, hpass⟩ | ⟨hws, hpass⟩ := acquirePass_cases
      (ctx.withBreaker (ctx.circuitBreaker.allowRequest ctx.now).2)
      { h with attempt := h.attempt + 1 }
    · rw [hws]
      exact ⟨_, .admitted ⟨hcancel, habort⟩ hask, hdoes.trans hpass⟩
    · rw [hws]
      exact ⟨_, .called ⟨hcancel, habort⟩ hask, hdoes.trans hpass⟩

theorem retryOrFail_turn {R : Type*} (W : WorkerConfig R) (ctx : WorkerContext) (h : InHand)
    (f : Failure) (u : ℚ) :
    ∃ e, RetryTurn h (retryOrFail W ctx h f u).2 e ∧ Does ctx (retryOrFail W ctx h f u).1 e := by
  have hbranch := retryOrFail_branch W ctx h f u
  generalize retryOrFail W ctx h f u = next at hbranch ⊢
  cases hbranch with
  | gaveUp _ => exact ⟨_, .gaveUp rfl, does_emitError_finish _ _ _ _ _ _⟩
  | refused _ _ => exact ⟨_, .gaveUp rfl, does_emitError_finish _ _ _ _ _ _⟩
  | retried hmax hbudget =>
    exact ⟨_, .retried (lt_of_lt_of_le hmax f.capped), does_issueRetry hbudget⟩

theorem afterFailure_turn {R : Type*} (W : WorkerConfig R) (ctx : WorkerContext) (h : InHand)
    {outcome : Outcome} (u : ℚ) (hsuccess : (classify outcome).1 ≠ .success) :
    ∃ e, CallTurn W (afterFailure W ctx h outcome (.of outcome) u).1 h outcome false
        (afterFailure W ctx h outcome (.of outcome) u).2 e ∧
      Does ctx (afterFailure W ctx h outcome (.of outcome) u).1 e := by
  have hthrottle := does_recordThrottle ctx
  have hbranch := afterFailure_branch W ctx h outcome (.of outcome) u
  generalize afterFailure W ctx h outcome (.of outcome) u = next at hbranch ⊢
  cases hbranch with
  | fatal hfatal =>
    exact ⟨_, .fatal hfatal rfl, (does_abort ctx _).trans (does_emitError_finish _ _ _ _ _ _)⟩
  | jittered hthrottled _ _ => exact ⟨_, .jittered hthrottled, hthrottle⟩
  | hung hthrottled _ _ => exact ⟨_, .paused hthrottled, hthrottle⟩
  | paused hthrottled _ _ => exact ⟨_, .paused hthrottled, hthrottle⟩
  | throttled hthrottled _ =>
    obtain ⟨e, hturn, hdoes⟩ := retryOrFail_turn W
      (ctx.withController (ctx.controller.recordThrottle ctx.now)) h (.of outcome) u
    have hfatal : (classify outcome).1.isFatal = false := by
      rw [show (classify outcome).1 = .throttled from hthrottled]
      rfl
    refine ⟨e, .failed hsuccess hfatal hturn, ?_⟩
    have he : Effect.append {} e = e := by simp [Effect.append]
    exact he ▸ hthrottle.trans hdoes
  | failed hfatal _ =>
    obtain ⟨e, hturn, hdoes⟩ := retryOrFail_turn W ctx h (.of outcome) u
    exact ⟨e, .failed hsuccess hfatal hturn, hdoes⟩

/-- A call's own effect carries neither a change of `in_flight` nor a use of the breaker. -/
theorem callTurn_effect {R : Type*} {W : WorkerConfig R} {ctx' : WorkerContext} {h : InHand}
    {outcome : Outcome} {raises : Bool} {ws' : WorkerState} {e : Effect}
    (hturn : CallTurn W ctx' h outcome raises ws' e) : e.flight = 0 ∧ e.asks = [] := by
  cases hturn with
  | failed _ _ hretry => cases hretry <;> exact ⟨rfl, rfl⟩
  | _ => exact ⟨rfl, rfl⟩

theorem callBranch_turn {R : Type*} {W : WorkerConfig R} {ctx : WorkerContext} {h : InHand}
    {start u : ℚ} {r : R} {raises : Bool} {next : Next}
    (hbranch : CallBranch W ctx h start r u raises next) :
    ∃ e, CallTurn W next.1 h (outcomeOf (W.provider.complete r)) raises next.2 e ∧
      Does (recordOutcome ctx (classify (outcomeOf (W.provider.complete r))).1) next.1 e := by
  cases hbranch with
  | succeeded hresp hclass _ =>
    rw [hclass]
    have hsuccess := does_recordSuccess (recordOutcome ctx .success)
    exact ⟨_, .succeeded hresp hclass, hsuccess.trans (does_completion W _ h _ _ rfl)⟩
  | raised hresp hclass _ =>
    rw [hclass]
    have hsuccess := does_recordSuccess (recordOutcome ctx .success)
    exact ⟨_, .raised hresp hclass rfl,
      hsuccess.trans ((does_emitResult _ h _ _).trans (does_emitError_finish _ _ _ _ _ _))⟩
  | failed hclass => exact afterFailure_turn W _ h u hclass

/-- The loop does not look at the queue. -/
theorem loopTurn_of_withQueue {ctx : WorkerContext} {q : BoundedQueue Queued} {h : InHand}
    {ws' : WorkerState} {e : Effect} (hturn : LoopTurn (ctx.withQueue q) h ws' e) :
    LoopTurn ctx h ws' e ∧ e.pops = [] := by
  cases hturn with
  | stopped hstop hid => exact ⟨.stopped hstop hid, rfl⟩
  | refused hrun hask => exact ⟨.refused hrun hask, rfl⟩
  | admitted hrun hask => exact ⟨.admitted hrun hask, rfl⟩
  | called hrun hask => exact ⟨.called hrun hask, rfl⟩

theorem takeItem_turn {R : Type*} (W : WorkerConfig R) {ctx : WorkerContext} {x : Queued}
    {q : BoundedQueue Queued} (hget : ctx.queue.get = some (x, q)) :
    ∃ e, Turn W ctx (takeItem (ctx.withQueue q) x).1 .idle .take
        (takeItem (ctx.withQueue q) x).2 e ∧ Does ctx (takeItem (ctx.withQueue q) x).1 e := by
  have htake := does_get hget
  match x with
  | .shutdown => exact ⟨_, .shutdown, htake.trans (does_shutdown _)⟩
  | .ticket ⟨seq, .error e⟩ =>
    exact ⟨_, .passed, htake.trans ((does_passError _ e).trans (does_finish _))⟩
  | .ticket ⟨seq, .item p⟩ =>
    obtain ⟨e, hturn, hdoes⟩ := loopTop_turn (ctx.withQueue q) ⟨seq, p, 0⟩
    obtain ⟨hloop, hpops⟩ := loopTurn_of_withQueue hturn
    refine ⟨_, .taken hloop, ?_⟩
    simpa [Effect.append, hpops, takeItem] using htake.trans hdoes

theorem stepBranch_turn {R : Type*} {W : WorkerConfig R} {ctx : WorkerContext} {ws : WorkerState}
    {input : WorkerInput R} {next : Next} (hbranch : StepBranch W ctx ws input next) :
    ∃ e, Turn W ctx next.1 ws input next.2 e ∧ Does ctx next.1 e := by
  cases hbranch with
  | took hget => exact takeItem_turn W hget
  | @asked h wake u _ =>
    obtain ⟨e, hturn, hdoes⟩ := loopTop_turn ctx h
    exact ⟨e, .asked hturn, hdoes⟩
  | @acquired h wake u _ =>
    obtain ⟨wake', hws, hdoes⟩ | ⟨hws, hdoes⟩ := acquirePass_cases ctx h
    · rw [hws]
      exact ⟨_, .waited, hdoes⟩
    · rw [hws]
      exact ⟨_, .granted, hdoes⟩
  | replied _ hcall =>
    obtain ⟨e, hturn, hdoes⟩ := callBranch_turn hcall
    have hall := (does_recordOutcome ctx _).trans hdoes
    refine ⟨_, .replied hturn, ?_⟩
    obtain ⟨hflight, hasks⟩ := callTurn_effect hturn
    simpa [Effect.append, hflight, hasks] using hall
  | jittered _ _ => exact ⟨_, .jittered, does_refl ctx⟩
  | @resumed h wake u f _ _ =>
    obtain ⟨e, hturn, hdoes⟩ := retryOrFail_turn W ctx h f u
    exact ⟨e, .resumed hturn, hdoes⟩
  | @looped h wake u _ =>
    obtain ⟨e, hturn, hdoes⟩ := loopTop_turn ctx h
    exact ⟨e, .looped hturn, hdoes⟩

/-- Everything that a worker can do between two await points. -/
theorem workerStep_turn {R : Type*} {W : WorkerConfig R} {ctx ctx' : WorkerContext}
    {ws ws' : WorkerState} {input : WorkerInput R}
    (hstep : workerStep W ctx ws input = some (ctx', ws')) :
    ∃ e, Turn W ctx ctx' ws input ws' e ∧ Does ctx ctx' e :=
  stepBranch_turn (workerStep_branch hstep)

end BatchEngine.Core
