import BatchEngine.Core.Worker
import BatchEngine.Lib.Runs
import Mathlib.Algebra.Order.Floor.Ring

/-!
# The run of a job

`JobRunner.run` and its workers, the sink's writer, the clocks and a cancel request
take turns at the await points. An action is one party going from one await point to
its next; `step` refuses an action that its party cannot take. This is the job as long as
nobody cancels its task; `Shutdown` adds the cancellation.
-/

set_option autoImplicit false

namespace BatchEngine.Core

open BatchEngine.Providers

/-- What `stream_items` makes of the input file: the entries it yields, and whether it
then raises instead of ending. -/
structure InputStream where
  entries : List Entry
  raises : Bool := false
  deriving DecidableEq, Repr

/-- The rows that fail in the ingest have the class that the ingest gives them. -/
def InputStream.Labelled (input : InputStream) : Prop :=
  ∀ e, .error e ∈ input.entries → e.failureClass = .invalidInput

structure JobRunner (R : Type*) extends WorkerConfig R where
  rateLimitRpm : ℕ := 120
  circuitCooldownS : ℚ := 30
  hasWebhook : Bool := false
  input : InputStream

def queueMultiplier : ℕ := 4
def statusPersistEvery : ℕ := 25

def rateRps (rateLimitRpm : ℕ) : ℚ := rateLimitRpm / 60

def defaultConcurrency (rateLimitRpm : ℕ) : ℕ := max 2 ⌈rateRps rateLimitRpm * 2⌉₊

/-- `config.concurrency or default_concurrency(rate_limit_rpm)`. -/
def JobRunner.concurrency {R : Type*} (J : JobRunner R) : ℕ :=
  match J.config.concurrency with
  | some (n + 1) => n + 1
  | _ => defaultConcurrency J.rateLimitRpm

theorem JobRunner.concurrency_pos {R : Type*} (J : JobRunner R) : 0 < J.concurrency := by
  unfold JobRunner.concurrency defaultConcurrency
  split
  · exact Nat.succ_pos _
  · exact Nat.lt_of_lt_of_le (by decide) (Nat.le_max_left 2 _)

/-- What `run` can raise. `cancelled` comes from outside: the cancellation of its task. -/
inductive RunException where
  | ingest
  | cost
  | conservation
  | webhook
  | cancelled
  deriving DecidableEq, Repr

/-- The await points of `run` and `_ingest_and_dispatch`. `exc` is the exception that
the `finally` block holds while it drains. -/
inductive RunPhase where
  | starting
  | reading
  | putting (t : Ticket)
  | saving
  | closing (exc : Option RunException)
  | shuttingDown (left : ℕ) (exc : Option RunException)
  | gathering (exc : Option RunException)
  | closingSink (exc : Option RunException)
  | savingFinal
  | delivering
  | finished (exc : Option RunException)
  deriving DecidableEq, Repr

/-- A job of `n` workers. `rest` is what the stream has yet to yield, `store` the
record last saved. -/
structure State (n : ℕ) where
  ctx : WorkerContext
  phase : RunPhase := .starting
  rest : List Entry
  workers : Fin n → WorkerState := fun _ => .idle
  store : Option JobRecord := none

inductive Action (R : Type*) (n : ℕ) where
  | tick (dt : ℚ) (wall : ℚ)
  | cancel
  | runner (raises : Bool)
  | worker (i : Fin n) (input : WorkerInput R)
  | writer
  | writerTimeout

/-- A turn of worker number `i`. -/
def Action.nth {R : Type*} {n : ℕ} (i : ℕ) (input : WorkerInput R) : Action R (n + 1) :=
  .worker (Fin.ofNat (n + 1) i) input

section Job

variable {R : Type*} (J : JobRunner R)

/-- The job as `run` sets it up, at clock readings `now` and `wall`. -/
def JobRunner.start (now wall : ℚ) : State J.concurrency :=
  let rps := rateRps J.rateLimitRpm
  { ctx :=
      { now, wall
        queue := .empty (J.concurrency * queueMultiplier)
        controller :=
          { bucket := .new rps (max 2 rps) now
            minRate := max (1 / 20) (rps * (1 / 10)), maxRate := rps * (3 / 2) }
        circuitBreaker := { cooldownS := J.circuitCooldownS }
        retryBudget := { totalItems := 1 }
        sink := .start now
        record := {} }
    rest := J.input.entries }

def finalStatus (ctx : WorkerContext) : JobStatus :=
  let counts := ctx.record.counts
  if ctx.cancelEvent then .cancelled
  else if ctx.abortEvent then .failed
  else if counts.ingested = 0 then .succeeded
  else if counts.failed = 0 then .succeeded
  else if counts.succeeded = 0 then .failed
  else .partialResult

/-- The record as the end of `run` leaves it, when its cost can be computed. -/
def finalRecord (ctx : WorkerContext) : JobRecord :=
  { ctx.record with
    finishedAt := some ctx.wall
    usage.estimatedCostUsd := costUsd J.toWorkerConfig ctx.record.usage
    status := finalStatus ctx
    abortReason :=
      if ctx.abortEvent then ctx.abortReason.head?.or ctx.record.abortReason
      else ctx.record.abortReason }

/-- The tail of `run`, up to its last `store.save`. -/
def finalize {n : ℕ} (s : State n) (raises : Bool) : Option (State n) :=
  if raises then
    if CostMayRaise J.toWorkerConfig s.ctx.record.usage then
      some { s with ctx.record.finishedAt := some s.ctx.wall, phase := .finished (some .cost) }
    else none
  else if CostOverflows s.ctx.record.usage then none
  else
    let record := finalRecord J s.ctx
    some { s with
      ctx.record := record
      phase := if record.counts.conserved then .savingFinal else .finished (some .conservation) }

/-- After an entry is queued, or the record saved: the item cap. -/
def afterPut {n : ℕ} (s : State n) : RunPhase :=
  match J.config.maxItems with
  | none => .reading
  | some maxItems => if maxItems ≤ s.ctx.record.counts.ingested then .closing none else .reading

/-- `async for parsed in gen`, from the yield to the put. -/
def readNext {n : ℕ} (s : State n) : State n :=
  match s.rest with
  | [] => { s with phase := .closing (if J.input.raises then some .ingest else none) }
  | parsed :: rest =>
    if s.ctx.cancelEvent ∨ s.ctx.abortEvent then { s with rest, phase := .closing none }
    else
      let counts := s.ctx.record.counts
      { s with
        rest
        ctx.record.counts.ingested := counts.ingested + 1
        ctx.record.counts.pending := counts.pending + 1
        ctx.retryBudget.totalItems := counts.ingested + 1
        phase := .putting ⟨counts.ingested, parsed⟩ }

/-- `run` goes from one await point to its next. `raises` is the estimate of the cost or the
webhook delivery raising. -/
def runnerStep {n : ℕ} (s : State n) (raises : Bool) : Option (State n) :=
  match s.phase, raises with
  | .starting, false =>
    let record := { s.ctx.record with status := .running }
    some { s with ctx.record := record, store := some record, phase := .reading }
  | .reading, false => some (readNext J s)
  | .putting t, false =>
    (s.ctx.queue.put (.ticket t)).map fun queue =>
      { s with
        ctx.queue := queue
        phase :=
          if s.ctx.record.counts.ingested % statusPersistEvery = 0 then .saving
          else afterPut J s }
  | .saving, false => some { s with store := some s.ctx.record, phase := afterPut J s }
  | .closing exc, false => some { s with phase := .shuttingDown n exc }
  | .shuttingDown (left + 1) exc, false =>
    (s.ctx.queue.put .shutdown).map fun queue =>
      { s with ctx.queue := queue, phase := .shuttingDown left exc }
  | .shuttingDown 0 exc, false => some { s with phase := .gathering exc }
  | .gathering exc, false =>
    if ∀ i, s.workers i = .returned then
      some { s with ctx.sink := s.ctx.sink.close, phase := .closingSink exc }
    else none
  | .closingSink (some exc), false =>
    if s.ctx.sink.done then some { s with phase := .finished (some exc) } else none
  | .closingSink none, raises => if s.ctx.sink.done then finalize J s raises else none
  | .savingFinal, false => some { s with store := some s.ctx.record, phase := .delivering }
  | .delivering, raises =>
    if raises then
      if J.hasWebhook then some { s with phase := .finished (some .webhook) } else none
    else some { s with phase := .finished none }
  | _, _ => none

def step (s : State J.concurrency) : Action R J.concurrency → Option (State J.concurrency)
  | .tick dt wall =>
    if 0 ≤ dt then some { s with ctx.now := s.ctx.now + dt, ctx.wall := wall } else none
  | .cancel => some { s with ctx.cancelEvent := true }
  | .runner raises => runnerStep J s raises
  | .worker i input =>
    (workerStep J.toWorkerConfig s.ctx (s.workers i) input).map fun next =>
      { s with ctx := next.1, workers := Function.update s.workers i next.2 }
  | .writer => (s.ctx.sink.writerStep s.ctx.now).map fun sink => { s with ctx.sink := sink }
  | .writerTimeout =>
    (s.ctx.sink.writerTimeout s.ctx.now).map fun sink => { s with ctx.sink := sink }

/-- The states that some run from the start reaches. -/
def Reachable (s : State J.concurrency) : Prop :=
  ∃ now wall actions, Runs.exec (step J) (J.start now wall) actions = some s

end Job

/-- The phases after `gather`: every worker has returned. -/
def RunPhase.Drained : RunPhase → Prop
  | .closingSink _ | .savingFinal | .delivering | .finished _ => True
  | _ => False

instance : (p : RunPhase) → Decidable p.Drained
  | .closingSink _ | .savingFinal | .delivering | .finished _ => .isTrue trivial
  | .starting | .reading | .putting _ | .saving | .closing _ | .shuttingDown _ _ | .gathering _ =>
    .isFalse id

end BatchEngine.Core
