import BatchEngine.Core.JobTurns

/-!
# One worker by itself

A drive is what a single worker goes through: its turns, each in the context that it finds
when it wakes, whatever the others have made of it meanwhile. The books add up what its own
turns have done to the sink, the counters and the queue. Every run of a job is a drive of
each of its workers.
-/

set_option autoImplicit false

namespace BatchEngine.Core

open BatchEngine.Providers

variable {R : Type*}

/-- A turn: the job as the worker finds it, and what wakes the worker. -/
structure Wake (R : Type*) where
  ctx : WorkerContext
  input : WorkerInput R

/-- What turns of a worker have done: rows submitted, the changes of `succeeded + failed`, of
`pending` and of `in_flight`, and the calls of `task_done`. -/
structure Books where
  rows : List Row := []
  resolved : ℤ := 0
  pending : ℤ := 0
  inFlight : ℤ := 0
  tasksDone : ℤ := 0
  deriving DecidableEq

namespace Books

def add (b b' : Books) : Books where
  rows := b.rows ++ b'.rows
  resolved := b.resolved + b'.resolved
  pending := b.pending + b'.pending
  inFlight := b.inFlight + b'.inFlight
  tasksDone := b.tasksDone + b'.tasksDone

/-- The difference that a turn has made. -/
def between (ctx ctx' : WorkerContext) : Books where
  rows := ctx'.sink.submitted.drop ctx.sink.submitted.length
  resolved := (done ctx'.record.counts : ℤ) - done ctx.record.counts
  pending := ctx'.record.counts.pending - ctx.record.counts.pending
  inFlight := ctx'.record.counts.inFlight - ctx.record.counts.inFlight
  tasksDone := ctx.queue.unfinishedTasks - ctx'.queue.unfinishedTasks

end Books

def driveStep (W : WorkerConfig R) (p : WorkerState × Books) (w : Wake R) :
    Option (WorkerState × Books) :=
  (workerStep W w.ctx p.1 w.input).map fun next => (next.2, p.2.add (.between w.ctx next.1))

/-! ## The calls of `task_done` -/

/-- A worker that holds nothing has reported what it held. -/
def WorkerState.reports (ws : WorkerState) : ℤ :=
  match ws.hand with
  | some _ => 0
  | none => 1

/-- The turn reports its item exactly if it lets go of it. -/
def Reports (ctx : WorkerContext) (next : WorkerContext × WorkerState) : Prop :=
  next.1.queue.unfinishedTasks = ctx.queue.unfinishedTasks - next.2.reports

theorem reports_keep {ctx ctx' : WorkerContext} {ws : WorkerState} {h : InHand}
    (hhand : ws.hand = some h) (hqueue : ctx'.queue = ctx.queue) : Reports ctx (ctx', ws) := by
  simp [Reports, WorkerState.reports, hhand, hqueue]

theorem reports_finish (ctx : WorkerContext) : Reports ctx (finish ctx) := rfl

theorem reports_acquirePass (ctx : WorkerContext) (h : InHand) :
    Reports ctx (acquirePass ctx h) := by
  have hbranch := acquirePass_branch ctx h
  generalize acquirePass ctx h = next at hbranch ⊢
  cases hbranch with
  | granted _ => exact reports_keep (h := h) rfl rfl
  | waits _ => exact reports_keep (h := h) rfl rfl

theorem reports_loopTop (ctx : WorkerContext) (h : InHand) : Reports ctx (loopTop ctx h) := by
  have hbranch := loopTop_branch ctx h
  generalize loopTop ctx h = next at hbranch ⊢
  cases hbranch with
  | cancelled _ => exact reports_finish (emitError ctx _ _ _ _ _)
  | aborted _ _ => exact reports_finish (emitError ctx _ _ _ _ _)
  | refused _ _ _ => exact reports_keep (h := h) rfl rfl
  | allowed _ _ _ => exact reports_acquirePass (ctx.withBreaker _) _

theorem reports_retryOrFail (W : WorkerConfig R) (ctx : WorkerContext) (h : InHand) (f : Failure)
    (u : ℚ) : Reports ctx (retryOrFail W ctx h f u) := by
  have hbranch := retryOrFail_branch W ctx h f u
  generalize retryOrFail W ctx h f u = next at hbranch ⊢
  cases hbranch with
  | gaveUp _ => exact reports_finish (emitError ctx _ _ _ _ _)
  | refused _ _ => exact reports_finish (emitError ctx _ _ _ _ _)
  | retried _ _ => exact reports_keep (h := h) rfl rfl

theorem reports_afterFailure (W : WorkerConfig R) (ctx : WorkerContext) (h : InHand)
    (outcome : Outcome) (f : Failure) (u : ℚ) :
    Reports ctx (afterFailure W ctx h outcome f u) := by
  have hbranch := afterFailure_branch W ctx h outcome f u
  generalize afterFailure W ctx h outcome f u = next at hbranch ⊢
  cases hbranch with
  | fatal _ => exact reports_finish (emitError (abort ctx f) _ _ _ _ _)
  | jittered _ _ _ => exact reports_keep (h := h) rfl rfl
  | hung _ _ _ => exact reports_keep (h := h) rfl rfl
  | paused _ _ _ => exact reports_keep (h := h) rfl rfl
  | throttled _ _ => exact reports_retryOrFail W (ctx.withController _) h f u
  | failed _ _ => exact reports_retryOrFail W ctx h f u

theorem onSpendCheck_queue (W : WorkerConfig R) (ctx : WorkerContext) :
    (onSpendCheck W ctx).queue = ctx.queue := by
  unfold onSpendCheck
  split <;> rfl

theorem reports_callBranch {W : WorkerConfig R} {ctx : WorkerContext} {h : InHand} {start u : ℚ}
    {r : R} {raises : Bool} {next : Next} (hcall : CallBranch W ctx h start r u raises next) :
    Reports ctx next := by
  cases hcall with
  | succeeded _ _ =>
    show (onSpendCheck W _).queue.unfinishedTasks - 1 = _
    rw [onSpendCheck_queue]
    rfl
  | raised _ _ _ => rfl
  | failed _ => exact reports_afterFailure W (recordOutcome ctx _) h _ _ u

theorem reports_takeItem (ctx : WorkerContext) (x : Queued) : Reports ctx (takeItem ctx x) := by
  match x with
  | .shutdown => rfl
  | .ticket ⟨_, .error e⟩ => exact reports_finish (passError ctx e)
  | .ticket ⟨seq, .item p⟩ => exact reports_loopTop ctx ⟨seq, p, 0⟩

theorem workerStep_reports {W : WorkerConfig R} {ctx : WorkerContext} {ws : WorkerState}
    {input : WorkerInput R} {next : WorkerContext × WorkerState}
    (hstep : workerStep W ctx ws input = some next) : Reports ctx next := by
  cases workerStep_branch hstep with
  | @took x q hget =>
    have htasks : q.unfinishedTasks = ctx.queue.unfinishedTasks := by
      unfold BoundedQueue.get at hget
      split at hget
      · cases hget
      · obtain ⟨-, rfl⟩ := Prod.mk.inj (Option.some.inj hget)
        rfl
    have hreports := reports_takeItem (ctx.withQueue q) x
    rw [Reports, show (ctx.withQueue q).queue = q from rfl, htasks] at hreports
    exact hreports
  | asked _ => exact reports_loopTop ctx _
  | acquired _ => exact reports_acquirePass ctx _
  | replied _ hcall => exact reports_callBranch hcall
  | jittered _ _ => exact reports_keep rfl rfl
  | resumed _ _ => exact reports_retryOrFail W ctx _ _ _
  | looped _ => exact reports_loopTop ctx _

/-! ## What a turn enters in the books -/

theorem settles_done (rows : List Row) (record : JobRecord) :
    done (rows.foldl JobRecord.settle record).counts = done record.counts + rows.length := by
  induction rows generalizing record with
  | nil => rfl
  | cons row rows ih =>
    have hrow : done (record.settle row).counts = done record.counts + 1 := by
      cases row with
      | result r => exact Nat.add_right_comm _ _ _
      | error e => rfl
    rw [List.foldl_cons, ih, hrow, List.length_cons]
    omega

theorem settles_pending (rows : List Row) (record : JobRecord) :
    (rows.foldl JobRecord.settle record).counts.pending =
      record.counts.pending - rows.length := by
  induction rows generalizing record with
  | nil => exact (sub_zero _).symm
  | cons row rows ih =>
    have hrow : (record.settle row).counts.pending = record.counts.pending - 1 := by
      cases row <;> rfl
    rw [List.foldl_cons, ih, hrow, List.length_cons]
    push_cast
    omega

/-- The entry of a turn with these rows that ends in `ws`. -/
def Effect.books (e : Effect) (ws : WorkerState) : Books where
  rows := e.rows
  resolved := e.rows.length
  pending := -e.rows.length
  inFlight := e.flight
  tasksDone := ws.reports

theorem Does.books {ctx ctx' : WorkerContext} {e : Effect} (hdoes : Does ctx ctx' e)
    {ws : WorkerState} (hreports : Reports ctx (ctx', ws)) :
    Books.between ctx ctx' = e.books ws := by
  change ctx'.queue.unfinishedTasks = ctx.queue.unfinishedTasks - ws.reports at hreports
  have hcounts := congrArg JobRecord.counts hdoes.record
  have hdone := settles_done e.rows ctx.record
  have hpending := settles_pending e.rows ctx.record
  have hflight : (e.rows.foldl JobRecord.settle ctx.record).counts.inFlight =
      ctx.record.counts.inFlight :=
    settles_frame (fun record => record.counts.inFlight) (fun _ row => by cases row <;> rfl) _ _
  unfold Books.between Effect.books
  rw [hcounts, hdoes.submitted, List.drop_left]
  congr 1
  · show (done (e.rows.foldl JobRecord.settle ctx.record).counts : ℤ) - _ = _
    omega
  · show (e.rows.foldl JobRecord.settle ctx.record).counts.pending - _ = _
    omega
  · show (e.rows.foldl JobRecord.settle ctx.record).counts.inFlight + e.flight - _ = _
    omega
  · show ctx.queue.unfinishedTasks - ctx'.queue.unfinishedTasks = ws.reports
    omega

/-- A step of a drive is a turn of the worker, entered in the books. -/
theorem driveStep_turn {W : WorkerConfig R} {p q : WorkerState × Books} {w : Wake R}
    (h : driveStep W p w = some q) :
    ∃ ctx' e, workerStep W w.ctx p.1 w.input = some (ctx', q.1) ∧
      Turn W w.ctx ctx' p.1 w.input q.1 e ∧ Does w.ctx ctx' e ∧ q.2 = p.2.add (e.books q.1) := by
  obtain ⟨⟨ctx', ws'⟩, hstep, rfl⟩ := Option.map_eq_some_iff.mp h
  obtain ⟨e, hturn, hdoes⟩ := workerStep_turn hstep
  have hbooks := hdoes.books (workerStep_reports hstep)
  exact ⟨ctx', e, hstep, hturn, hdoes, by rw [← hbooks]⟩

/-! ## The drives in a run of a job -/

/-- The input of a turn of worker `i`. -/
def Action.turnOf {n : ℕ} (i : Fin n) : Action R n → Option (WorkerInput R)
  | .worker j input => if j = i then some input else none
  | _ => none

section Job

variable (J : JobRunner R)

/-- The turns of worker `i` in a run. -/
def wakesOf (i : Fin J.concurrency) :
    State J.concurrency → List (Action R J.concurrency) → List (Wake R)
  | _, [] => []
  | s, a :: actions =>
    ((a.turnOf i).map fun input => ⟨s.ctx, input⟩).toList ++
      match step J s a with
      | some t => wakesOf i t actions
      | none => []

variable {J}

/-- Only its own turns move a worker. -/
theorem step_workers {s t : State J.concurrency} {a : Action R J.concurrency}
    (h : step J s a = some t) {i : Fin J.concurrency} (hother : a.turnOf i = none) :
    t.workers i = s.workers i := by
  cases step_turn h with
  | @worker j input ctx' ws' e hturn hdoes =>
    have hne : i ≠ j := by
      rintro rfl
      rw [Action.turnOf, if_pos rfl] at hother
      cases hother
    exact Function.update_of_ne hne _ _
  | _ => rfl

theorem turnOf_some {n : ℕ} {i : Fin n} {a : Action R n} {input : WorkerInput R}
    (h : a.turnOf i = some input) : a = .worker i input := by
  cases a with
  | worker j input' =>
    rw [Action.turnOf] at h
    split at h
    · obtain rfl := Option.some.inj h
      rw [‹j = i›]
    · cases h
  | _ => cases h

/-- A run of the job drives each of its workers from its state before to its state after. -/
theorem run_drives (i : Fin J.concurrency) {actions : List (Action R J.concurrency)} :
    ∀ {s s' : State J.concurrency} (books : Books), Runs.exec (step J) s actions = some s' →
      ∃ books', Runs.exec (driveStep J.toWorkerConfig) (s.workers i, books)
        (wakesOf J i s actions) = some (s'.workers i, books') := by
  induction actions with
  | nil =>
    intro s s' books h
    obtain rfl := Option.some.inj h
    exact ⟨books, rfl⟩
  | cons a actions ih =>
    intro s s' books h
    obtain ⟨t, ht, hrest⟩ := Runs.exec_cons_iff.mp h
    simp only [wakesOf, ht]
    cases hturn : a.turnOf i with
    | none =>
      rw [← step_workers ht hturn]
      exact ih books hrest
    | some input =>
      obtain rfl := turnOf_some hturn
      obtain ⟨⟨ctx', ws'⟩, hworker, rfl⟩ := Option.map_eq_some_iff.mp ht
      obtain ⟨books', hdrive⟩ := ih (books.add (.between s.ctx ctx')) hrest
      have hdriven : driveStep J.toWorkerConfig (s.workers i, books) ⟨s.ctx, input⟩ =
          some (Function.update s.workers i ws' i, books.add (.between s.ctx ctx')) := by
        rw [Function.update_self, driveStep, hworker]
        rfl
      exact ⟨books', Runs.exec_cons_iff.mpr ⟨_, hdriven, hdrive⟩⟩

end Job

end BatchEngine.Core
