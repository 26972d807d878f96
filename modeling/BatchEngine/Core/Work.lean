import BatchEngine.Core.Amplification
import BatchEngine.Core.SinkOrder
import BatchEngine.Lib.Progress

/-!
# The work that is left

What a job has yet to do is counted in steps: three for each entry of the stream, up to
six for each attempt that an item may still make, one for each row and each mark that the
writer has before it. A step that only waits leaves the count alone, every other step
lowers it.
-/

set_option autoImplicit false

namespace BatchEngine.Core

open BatchEngine.Providers

variable {R : Type*} {J : JobRunner R}

/-! ## The measure -/

/-- A worker's steps to the end of its item, with the two rows that it may submit. -/
def WorkerState.work : WorkerState → ℕ
  | .idle | .returned => 0
  | .breakerWait h _ => 6 * (8 - h.attempt) + 2
  | .acquiring h _ => 6 * (8 - h.attempt) + 7
  | .calling h _ => 6 * (8 - h.attempt) + 6
  | .resetWait h _ _ => 6 * (8 - h.attempt) + 5
  | .resetJitter h _ _ => 6 * (8 - h.attempt) + 4
  | .backoff h _ => 6 * (8 - h.attempt) + 3

def Queued.work : Queued → ℕ
  | .ticket _ => 51
  | .shutdown => 1

/-- The runner's steps, and what it will put into the queue. -/
def RunPhase.work (n entries : ℕ) : RunPhase → ℕ
  | .finished _ => 0
  | .delivering => 1
  | .savingFinal => 2
  | .closingSink _ => 3
  | .gathering _ => 5
  | .shuttingDown left _ => 6 + 2 * left
  | .closing _ => 7 + 2 * n
  | .reading => 8 + 2 * n + 54 * entries
  | .starting | .saving => 9 + 2 * n + 54 * entries
  | .putting _ => 61 + 2 * n + 54 * entries

def queueWork (items : List Queued) : ℕ := (items.map Queued.work).sum

/-- What is left to do in this state. -/
def work {n : ℕ} (s : State n) : ℕ :=
  s.phase.work n s.rest.length + queueWork s.ctx.queue.items + s.ctx.sink.queue.length +
    ∑ i, (s.workers i).work

/-- A worker that goes on waiting, for the breaker or for a token. -/
def WorkerState.waitsOn : WorkerState → WorkerState → Bool
  | .breakerWait _ _, .breakerWait _ _ | .acquiring _ _, .acquiring _ _ => true
  | _, _ => false

/-- The step only lets time pass: a clock, a request to cancel, a timer of the writer or a
worker that goes on waiting. -/
def waits {n : ℕ} (s : State n) (a : Action R n) (s' : State n) : Bool :=
  match a with
  | .tick _ _ | .cancel | .writerTimeout => true
  | .worker i _ => (s.workers i).waitsOn (s'.workers i)
  | .runner _ | .writer => false

/-! ## A worker's turn -/

@[simp] theorem queueWork_append (items items' : List Queued) :
    queueWork (items ++ items') = queueWork items + queueWork items' := by
  simp [queueWork]

/-- From the top of the loop: one step less, unless the breaker refuses once more. -/
theorem loopTurn_work {ctx : WorkerContext} {h : InHand} {ws' : WorkerState} {e : Effect}
    (hturn : LoopTurn ctx h ws' e) (hroom : h.attempt < 8) (wake : ℚ) :
    e.pops = [] ∧ ws'.work + e.rows.length +
      (if (WorkerState.breakerWait h wake).waitsOn ws' then 0 else 1) ≤
        6 * (8 - h.attempt) + 2 := by
  refine ⟨?_, ?_⟩
  · cases hturn <;> rfl
  · cases hturn <;> simp [WorkerState.work, WorkerState.waitsOn] <;> omega

theorem retryTurn_work {h : InHand} {ws' : WorkerState} {e : Effect} (hturn : RetryTurn h ws' e) :
    e.pops = [] ∧ ws'.work + e.rows.length + 1 ≤ 6 * (8 - h.attempt) + 4 := by
  cases hturn <;> simp [WorkerState.work]

theorem callTurn_work {W : WorkerConfig R} {ctx' : WorkerContext} {h : InHand}
    {outcome : Outcome} {raises : Bool} {ws' : WorkerState} {e : Effect}
    (hturn : CallTurn W ctx' h outcome raises ws' e) :
    e.pops = [] ∧ ws'.work + e.rows.length + 1 ≤ 6 * (8 - h.attempt) + 6 := by
  cases hturn with
  | failed _ _ hretry =>
    obtain ⟨hpops, hwork⟩ := retryTurn_work hretry
    exact ⟨hpops, by omega⟩
  | _ => simp [WorkerState.work]

/-- A turn that does not wait does one step, at least. -/
theorem turn_work {W : WorkerConfig R} {ctx ctx' : WorkerContext} {ws ws' : WorkerState}
    {input : WorkerInput R} {e : Effect} {calls : List Call}
    (hturn : Turn W ctx ctx' ws input ws' e) (hws : Attempted calls ws) :
    ws'.work + e.rows.length + (if ws.waitsOn ws' then 0 else 1) ≤
      ws.work + queueWork e.pops := by
  cases hturn with
  | shutdown => exact le_rfl
  | passed => simp [WorkerState.work, WorkerState.waitsOn, queueWork, Queued.work]
  | @taken seq p ws' e hloop =>
    have hwork := (loopTurn_work hloop (Nat.succ_pos 7) 0).2
    change ws'.work + e.rows.length + 1 ≤ 51
    omega
  | @asked h wake u ws' e hloop =>
    obtain ⟨hpops, hwork⟩ := loopTurn_work hloop hws.2 wake
    simpa [hpops, queueWork, WorkerState.work] using hwork
  | @looped h wake u ws' e hloop =>
    obtain ⟨hpops, hwork⟩ := loopTurn_work hloop hws.2 wake
    rw [hpops]
    change ws'.work + e.rows.length + 1 ≤ 6 * (8 - h.attempt) + 3
    omega
  | waited => simp [WorkerState.work, WorkerState.waitsOn]
  | granted => simp [WorkerState.work, WorkerState.waitsOn]
  | replied hcall =>
    obtain ⟨hpops, hwork⟩ := callTurn_work hcall
    simpa [hpops, queueWork, WorkerState.work, WorkerState.waitsOn] using hwork
  | jittered => simp [WorkerState.work, WorkerState.waitsOn]
  | resumed hretry =>
    obtain ⟨hpops, hwork⟩ := retryTurn_work hretry
    simpa [hpops, queueWork, WorkerState.work, WorkerState.waitsOn] using hwork

/-! ## One step of the job -/

theorem writerStep_work {sink sink' : ResultSink} {now : ℚ}
    (h : sink.writerStep now = some sink') : sink.queue.length = sink'.queue.length + 1 := by
  obtain ⟨-, ⟨row, hqueue, -⟩ | ⟨hqueue, -, -⟩⟩ := writerStep_cases h
  · rw [hqueue, List.length_cons]
  · rw [hqueue, List.length_cons]

/-- The rows of a turn wait for the writer. -/
theorem worker_sinkQueue {W : WorkerConfig R} {ctx : WorkerContext} {ws : WorkerState}
    {input : WorkerInput R} {next : Next} {e : Effect}
    (hstep : workerStep W ctx ws input = some next) (hdoes : Does ctx next.1 e) :
    next.1.sink.queue.length = ctx.sink.queue.length + e.rows.length := by
  obtain ⟨rows, boxes, -, hleaves⟩ := workerStep_emission hstep
  have hrows : rows = e.rows :=
    List.append_cancel_left (hleaves.submitted.symm.trans hdoes.submitted)
  rw [hleaves.sink, (foldl_submit rows ctx.sink).1, hrows, List.length_append, List.length_map]

/-- A step of the runner that hands nothing over. -/
theorem work_runner {n : ℕ} {s s' : State n}
    (hqueue : s'.ctx.queue.items = s.ctx.queue.items)
    (hsink : s'.ctx.sink = s.ctx.sink) (hworkers : s'.workers = s.workers)
    (hphase : s'.phase.work n s'.rest.length < s.phase.work n s.rest.length) :
    work s' < work s := by
  unfold work
  rw [hqueue, hsink, hworkers]
  omega

/-- A put of the runner. -/
theorem work_put {n : ℕ} {s s' : State n} {x : Queued} {q : BoundedQueue Queued}
    (hput : s.ctx.queue.put x = some q) (hqueue : s'.ctx.queue = q)
    (hsink : s'.ctx.sink = s.ctx.sink) (hworkers : s'.workers = s.workers)
    (hphase : s'.phase.work n s'.rest.length + x.work < s.phase.work n s.rest.length) :
    work s' < work s := by
  have hitems : queueWork q.items = queueWork s.ctx.queue.items + x.work := by
    rw [(BoundedQueue.put_some hput).2.1, queueWork_append]
    simp [queueWork]
  unfold work
  rw [hqueue, hsink, hworkers, hitems]
  omega

theorem step_work {s s' : State J.concurrency} {a : Action R J.concurrency}
    (hreach : Reachable J s) (h : step J s a = some s') :
    work s' + (if waits s a s' then 0 else 1) ≤ work s := by
  cases step_turn h with
  | tick _ => exact le_rfl
  | cancel => exact le_rfl
  | timedOut hsink =>
    have hqueue := (writerTimeout_cases hsink).2.1
    simp only [work, waits, hqueue]
    exact le_rfl
  | wrote hsink =>
    have hqueue := writerStep_work hsink
    simp only [work, waits, hqueue, Bool.false_eq_true, ↓reduceIte]
    omega
  | @worker i input ctx' ws' e hturn hdoes =>
    obtain ⟨⟨ctx'', ws''⟩, hworker, hs'⟩ := Option.map_eq_some_iff.mp h
    obtain rfl : ctx'' = ctx' := congrArg State.ctx hs'
    have hsink := worker_sinkQueue hworker hdoes
    have hwork := turn_work hturn ((reachable_sent hreach).attempted i)
    have hsum := Runs.sum_update_add s.workers WorkerState.work i ws'
    have hqueue := congrArg queueWork hdoes.queue
    rw [queueWork_append] at hqueue
    simp only [work, waits, Function.update_self]
    simp only at hsink
    omega
  | begun hphase => exact work_runner rfl rfl rfl (by simp [hphase, RunPhase.work])
  | ended hphase hrest => exact work_runner rfl rfl rfl (by simp [hphase, hrest, RunPhase.work])
  | dropped hphase hrest _ => exact work_runner rfl rfl rfl (by simp [hphase, RunPhase.work]; omega)
  | ingested hphase hrest =>
    exact work_runner rfl rfl rfl (by simp [hphase, hrest, RunPhase.work]; omega)
  | @put t q next hphase hput hnext =>
    refine work_put hput rfl rfl rfl ?_
    rcases hnext with rfl | rfl | rfl <;> simp [hphase, RunPhase.work, Queued.work] <;> omega
  | @saved next hphase hnext =>
    refine work_runner rfl rfl rfl ?_
    rcases hnext with rfl | rfl <;> simp [hphase, RunPhase.work]
    omega
  | closed hphase => exact work_runner rfl rfl rfl (by simp [hphase, RunPhase.work])
  | sentinel hphase hput =>
    exact work_put hput rfl rfl rfl (by simp [hphase, RunPhase.work, Queued.work]; omega)
  | gathering hphase => exact work_runner rfl rfl rfl (by simp [hphase, RunPhase.work])
  | gathered hphase _ =>
    simp only [work, waits, hphase, RunPhase.work, ResultSink.close, List.length_append,
      List.length_singleton, Bool.false_eq_true, ↓reduceIte]
    omega
  | reraised hphase => exact work_runner rfl rfl rfl (by simp [hphase, RunPhase.work])
  | costRaised hphase _ => exact work_runner rfl rfl rfl (by simp [hphase, RunPhase.work])
  | finalized hphase =>
    refine work_runner rfl rfl rfl ?_
    simp only [hphase]
    split <;> simp [RunPhase.work]
  | savedFinal hphase => exact work_runner rfl rfl rfl (by simp [hphase, RunPhase.work])
  | delivered hphase => exact work_runner rfl rfl rfl (by simp [hphase, RunPhase.work])

/-! ## The law -/

theorem work_start (J : JobRunner R) (now wall : ℚ) :
    work (J.start now wall) = 54 * J.input.entries.length + 2 * J.concurrency + 9 := by
  have hidle : ∑ i, ((J.start now wall).workers i).work = 0 := Finset.sum_eq_zero fun i _ => rfl
  unfold work
  rw [hidle]
  show 9 + 2 * J.concurrency + 54 * J.input.entries.length + 0 + 0 + 0 = _
  omega

/-- Whatever the provider answers and whoever is scheduled, the steps of a run that do not
merely wait are at most 54 for each entry of the stream, two for each worker and nine. -/
theorem labour_bounded {now wall : ℚ} {actions : List (Action R J.concurrency)}
    {s : State J.concurrency} {labour : ℕ}
    (hrun : Runs.exec (Runs.labouring (step J) waits) (J.start now wall, 0) actions =
      some (s, labour)) :
    labour + work s ≤ 54 * J.input.entries.length + 2 * J.concurrency + 9 := by
  have hbound := Runs.labour_le (Reachable J) waits (fun s => work s)
    (fun s a t hs ht => hs.step ht) ?_ ?_ (reachable_start J now wall) hrun
  · rw [work_start, Nat.zero_add] at hbound
    exact hbound
  · intro s a t hs ht hwaits
    have hstep := step_work hs ht
    rw [hwaits, if_pos rfl] at hstep
    exact hstep
  · intro s a t hs ht hwaits
    have hstep := step_work hs ht
    rw [hwaits, if_neg Bool.false_ne_true] at hstep
    exact hstep

def twoRowsLaboured : State 2 × ℕ :=
  (Runs.exec (Runs.labouring (step twoRows) waits) (twoRows.start 0 0, 0) twoRowsRun).get
    (by decide +kernel)

/-- None of the steps of `twoRowsRun` merely waits. -/
theorem labour_bounded_twoRows : twoRowsLaboured.2 = twoRowsRun.length ∧
    twoRowsLaboured.2 + work twoRowsLaboured.1 ≤ 54 * 2 + 2 * 2 + 9 :=
  ⟨by decide +kernel, labour_bounded (J := twoRows) (Option.some_get _).symm⟩

end BatchEngine.Core
