import BatchEngine.Api.Status
import BatchEngine.Core.Emissions
import BatchEngine.Core.TerminalStatus
import BatchEngine.Core.Amplification
import BatchEngine.Lib.Lists
import Mathlib.Tactic.Linarith

/-!
# The backpressure block of a status

The controller keeps the latencies of the last 200 successes, from which it estimates the
concurrency that its rate could use. `run` copies what it knows into the record when it
saves, and the status shows the copy. Nothing in a run depends on either, so both are
carried beside the run.
-/

set_option autoImplicit false

namespace BatchEngine.Api

open BatchEngine.Core BatchEngine.Providers

variable {R : Type*}

/-- `maxlen` of `self._latencies`. -/
def latencyMaxlen : ℕ := 200

def meanLatency (latencies : List ℚ) : ℚ :=
  if latencies = [] then 0 else latencies.sum / latencies.length

def littlesLawOptimalConcurrency (rate : ℚ) (latencies : List ℚ) : ℕ :=
  if meanLatency latencies ≤ 0 then 1 else max 1 ⌈rate * meanLatency latencies⌉₊

def circuitState : BreakerState → String
  | .closed => "closed"
  | .opened => "open"
  | .halfOpen => "half_open"

/-- `RetryBudget.remaining`. -/
def retryBudgetRemaining (budget : RetryBudget) : ℕ := max 0 (budget.limit - budget.used)

/-- `record.backpressure`: the snapshot of the controller, and what is left of the budget. -/
structure Backpressure where
  currentRateLimitRps : ℚ
  configuredMaxRps : ℚ
  throttleEvents429 : ℕ
  retriesIssued : ℕ
  circuitState : String
  observedMeanLatencyS : ℚ
  littlesLawOptimalConcurrency : ℕ
  retryBudgetRemaining : ℕ
  deriving DecidableEq, Repr

/-- `controller.snapshot(circuit_breaker.state)`, with `retry_budget_remaining`. -/
def snapshot (ctx : WorkerContext) (latencies : List ℚ) : Backpressure where
  currentRateLimitRps := roundTo 4 ctx.controller.bucket.rate
  configuredMaxRps := ctx.controller.maxRate
  throttleEvents429 := ctx.controller.throttleEvents429
  retriesIssued := ctx.controller.retriesIssued
  circuitState := circuitState ctx.circuitBreaker.state
  observedMeanLatencyS := roundTo 4 (meanLatency latencies)
  littlesLawOptimalConcurrency :=
    littlesLawOptimalConcurrency ctx.controller.bucket.rate latencies
  retryBudgetRemaining := retryBudgetRemaining ctx.retryBudget

/-- What `get_status` shows of it; the defaults are for a job that has not yet saved a
copy. -/
def backpressureResponse (J : JobRunner R) (record : JobRecord) :
    Option Backpressure → Backpressure
  | some backpressure => backpressure
  | none =>
    { currentRateLimitRps := 0
      configuredMaxRps := rateRps J.rateLimitRpm
      throttleEvents429 := 0
      retriesIssued := 0
      circuitState := "closed"
      observedMeanLatencyS := 0
      littlesLawOptimalConcurrency := J.concurrency
      retryBudgetRemaining := RetryBudget.limit { totalItems := max 1 record.counts.ingested } }

/-! ## Beside the run -/

structure Telemetry where
  latencies : List ℚ := []
  backpressure : Option Backpressure := none

/-- The latency that `record_success` is called with in this turn, if it is. -/
def successLatency (W : WorkerConfig R) (now : ℚ) : WorkerState → WorkerInput R → Option ℚ
  | .calling _ start, .reply r _ _ =>
    if (classify (outcomeOf (W.provider.complete r))).1 = .success then some (now - start) else none
  | _, _ => none

/-- `append` on the deque. -/
def pushLatency (latencies : List ℚ) (latencyS : ℚ) : List ℚ :=
  Lists.last latencyMaxlen (latencies ++ [latencyS])

/-- The copy is made before every save but the first: on the way from the put to the save,
and at the end of `run`. -/
def copies : RunPhase → RunPhase → Bool
  | .putting _, .saving => true
  | .closingSink none, _ => true
  | _, _ => false

def observe (J : JobRunner R) (s : State J.concurrency) (a : Action R J.concurrency)
    (s' : State J.concurrency) (tele : Telemetry) : Telemetry :=
  match a with
  | .worker i input =>
    match successLatency J.toWorkerConfig s.ctx.now (s.workers i) input with
    | none => tele
    | some latencyS => { tele with latencies := pushLatency tele.latencies latencyS }
  | .runner _ =>
    if copies s.phase s'.phase then { tele with backpressure := some (snapshot s'.ctx tele.latencies) }
    else tele
  | _ => tele

def observedStep (J : JobRunner R) : State J.concurrency × Telemetry → Action R J.concurrency →
    Option (State J.concurrency × Telemetry) :=
  Runs.withHistory (step J) (observe J)

/-! ## The latencies of the last rows -/

def latencyOf : Row → Option ℚ
  | .result r => some r.latencyS
  | .error _ => none

theorem onSpendCheck_sink (W : WorkerConfig R) (ctx : WorkerContext) :
    (onSpendCheck W ctx).sink = ctx.sink := by
  unfold onSpendCheck
  split <;> rfl

/-- The row of a success, and maybe the row of the safety net after it. -/
theorem success_latency {W : WorkerConfig R} {ctx : WorkerContext} {next : WorkerContext × WorkerState}
    {h : InHand} {start u : ℚ} {r : R} {raises : Bool}
    (hcall : CallBranch W ctx h start r u raises next)
    (hclass : (classify (outcomeOf (W.provider.complete r))).1 = .success) :
    next.1.sink.submitted.filterMap latencyOf =
      ctx.sink.submitted.filterMap latencyOf ++ [ctx.now - start] := by
  cases hcall with
  | @succeeded resp _ _ =>
    show (onSpendCheck W (emitSuccess ctx h resp start)).sink.submitted.filterMap latencyOf = _
    rw [onSpendCheck_sink]
    show (ctx.sink.submit _).submitted.filterMap latencyOf = _
    rw [ResultSink.submitted_submit, List.filterMap_append]
    rfl
  | raised _ _ _ =>
    show ((ctx.sink.submit _).submit _).submitted.filterMap latencyOf = _
    rw [ResultSink.submitted_submit, ResultSink.submitted_submit, List.append_assoc,
      List.filterMap_append]
    rfl
  | failed hfailed => exact absurd hclass hfailed

theorem calm_latency {W : WorkerConfig R} {input : WorkerInput R} (hcalm : input.Calm W) (now : ℚ)
    (ws : WorkerState) : successLatency W now ws input = none := by
  cases ws with
  | calling h start =>
    cases input with
    | reply r u raises => exact if_neg hcalm.1
    | _ => rfl
  | _ => rfl

/-- A turn hands a success row to the sink exactly if it reports its latency. -/
theorem worker_latency {W : WorkerConfig R} {ctx ctx' : WorkerContext} {ws ws' : WorkerState}
    {input : WorkerInput R} (hstep : workerStep W ctx ws input = some (ctx', ws')) :
    ctx'.sink.submitted.filterMap latencyOf = ctx.sink.submitted.filterMap latencyOf ++
      (successLatency W ctx.now ws input).toList := by
  obtain ⟨rows, boxes, hemission, hleaves⟩ := workerStep_emission hstep
  have herrors : rows.filterMap latencyOf = [] → successLatency W ctx.now ws input = none →
      ctx'.sink.submitted.filterMap latencyOf = ctx.sink.submitted.filterMap latencyOf ++
        (successLatency W ctx.now ws input).toList := by
    intro hrows hnone
    rw [hleaves.submitted, List.filterMap_append, hrows, hnone]
    rfl
  have hsuccess : ∀ {h : InHand} {start u : ℚ} {r : R} {raises : Bool}, ws = .calling h start →
      input = .reply r u raises →
      (classify (outcomeOf (W.provider.complete r))).1 = .success →
      ctx'.sink.submitted.filterMap latencyOf = ctx.sink.submitted.filterMap latencyOf ++
        (successLatency W ctx.now ws input).toList := by
    rintro h start u r raises rfl rfl hclass
    cases workerStep_branch hstep with
    | replied _ hcall =>
      rw [success_latency hcall hclass, successLatency, if_pos hclass]
      rfl
  cases hemission with
  | quiet hcalm => exact herrors rfl (calm_latency hcalm _ _)
  | passed _ => exact herrors rfl rfl
  | cancelled htop _ _ => exact herrors rfl (calm_latency htop.calm _ _)
  | aborted htop _ _ _ => exact herrors rfl (calm_latency htop.calm _ _)
  | succeeded hclass => exact hsuccess rfl rfl hclass
  | raised hclass _ => exact hsuccess rfl rfl hclass
  | fatal hfatal _ =>
    refine herrors rfl (if_neg ?_)
    intro hclass
    rw [hclass] at hfatal
    cases hfatal
  | failed hclass _ _ _ => exact herrors rfl (if_neg hclass)
  | gaveUp _ => exact herrors rfl rfl
  | exhausted hcalm _ => exact herrors rfl (calm_latency hcalm _ _)

/-- A call that goes out in a turn starts at the time of the turn. -/
theorem turn_calling {W : WorkerConfig R} {ctx ctx' : WorkerContext} {ws ws' : WorkerState}
    {input : WorkerInput R} {e : Effect} {h : InHand} {start : ℚ}
    (hturn : Turn W ctx ctx' ws input ws' e) (hcalling : ws' = .calling h start) :
    start = ctx.now := by
  have hloop : ∀ {h' : InHand} {e : Effect}, LoopTurn ctx h' ws' e → start = ctx.now := by
    intro h' e hturn
    cases hturn <;> cases hcalling
    rfl
  have hretry : ∀ {h' : InHand} {e : Effect}, ¬ RetryTurn h' ws' e := by
    intro h' e hturn
    cases hturn <;> cases hcalling
  cases hturn with
  | taken hturn => exact hloop hturn
  | asked hturn => exact hloop hturn
  | looped hturn => exact hloop hturn
  | resumed hturn => exact absurd hturn hretry
  | granted =>
    cases hcalling
    rfl
  | replied hcall =>
    cases hcall with
    | failed _ _ hturn => exact absurd hturn hretry
    | _ => cases hcalling
  | _ => cases hcalling

/-- In a run that began at `began`: the deque, the calls under way and the rows. -/
structure Timed {n : ℕ} (began : ℚ) (s : State n) (latencies : List ℚ) : Prop where
  window : latencies = Lists.last latencyMaxlen (s.ctx.sink.submitted.filterMap latencyOf)
  elapsed : began ≤ s.ctx.now
  calling : ∀ i h start, s.workers i = .calling h start → began ≤ start ∧ start ≤ s.ctx.now
  rows : ∀ x ∈ s.ctx.sink.submitted.filterMap latencyOf, 0 ≤ x ∧ x ≤ s.ctx.now - began

variable {J : JobRunner R}

theorem timed_worker {began : ℚ} {s : State J.concurrency} {tele : Telemetry}
    (hs : Timed began s tele.latencies) {i : Fin J.concurrency} {input : WorkerInput R}
    {ctx' : WorkerContext} {ws' : WorkerState} {e : Effect} {s' : State J.concurrency}
    (hstep : workerStep J.toWorkerConfig s.ctx (s.workers i) input = some (ctx', ws'))
    (hturn : Turn J.toWorkerConfig s.ctx ctx' (s.workers i) input ws' e)
    (hdoes : Does s.ctx ctx' e) :
    Timed began { s with ctx := ctx', workers := Function.update s.workers i ws' }
      (observe J s (.worker i input) s' tele).latencies := by
  have hrows := worker_latency hstep
  have hcalling : ∀ j h start, Function.update s.workers i ws' j = .calling h start →
      began ≤ start ∧ start ≤ ctx'.now := by
    intro j h start hj
    rw [hdoes.now]
    by_cases hi : j = i
    · subst hi
      rw [Function.update_self] at hj
      obtain rfl := turn_calling hturn hj
      exact ⟨hs.elapsed, le_rfl⟩
    · rw [Function.update_of_ne hi] at hj
      exact hs.calling j h start hj
  have helapsed : began ≤ ctx'.now := hdoes.now ▸ hs.elapsed
  cases hlatency : successLatency J.toWorkerConfig s.ctx.now (s.workers i) input with
  | none =>
    rw [hlatency, Option.toList_none, List.append_nil] at hrows
    have hsame : (observe J s (.worker i input) s' tele).latencies = tele.latencies := by
      rw [observe, hlatency]
    rw [hsame]
    refine ⟨hs.window.trans (congrArg _ hrows.symm), helapsed, hcalling, fun x hx => ?_⟩
    show 0 ≤ x ∧ x ≤ ctx'.now - began
    rw [hdoes.now]
    exact hs.rows x (hrows ▸ hx)
  | some x =>
    rw [hlatency, Option.toList_some] at hrows
    have hpush : (observe J s (.worker i input) s' tele).latencies =
        pushLatency tele.latencies x := by
      rw [observe, hlatency]
    have hx : 0 ≤ x ∧ x ≤ s.ctx.now - began := by
      unfold successLatency at hlatency
      split at hlatency
      · rename_i h start r u raises hws
        split at hlatency
        · obtain rfl := Option.some.inj hlatency
          obtain ⟨hbegan, hstart⟩ := hs.calling i h start hws
          exact ⟨by linarith, by linarith⟩
        · cases hlatency
      · cases hlatency
    rw [hpush]
    refine ⟨?_, helapsed, hcalling, fun y hy => ?_⟩
    · rw [pushLatency, hs.window, Lists.last_last_append]
      exact congrArg _ hrows.symm
    · show 0 ≤ y ∧ y ≤ ctx'.now - began
      rw [hdoes.now]
      rcases List.mem_append.mp (hrows ▸ hy) with hold | hnew
      · exact hs.rows y hold
      · exact List.mem_singleton.mp hnew ▸ hx

theorem observe_quiet {s s' : State J.concurrency} {a : Action R J.concurrency}
    (hquiet : ∀ i input, a ≠ .worker i input) (tele : Telemetry) :
    (observe J s a s' tele).latencies = tele.latencies := by
  unfold observe
  split
  · exact absurd rfl (hquiet _ _)
  · split <;> rfl
  · rfl

/-- Time goes on and the sink's writer works; neither hands in rows or moves a worker. -/
theorem Timed.rests {n : ℕ} {began : ℚ} {s s' : State n} {latencies : List ℚ}
    (h : Timed began s latencies) (hnow : s.ctx.now ≤ s'.ctx.now)
    (hworkers : s'.workers = s.workers)
    (hsubmitted : s'.ctx.sink.submitted = s.ctx.sink.submitted) : Timed began s' latencies := by
  refine ⟨?_, h.elapsed.trans hnow, fun i c start hi => ?_, fun x hx => ?_⟩
  · rw [hsubmitted]
    exact h.window
  · obtain ⟨hbegan, hstart⟩ := h.calling i c start (hworkers ▸ hi)
    exact ⟨hbegan, hstart.trans hnow⟩
  · obtain ⟨hzero, hle⟩ := h.rows x (hsubmitted ▸ hx)
    exact ⟨hzero, by linarith⟩

theorem step_timed {began : ℚ} {p q : State J.concurrency × Telemetry}
    {a : Action R J.concurrency} (hp : Timed began p.1 p.2.latencies)
    (h : observedStep J p a = some q) : Timed began q.1 q.2.latencies := by
  obtain ⟨hstep, htele⟩ := Runs.withHistory_some.mp h
  rw [htele]
  by_cases hworker : ∃ i input, a = .worker i input
  · obtain ⟨i, input, rfl⟩ := hworker
    obtain ⟨⟨ctx', ws'⟩, hmove, hnext⟩ := Option.map_eq_some_iff.mp hstep
    obtain ⟨e, hturn, hdoes⟩ := workerStep_turn hmove
    rw [← hnext]
    exact timed_worker hp hmove hturn hdoes
  · have hquiet : ∀ i input, a ≠ .worker i input := fun i input ha => hworker ⟨i, input, ha⟩
    rw [observe_quiet hquiet]
    generalize q.1 = s' at hstep ⊢
    cases step_turn hstep with
    | worker _ _ => exact absurd rfl (hquiet _ _)
    | tick hdt => exact hp.rests (le_add_of_nonneg_right hdt) rfl rfl
    | wrote hsink => exact hp.rests le_rfl rfl (ResultSink.submitted_writerStep hsink)
    | timedOut hsink => exact hp.rests le_rfl rfl (ResultSink.submitted_writerTimeout hsink)
    | gathered _ _ => exact hp.rests le_rfl rfl (ResultSink.submitted_close _)
    | _ => exact hp.rests le_rfl rfl rfl

theorem meanLatency_bounds {latencies : List ℚ} {bound : ℚ} (hbound : 0 ≤ bound)
    (h : ∀ x ∈ latencies, 0 ≤ x ∧ x ≤ bound) :
    0 ≤ meanLatency latencies ∧ meanLatency latencies ≤ bound := by
  unfold meanLatency
  split
  · exact ⟨le_rfl, hbound⟩
  · rename_i hne
    have hpos : (0 : ℚ) < latencies.length :=
      Nat.cast_pos.mpr (List.length_pos_of_ne_nil hne)
    constructor
    · exact div_nonneg (List.sum_nonneg fun x hx => (h x hx).1) hpos.le
    · rw [div_le_iff₀ hpos, mul_comm, ← nsmul_eq_mul]
      exact List.sum_le_card_nsmul latencies bound fun x hx => (h x hx).2

/-- At every moment the controller's deque holds the latencies of the last 200 success
rows, in the order of the rows, and their mean is between zero and the time that the run
has taken. -/
theorem latency_window {now wall : ℚ} {actions : List (Action R J.concurrency)}
    {s : State J.concurrency} {tele : Telemetry}
    (hrun : Runs.exec (observedStep J) (J.start now wall, {}) actions = some (s, tele)) :
    tele.latencies = Lists.last latencyMaxlen (s.ctx.sink.submitted.filterMap latencyOf) ∧
      0 ≤ meanLatency tele.latencies ∧ meanLatency tele.latencies ≤ s.ctx.now - now := by
  have hstart : Timed now (J.start now wall) [] := by
    refine ⟨(Lists.last_nil _).symm, le_rfl, fun i h start hi => ?_,
      fun x hx => absurd hx List.not_mem_nil⟩
    cases hi
  have hend : Timed now s tele.latencies :=
    Runs.exec_invariant' (I := fun p : State J.concurrency × Telemetry =>
      Timed now p.1 p.2.latencies) (fun _ _ _ hp h => step_timed hp h) hstart hrun
  have hrows : ∀ x ∈ tele.latencies, 0 ≤ x ∧ x ≤ s.ctx.now - now := by
    intro x hx
    rw [hend.window] at hx
    exact hend.rows x (List.mem_of_mem_drop hx)
  exact ⟨hend.window, meanLatency_bounds (sub_nonneg.mpr hend.elapsed) hrows⟩

/-- The job of `twoRows`, up to its last save; the call took three seconds. -/
def twoRowsObserved : State 2 × Telemetry :=
  (Runs.exec (observedStep twoRows) (twoRows.start 0 0, {})
    (List.replicate 5 (.runner false) ++
      [.nth 0 .take, .nth 1 .take, .tick 3 3,
        .nth 0 (.reply (.returned { statusCode := 200, text := "hi", inputTokens := 3 }) 0 false)] ++
      List.replicate 5 (.runner false) ++
      [.nth 0 .take, .nth 1 .take, .runner false, .writer, .writer, .writer] ++
      List.replicate 2 (.runner false))).get (by decide +kernel)

theorem latency_window_twoRows : twoRowsObserved.2.latencies = [3] ∧
    twoRowsObserved.2.latencies = Lists.last latencyMaxlen
      (twoRowsObserved.1.ctx.sink.submitted.filterMap latencyOf) :=
  ⟨by decide +kernel, (latency_window (J := twoRows) (Option.some_get _).symm).1⟩

/-! ## The copy in the record -/

/-- The copy of a turn is the one that was there, or one of the turn's outcome. -/
theorem observe_backpressure (s s' : State J.concurrency) (a : Action R J.concurrency)
    (tele : Telemetry) :
    (observe J s a s' tele).backpressure = tele.backpressure ∨
      (observe J s a s' tele).backpressure =
        some (snapshot s'.ctx (observe J s a s' tele).latencies) := by
  unfold observe
  split
  · split <;> exact Or.inl rfl
  · split
    · exact Or.inr rfl
    · exact Or.inl rfl
  · exact Or.inl rfl

theorem copied_earlier {now wall : ℚ} {b : Backpressure} (actions : List (Action R J.concurrency)) :
    ∀ {p : State J.concurrency × Telemetry},
      Runs.exec (observedStep J) (J.start now wall, {}) actions = some p →
      p.2.backpressure = some b → ∃ before after t tele, actions = before ++ after ∧
        Runs.exec (observedStep J) (J.start now wall, {}) before = some (t, tele) ∧
        Runs.exec (observedStep J) (t, tele) after = some p ∧ b = snapshot t.ctx tele.latencies := by
  induction actions using List.reverseRecOn with
  | nil =>
    intro p hrun hb
    obtain rfl := Option.some.inj hrun
    cases hb
  | append_singleton actions a ih =>
    intro q hrun hb
    obtain ⟨p, hp, hstep⟩ := Runs.exec_snoc.mp hrun
    obtain ⟨-, htele⟩ := Runs.withHistory_some.mp hstep
    rcases observe_backpressure p.1 q.1 a p.2 with hsame | hnew
    · rw [htele, hsame] at hb
      obtain ⟨before, after, t, tele, rfl, hbefore, hafter, hcopy⟩ := ih hp hb
      refine ⟨before, after ++ [a], t, tele, List.append_assoc _ _ _, hbefore, ?_, hcopy⟩
      exact Runs.exec_snoc.mpr ⟨p, hafter, hstep⟩
    · refine ⟨actions ++ [a], [], q.1, q.2, (List.append_nil _).symm, hrun, rfl, ?_⟩
      rw [htele] at hb ⊢
      exact Option.some.inj (hb.symm.trans hnew)

/-- Once the record is final, so is the copy. -/
def Copied (p : State J.concurrency × Telemetry) : Prop :=
  p.1.phase.stage = .unfinalized ∨ p.2.backpressure = some (snapshot p.1.ctx p.2.latencies)

theorem step_copied {p q : State J.concurrency × Telemetry} {a : Action R J.concurrency}
    (hreach : Reachable J p.1) (hp : Copied p) (h : observedStep J p a = some q) : Copied q := by
  obtain ⟨hstep, htele⟩ := Runs.withHistory_some.mp h
  unfold Copied
  rw [htele]
  generalize q.1 = s' at hstep ⊢
  have ht := step_turn hstep
  cases ht with
  | tick _ => exact hp
  | cancel => exact hp
  | wrote _ => exact hp
  | timedOut _ => exact hp
  | worker hturn _ =>
    have hopen : p.1.phase.stage = .unfinalized :=
      stage_of_not_drained (worker_not_drained hreach hturn)
    exact Or.inl hopen
  | put _ _ hnext => rcases hnext with rfl | rfl | rfl <;> exact Or.inl rfl
  | saved _ hnext => rcases hnext with rfl | rfl <;> exact Or.inl rfl
  | reraised hphase =>
    have hheld := reachable_held hreach fun e hfinished => by cases hphase.symm.trans hfinished
    rw [hphase] at hheld
    rcases hheld with hexc | hexc <;> cases hexc
    exact Or.inl rfl
  | finalized hphase =>
    right
    simp only [observe, hphase, copies, ↓reduceIte]
  | savedFinal hphase =>
    have hcopied := hp.resolve_left fun hopen => by
      rw [hphase] at hopen
      cases hopen
    right
    simp only [observe, hphase, copies, Bool.false_eq_true, ↓reduceIte]
    exact hcopied
  | delivered hphase =>
    have hcopied := hp.resolve_left fun hopen => by
      rw [hphase] at hopen
      cases hopen
    right
    simp only [observe, hphase, copies, Bool.false_eq_true, ↓reduceIte]
    exact hcopied
  | _ => exact Or.inl rfl

theorem run_copied {now wall : ℚ} {actions : List (Action R J.concurrency)}
    {p : State J.concurrency × Telemetry}
    (hrun : Runs.exec (observedStep J) (J.start now wall, {}) actions = some p) : Copied p := by
  have hboth : Reachable J p.1 ∧ Copied p := by
    refine Runs.exec_invariant' (I := fun p : State J.concurrency × Telemetry =>
      Reachable J p.1 ∧ Copied p) ?_ ⟨reachable_start J now wall, Or.inl rfl⟩ hrun
    exact fun p a q hp h =>
      ⟨hp.1.step (Runs.withHistory_some.mp h).1, step_copied hp.1 hp.2 h⟩
  exact hboth.2

theorem retries_add_remaining {s : State J.concurrency} (h : Reachable J s) (latencies : List ℚ) :
    (snapshot s.ctx latencies).retriesIssued + (snapshot s.ctx latencies).retryBudgetRemaining =
      max 1 (s.ctx.record.counts.ingested / 5) := by
  obtain ⟨hissued, hused⟩ := reachable_used h
  rw [← reachable_limit h]
  show s.ctx.controller.retriesIssued + max 0 (s.ctx.retryBudget.limit - s.ctx.retryBudget.used) = _
  omega

theorem run_retries {actions : List (Action R J.concurrency)} {s s' : State J.concurrency}
    (hrun : Runs.exec (step J) s actions = some s') :
    s.ctx.controller.retriesIssued ≤ s'.ctx.controller.retriesIssued := by
  refine Runs.exec_rel (R := fun s s' : State J.concurrency =>
    s.ctx.controller.retriesIssued ≤ s'.ctx.controller.retriesIssued) (fun _ => le_rfl)
    (fun _ _ _ => le_trans) ?_ hrun
  intro s a t ht
  cases step_turn ht with
  | worker _ hdoes => exact hdoes.retriesIssued ▸ Nat.le_add_right _ _
  | _ => exact le_rfl

/-- What the status shows of the backpressure is the default of a job that has saved
nothing, or was true at one earlier moment of the run, with retries issued and left adding
up to the budget of that moment; and it is what is true now once the job has its final
record. -/
theorem backpressure_shown {now wall : ℚ} {actions : List (Action R J.concurrency)}
    {s : State J.concurrency} {tele : Telemetry}
    (hrun : Runs.exec (observedStep J) (J.start now wall, {}) actions = some (s, tele)) :
    let shown := backpressureResponse J s.ctx.record tele.backpressure
    (tele.backpressure = none ∨ ∃ before after t tele', actions = before ++ after ∧
      Runs.exec (observedStep J) (J.start now wall, {}) before = some (t, tele') ∧
      shown = snapshot t.ctx tele'.latencies ∧
      shown.retriesIssued + shown.retryBudgetRemaining =
        max 1 (t.ctx.record.counts.ingested / 5)) ∧
    shown.retriesIssued ≤ s.ctx.controller.retriesIssued ∧
    (s.phase.stage ≠ .unfinalized → shown = snapshot s.ctx tele.latencies) := by
  intro shown
  have hcopied := run_copied hrun
  refine ⟨?_, ?_, ?_⟩
  · cases hb : tele.backpressure with
    | none => exact Or.inl rfl
    | some b =>
      obtain ⟨before, after, t, tele', hsplit, hbefore, -, rfl⟩ := copied_earlier actions hrun hb
      have ht : Reachable J t := ⟨now, wall, before, Runs.exec_of_withHistory hbefore⟩
      have hshown : shown = snapshot t.ctx tele'.latencies := by
        show backpressureResponse J s.ctx.record tele.backpressure = _
        rw [hb]
        rfl
      refine Or.inr ⟨before, after, t, tele', hsplit, hbefore, hshown, ?_⟩
      rw [hshown]
      exact retries_add_remaining ht _
  · cases hb : tele.backpressure with
    | none =>
      show (backpressureResponse J s.ctx.record tele.backpressure).retriesIssued ≤ _
      rw [hb]
      exact Nat.zero_le _
    | some b =>
      obtain ⟨before, after, t, tele', -, -, hafter, rfl⟩ := copied_earlier actions hrun hb
      show (backpressureResponse J s.ctx.record tele.backpressure).retriesIssued ≤ _
      rw [hb]
      exact run_retries (Runs.exec_of_withHistory hafter)
  · intro hstage
    show backpressureResponse J s.ctx.record tele.backpressure = _
    rw [hcopied.resolve_left hstage]
    rfl

theorem backpressure_shown_twoRows : twoRowsObserved.1.phase.stage ≠ .unfinalized ∧
    backpressureResponse twoRows twoRowsObserved.1.ctx.record twoRowsObserved.2.backpressure =
      snapshot twoRowsObserved.1.ctx twoRowsObserved.2.latencies := by
  have hphase : twoRowsObserved.1.phase = .delivering := by decide +kernel
  have hstage : twoRowsObserved.1.phase.stage ≠ .unfinalized := by
    rw [hphase]
    exact Stage.noConfusion
  exact ⟨hstage, (backpressure_shown (J := twoRows) (Option.some_get _).symm).2.2 hstage⟩

end BatchEngine.Api
