import BatchEngine.Core.SinkOrder
import BatchEngine.Core.SpendLedger

/-!
# The task of a job, and its cancellation

When the server shuts down, `lifespan` cancels the tasks that are not done and waits for
them. `CancelledError` comes out of the await point at which the task stands and is no
`Exception`: every handler on the way lets it pass, and the tail of `run` is skipped. Here
is what has become of the record and the store when a job's task is over.
-/

set_option autoImplicit false

namespace BatchEngine.Core

open BatchEngine.Providers

/-- The task `_run_and_settle`. `unwinding`: `gather` has passed a cancellation on to the
workers and waits for them. `dropped`: the task was cancelled before it was ever entered. -/
structure JobTask (n : ℕ) where
  job : State n
  unwinding : Bool := false
  dropped : Bool := false

/-- `saved` is whether a save that the cancellation interrupts has reached the store. -/
inductive TaskAction (R : Type*) (n : ℕ) where
  | job (a : Action R n)
  | cancel (saved : Bool)
  | drop
  | unwind (i : Fin n)
  | unwound

/-- The actions of `run` and its workers. -/
def Action.byTasks {R : Type*} {n : ℕ} : Action R n → Bool
  | .runner _ | .worker _ _ => true
  | _ => false

/-- `CancelledError` at the await point of `run`, outside `gather`. `queue.put`, `store.save`
and `aclose` raise it; the wait for the writer cancels the writer first. -/
def interrupt {n : ℕ} (s : State n) (saved : Bool) : State n :=
  match s.phase with
  | .starting =>
    let record := { s.ctx.record with status := .running }
    { s with
      ctx.record := record
      store := if saved then some record else s.store
      phase := .finished (some .cancelled) }
  | .reading | .putting _ => { s with phase := .closing (some .cancelled) }
  | .saving =>
    { s with
      store := if saved then some s.ctx.record else s.store
      phase := .closing (some .cancelled) }
  | .closing _ => { s with phase := .shuttingDown n (some .cancelled) }
  -- The `finally` block is left as well: nobody waits for the workers, which run on.
  | .shuttingDown _ _ | .delivering => { s with phase := .finished (some .cancelled) }
  | .closingSink _ => { s with ctx.sink.done := true, phase := .finished (some .cancelled) }
  | .savingFinal =>
    { s with
      store := if saved then some s.ctx.record else s.store
      phase := .finished (some .cancelled) }
  | .gathering _ | .finished _ => s

/-- `CancelledError` at the await point of a worker: `in_flight -= 1` when it was in a call,
`task_done` when it had an item. -/
def unwindWorker (ctx : WorkerContext) : WorkerState → WorkerContext
  | .idle | .returned => ctx
  | .calling _ _ =>
    { ctx with
      record.counts.inFlight := ctx.record.counts.inFlight - 1
      queue := ctx.queue.taskDone }
  | _ => ctx.withQueue ctx.queue.taskDone

section Task

variable {R : Type*} (J : JobRunner R)

def JobRunner.startTask (now wall : ℚ) : JobTask J.concurrency := { job := J.start now wall }

def taskStep (t : JobTask J.concurrency) :
    TaskAction R J.concurrency → Option (JobTask J.concurrency)
  | .job a =>
    if t.unwinding ∧ a.byTasks then none else (step J t.job a).map fun job => { t with job }
  | .cancel saved =>
    match t.job.phase with
    | .finished _ => none
    | .gathering _ => some { t with unwinding := true }
    | _ => some { t with job := interrupt t.job saved }
  | .drop =>
    if t.job.phase = .starting then
      some { t with job.phase := .finished (some .cancelled), dropped := true }
    else none
  | .unwind i =>
    if t.unwinding ∧ t.job.workers i ≠ .returned then
      some { t with
        job.ctx := unwindWorker t.job.ctx (t.job.workers i)
        job.workers := Function.update t.job.workers i .returned }
    else none
  | .unwound =>
    if t.unwinding ∧ ∀ i, t.job.workers i = .returned then
      some { t with job.phase := .finished (some .cancelled) }
    else none

/-! ## What one step of the task can do -/

inductive JobTaskTurn (t : JobTask J.concurrency) :
    TaskAction R J.concurrency → JobTask J.concurrency → Prop
  | job {a : Action R J.concurrency} {s' : State J.concurrency}
      (hfree : t.unwinding = true → a.byTasks = false) (hstep : step J t.job a = some s') :
      JobTaskTurn t (.job a) { t with job := s' }
  | passedOn {saved : Bool} {exc : Option RunException} (hphase : t.job.phase = .gathering exc) :
      JobTaskTurn t (.cancel saved) { t with unwinding := true }
  | interrupted {saved : Bool} (hopen : ∀ exc, t.job.phase ≠ .finished exc)
      (hgather : ∀ exc, t.job.phase ≠ .gathering exc) :
      JobTaskTurn t (.cancel saved) { t with job := interrupt t.job saved }
  | dropped (hphase : t.job.phase = .starting) :
      JobTaskTurn t .drop { t with job.phase := .finished (some .cancelled), dropped := true }
  | unwinds {i : Fin J.concurrency} (hunwinding : t.unwinding = true) :
      JobTaskTurn t (.unwind i)
        { t with
          job.ctx := unwindWorker t.job.ctx (t.job.workers i)
          job.workers := Function.update t.job.workers i .returned }
  | unwound (hunwinding : t.unwinding = true) :
      JobTaskTurn t .unwound { t with job.phase := .finished (some .cancelled) }

variable {J}

theorem taskStep_turn {t t' : JobTask J.concurrency} {a : TaskAction R J.concurrency}
    (h : taskStep J t a = some t') : JobTaskTurn J t a t' := by
  cases a with
  | job a =>
    simp only [taskStep] at h
    split at h
    · cases h
    · rename_i hfree
      obtain ⟨s', hstep, rfl⟩ := Option.map_eq_some_iff.mp h
      exact .job (fun hunwinding => by simpa [hunwinding] using hfree) hstep
  | cancel saved =>
    simp only [taskStep] at h
    split at h
    · cases h
    · rename_i hphase
      obtain rfl := Option.some.inj h
      exact .passedOn hphase
    · rename_i hfinished hgather
      obtain rfl := Option.some.inj h
      exact .interrupted hfinished hgather
  | drop =>
    simp only [taskStep] at h
    split at h
    · obtain rfl := Option.some.inj h
      exact .dropped ‹_›
    · cases h
  | unwind i =>
    simp only [taskStep] at h
    split at h
    · rename_i hcond
      obtain rfl := Option.some.inj h
      exact .unwinds hcond.1
    · cases h
  | unwound =>
    simp only [taskStep] at h
    split at h
    · rename_i hcond
      obtain rfl := Option.some.inj h
      exact .unwound hcond.1
    · cases h

/-! ## What a cancellation leaves -/

def JobTask.Cancelled {n : ℕ} (t : JobTask n) : Prop :=
  t.job.phase.exc = some .cancelled ∨ t.unwinding = true ∧ ∃ exc, t.job.phase = .gathering exc

/-- A cancelled task whose record is not final, and will never be. -/
structure CutShort {n : ℕ} (t : JobTask n) : Prop where
  cancelled : t.Cancelled
  status : ¬ t.job.ctx.record.status.IsTerminal
  estimate : t.job.ctx.record.usage.estimatedCostUsd = 0
  store : StoreOpen t.job.store

/-- A task that was cancelled when its record was final. -/
structure Late (J : JobRunner R) (t : JobTask J.concurrency) : Prop where
  phase : t.job.phase = .finished (some .cancelled)
  attended : t.unwinding = false
  entered : t.dropped = false
  returned : ∀ i, t.job.workers i = .returned
  final : Finalized t.job.ctx.record
  estimate : t.job.ctx.record.usage.estimatedCostUsd =
    costUsd J.toWorkerConfig t.job.ctx.record.usage
  store : StoreOpen t.job.store ∨ t.job.store = some t.job.ctx.record

inductive TaskFacts (J : JobRunner R) (t : JobTask J.concurrency) : Prop
  | undisturbed (hreach : Reachable J t.job) (hattended : t.unwinding = false)
      (hentered : t.dropped = false)
  | cut (hcut : CutShort t)
  | late (hlate : Late J t)

theorem undisturbed_not_cancelled {t : JobTask J.concurrency} (hreach : Reachable J t.job)
    (hattended : t.unwinding = false) : ¬ t.Cancelled := by
  rintro (h | ⟨h, -⟩)
  · exact reachable_uncancelled hreach h
  · rw [hattended] at h
    cases h

theorem Late.cancelled {t : JobTask J.concurrency} (h : Late J t) : t.Cancelled := by
  refine Or.inl ?_
  rw [h.phase]
  rfl

/-- The tail of `run` has not written the record. -/
def RunPhase.BeforeTail (p : RunPhase) : Prop := p ≠ .savingFinal ∧ p ≠ .delivering

theorem interrupt_early {n : ℕ} {s : State n} (saved : Bool)
    (hopen : ∀ exc, s.phase ≠ .finished exc) (hgather : ∀ exc, s.phase ≠ .gathering exc)
    (hbefore : s.phase.BeforeTail) :
    (interrupt s saved).phase.exc = some .cancelled ∧
      ((interrupt s saved).ctx.record.status = s.ctx.record.status ∨
        (interrupt s saved).ctx.record.status = .running) ∧
      ((interrupt s saved).store = s.store ∨
        (interrupt s saved).store = some (interrupt s saved).ctx.record) := by
  unfold interrupt
  split
  · refine ⟨rfl, Or.inr rfl, ?_⟩
    cases saved
    · exact Or.inl rfl
    · exact Or.inr rfl
  · exact ⟨rfl, Or.inl rfl, Or.inl rfl⟩
  · exact ⟨rfl, Or.inl rfl, Or.inl rfl⟩
  · refine ⟨rfl, Or.inl rfl, ?_⟩
    cases saved
    · exact Or.inl rfl
    · exact Or.inr rfl
  · exact ⟨rfl, Or.inl rfl, Or.inl rfl⟩
  · exact ⟨rfl, Or.inl rfl, Or.inl rfl⟩
  · exact absurd ‹_› hbefore.2
  · exact ⟨rfl, Or.inl rfl, Or.inl rfl⟩
  · exact absurd ‹_› hbefore.1
  · exact absurd ‹_› (hgather _)
  · exact absurd ‹_› (hopen _)

theorem interrupt_late {n : ℕ} {s : State n} (saved : Bool) (hlate : ¬ s.phase.BeforeTail) :
    interrupt s saved =
      { s with
        store := if s.phase = .savingFinal ∧ saved = true then some s.ctx.record else s.store
        phase := .finished (some .cancelled) } := by
  unfold interrupt
  cases hphase : s.phase with
  | savingFinal => simp
  | delivering => simp
  | _ => exact absurd ⟨by rw [hphase]; exact nofun, by rw [hphase]; exact nofun⟩ hlate

theorem interrupt_usage {n : ℕ} (s : State n) (saved : Bool) :
    (interrupt s saved).ctx.record.usage = s.ctx.record.usage := by
  unfold interrupt
  split <;> rfl

theorem unwindWorker_record (ctx : WorkerContext) (ws : WorkerState) :
    (unwindWorker ctx ws).record.status = ctx.record.status ∧
      (unwindWorker ctx ws).record.usage = ctx.record.usage := by
  cases ws <;> exact ⟨rfl, rfl⟩

/-- The rest of a cancelled run writes neither the status nor the estimate nor the store. -/
theorem step_cut {s s' : State J.concurrency} {a : Action R J.concurrency} (h : JobTurn J s a s')
    (hcut : s.phase.exc = some .cancelled ∨ a.byTasks = false) :
    s'.phase.exc = s.phase.exc ∧ (a.byTasks = false → s'.phase = s.phase) ∧
      s'.ctx.record.status = s.ctx.record.status ∧
      s'.ctx.record.usage.estimatedCostUsd = s.ctx.record.usage.estimatedCostUsd ∧
      s'.store = s.store := by
  cases h with
  | tick _ | cancel | wrote _ | timedOut _ => exact ⟨rfl, fun _ => rfl, rfl, rfl, rfl⟩
  | @worker i input ctx' ws' e _ hdoes =>
    refine ⟨rfl, nofun, ?_, ?_, rfl⟩
    · rw [hdoes.record]
      exact settles_status e.rows s.ctx.record
    · rw [hdoes.record]
      exact settles_estimate e.rows s.ctx.record
  | closed hphase | sentinel hphase _ | gathering hphase | gathered hphase _ | reraised hphase =>
    rw [hphase]
    exact ⟨rfl, nofun, rfl, rfl, rfl⟩
  | ended hphase _ | dropped hphase _ _ | ingested hphase _ | begun hphase | put hphase _ _
  | saved hphase _ | costRaised hphase _ | finalized hphase _ | savedFinal hphase
  | delivered hphase =>
    rw [hphase] at hcut
    rcases hcut with hcut | hcut <;> cases hcut

/-! ## One step -/

theorem stage_of_beforeTail {s : State J.concurrency} (hopen : ∀ exc, s.phase ≠ .finished exc)
    (hbefore : s.phase.BeforeTail) : s.phase.stage = .unfinalized := by
  cases hphase : s.phase with
  | savingFinal => exact absurd hphase hbefore.1
  | delivering => exact absurd hphase hbefore.2
  | finished exc => exact absurd hphase (hopen exc)
  | _ => rfl

theorem cut_of_unfinalized {t : JobTask J.concurrency} (hreach : Reachable J t.job)
    (hstage : t.job.phase.stage = .unfinalized) {t' : JobTask J.concurrency}
    (hcancelled : t'.Cancelled)
    (hstatus : t'.job.ctx.record.status = t.job.ctx.record.status ∨
      t'.job.ctx.record.status = .running)
    (husage : t'.job.ctx.record.usage = t.job.ctx.record.usage)
    (hstore : t'.job.store = t.job.store ∨ t'.job.store = some t'.job.ctx.record) :
    CutShort t' := by
  have hfacts := reachable_stageFacts hreach
  have hestimate := reachable_estimated hreach
  unfold Estimated at hestimate
  rw [hstage] at hfacts hestimate
  have hnot : ¬ t'.job.ctx.record.status.IsTerminal := by
    rcases hstatus with hstatus | hstatus <;> rw [hstatus]
    · exact hfacts.1
    · exact running_open
  refine ⟨hcancelled, hnot, by rw [husage]; exact hestimate, ?_⟩
  rcases hstore with hstore | hstore <;> rw [hstore]
  · exact hfacts.2
  · exact fun r hr => Option.some.inj hr ▸ hnot

/-- The rest of a run whose record is final touches the clocks and the sink. -/
theorem step_late {s s' : State J.concurrency} {a : Action R J.concurrency} (h : JobTurn J s a s')
    {exc : Option RunException} (hphase : s.phase = .finished exc)
    (hreturned : ∀ i, s.workers i = .returned) :
    a.byTasks = false ∧ s'.phase = s.phase ∧ s'.workers = s.workers ∧
      s'.ctx.record = s.ctx.record ∧ s'.store = s.store := by
  cases h with
  | tick _ | cancel | wrote _ | timedOut _ => exact ⟨rfl, rfl, rfl, rfl, rfl⟩
  | worker hturn _ => exact absurd (hreturned _) (turn_not_returned hturn)
  | begun hp | ended hp _ | dropped hp _ _ | ingested hp _ | put hp _ _ | saved hp _ | closed hp
  | sentinel hp _ | gathering hp | gathered hp _ | reraised hp | costRaised hp _ | finalized hp _
  | savedFinal hp | delivered hp =>
    rw [hp] at hphase
    cases hphase

/-- One step of the task, by what was known before it. -/
inductive TaskMove (J : JobRunner R) (t : JobTask J.concurrency) :
    TaskAction R J.concurrency → JobTask J.concurrency → Prop
  | works {a : Action R J.concurrency} {s' : State J.concurrency} (hreach : Reachable J t.job)
      (hattended : t.unwinding = false) (hentered : t.dropped = false)
      (hstep : step J t.job a = some s') : TaskMove J t (.job a) { t with job := s' }
  | cuts {a : TaskAction R J.concurrency} {t' : JobTask J.concurrency}
      (hreach : Reachable J t.job) (hattended : t.unwinding = false)
      (ha : a = .drop ∨ ∃ saved, a = .cancel saved) (hbefore : t.job.phase.BeforeTail)
      (hopen : ∀ exc, t.job.phase ≠ .finished exc) (hcut : CutShort t') : TaskMove J t a t'
  | comesLate {saved : Bool} (hreach : Reachable J t.job) (hattended : t.unwinding = false)
      (hentered : t.dropped = false) (hlate : ¬ t.job.phase.BeforeTail) :
      TaskMove J t (.cancel saved) { t with job := interrupt t.job saved }
  | stays {a : TaskAction R J.concurrency} {t' : JobTask J.concurrency} (hcut : CutShort t)
      (hcut' : CutShort t') : TaskMove J t a t'
  | rests {a : Action R J.concurrency} {s' : State J.concurrency} (hlate : Late J t)
      (hquiet : a.byTasks = false) (hphase : s'.phase = t.job.phase)
      (hworkers : s'.workers = t.job.workers) (hrecord : s'.ctx.record = t.job.ctx.record)
      (hstore : s'.store = t.job.store) : TaskMove J t (.job a) { t with job := s' }

theorem undisturbed_move {t t' : JobTask J.concurrency} {a : TaskAction R J.concurrency}
    (h : JobTaskTurn J t a t') (hreach : Reachable J t.job) (hattended : t.unwinding = false)
    (hentered : t.dropped = false) : TaskMove J t a t' := by
  cases h with
  | job _ hstep => exact .works hreach hattended hentered hstep
  | @passedOn saved exc hphase =>
    have hstage : t.job.phase.stage = .unfinalized := by rw [hphase]; rfl
    refine .cuts hreach hattended (Or.inr ⟨saved, rfl⟩) (by rw [hphase]; exact ⟨nofun, nofun⟩)
      (by rw [hphase]; exact fun _ => nofun) ?_
    exact cut_of_unfinalized hreach hstage (Or.inr ⟨rfl, exc, hphase⟩) (Or.inl rfl) rfl
      (Or.inl rfl)
  | @interrupted saved hopen hgather =>
    by_cases hbefore : t.job.phase.BeforeTail
    · obtain ⟨hexc, hstatus, hstore⟩ := interrupt_early saved hopen hgather hbefore
      exact .cuts hreach hattended (Or.inr ⟨saved, rfl⟩) hbefore hopen
        (cut_of_unfinalized hreach (stage_of_beforeTail hopen hbefore) (Or.inl hexc) hstatus
          (interrupt_usage t.job saved) hstore)
    · exact .comesLate hreach hattended hentered hbefore
  | dropped hphase =>
    have hstage : t.job.phase.stage = .unfinalized := by rw [hphase]; rfl
    refine .cuts hreach hattended (Or.inl rfl) (by rw [hphase]; exact ⟨nofun, nofun⟩)
      (by rw [hphase]; exact fun _ => nofun) ?_
    exact cut_of_unfinalized hreach hstage (Or.inl rfl) (Or.inl rfl) rfl (Or.inl rfl)
  | unwinds hunwinding =>
    rw [hattended] at hunwinding
    cases hunwinding
  | unwound hunwinding =>
    rw [hattended] at hunwinding
    cases hunwinding

theorem beforeTail_of_cancelled {t : JobTask J.concurrency} (h : t.Cancelled) :
    t.job.phase.BeforeTail := by
  rcases h with h | ⟨-, exc, h⟩
  · refine ⟨fun hphase => ?_, fun hphase => ?_⟩ <;> rw [hphase] at h <;> cases h
  · rw [h]
    exact ⟨nofun, nofun⟩

theorem cut_step {t t' : JobTask J.concurrency} {a : TaskAction R J.concurrency}
    (h : JobTaskTurn J t a t') (hs : CutShort t) : CutShort t' := by
  obtain ⟨hcancelled, hstatus, hestimate, hstore⟩ := hs
  cases h with
  | @job a s' hfree hstep =>
    have hquiet : t.job.phase.exc = some .cancelled ∨ a.byTasks = false :=
      hcancelled.imp id fun hgather => hfree hgather.1
    obtain ⟨hexc, hphase, hstatus', hestimate', hstore'⟩ := step_cut (step_turn hstep) hquiet
    refine ⟨?_, hstatus' ▸ hstatus, hestimate'.trans hestimate, hstore' ▸ hstore⟩
    rcases hcancelled with hcancelled | ⟨hunwinding, exc, hgather⟩
    · exact Or.inl (hexc.trans hcancelled)
    · exact Or.inr ⟨hunwinding, exc, (hphase (hfree hunwinding)).trans hgather⟩
  | passedOn hphase => exact ⟨Or.inr ⟨rfl, _, hphase⟩, hstatus, hestimate, hstore⟩
  | @interrupted saved hopen hgather =>
    obtain ⟨hexc, hstatus', hstore'⟩ :=
      interrupt_early saved hopen hgather (beforeTail_of_cancelled hcancelled)
    have hnot : ¬ (interrupt t.job saved).ctx.record.status.IsTerminal := by
      rcases hstatus' with hstatus' | hstatus' <;> rw [hstatus']
      · exact hstatus
      · exact running_open
    refine ⟨Or.inl hexc, hnot, ?_, ?_⟩
    · show (interrupt t.job saved).ctx.record.usage.estimatedCostUsd = 0
      rw [interrupt_usage]
      exact hestimate
    · rcases hstore' with hstore' | hstore'
      · exact fun r hr => hstore r (hstore' ▸ hr)
      · exact fun r hr => Option.some.inj (hstore'.symm.trans hr) ▸ hnot
  | dropped _ => exact ⟨Or.inl rfl, hstatus, hestimate, hstore⟩
  | @unwinds i hunwinding =>
    obtain ⟨hstatus', husage'⟩ := unwindWorker_record t.job.ctx (t.job.workers i)
    exact ⟨hcancelled, by rw [hstatus']; exact hstatus, by rw [husage']; exact hestimate, hstore⟩
  | unwound _ => exact ⟨Or.inl rfl, hstatus, hestimate, hstore⟩

theorem taskTurn_move {t t' : JobTask J.concurrency} {a : TaskAction R J.concurrency}
    (h : JobTaskTurn J t a t') (hs : TaskFacts J t) : TaskMove J t a t' := by
  cases hs with
  | undisturbed hreach hattended hentered => exact undisturbed_move h hreach hattended hentered
  | cut hcut => exact .stays hcut (cut_step h hcut)
  | late hlate =>
    cases h with
    | job _ hstep =>
      obtain ⟨hquiet, hphase, hworkers, hrecord, hstore⟩ :=
        step_late (step_turn hstep) hlate.phase hlate.returned
      exact .rests hlate hquiet hphase hworkers hrecord hstore
    | passedOn hphase =>
      rw [hlate.phase] at hphase
      cases hphase
    | interrupted hopen _ => exact absurd hlate.phase (hopen _)
    | dropped hphase =>
      rw [hlate.phase] at hphase
      cases hphase
    | unwinds hunwinding =>
      rw [hlate.attended] at hunwinding
      cases hunwinding
    | unwound hunwinding =>
      rw [hlate.attended] at hunwinding
      cases hunwinding

theorem tail_of_late {p : RunPhase} (hlate : ¬ p.BeforeTail) :
    p = .savingFinal ∨ p = .delivering := by
  by_contra hneither
  exact hlate (not_or.mp hneither)

theorem late_interrupt {t : JobTask J.concurrency} (saved : Bool) (hreach : Reachable J t.job)
    (hattended : t.unwinding = false) (hentered : t.dropped = false)
    (hlate : ¬ t.job.phase.BeforeTail) :
    Late J { t with job := interrupt t.job saved } := by
  have hphase := tail_of_late hlate
  have hdrained : t.job.phase.Drained := by rcases hphase with h | h <;> rw [h] <;> trivial
  obtain ⟨ts, m, horder⟩ := reachable_orderly hreach
  have hfacts := reachable_stageFacts hreach
  have hestimate := reachable_estimated hreach
  have hopen := reachable_storeOpen hreach
  unfold Estimated at hestimate
  rw [interrupt_late saved hlate]
  refine ⟨rfl, hattended, hentered, horder.drained hdrained, ?_, ?_, ?_⟩
  · rcases hphase with h | h <;> rw [h] at hfacts <;> exact hfacts.1
  · rcases hphase with h | h <;> rw [h] at hestimate <;> exact hestimate
  · rcases hphase with h | h
    · rw [h] at hopen
      show StoreOpen (if _ then _ else _) ∨ (if _ then _ else _) = _
      split
      · exact Or.inr rfl
      · exact Or.inl (hopen nofun)
    · rw [h] at hfacts
      refine Or.inr ?_
      show (if t.job.phase = .savingFinal ∧ saved = true then _ else t.job.store) = _
      rw [h, if_neg fun hboth => nomatch hboth.1]
      exact hfacts.2.2

theorem move_facts {t t' : JobTask J.concurrency} {a : TaskAction R J.concurrency}
    (h : TaskMove J t a t') : TaskFacts J t' := by
  cases h with
  | works hreach hattended hentered hstep =>
    exact .undisturbed (hreach.step hstep) hattended hentered
  | cuts _ _ _ _ _ hcut => exact .cut hcut
  | comesLate hreach hattended hentered hlate =>
    exact .late (late_interrupt _ hreach hattended hentered hlate)
  | stays _ hcut' => exact .cut hcut'
  | rests hlate _ hphase hworkers hrecord hstore =>
    refine .late ⟨hphase.trans hlate.phase, hlate.attended, hlate.entered, ?_, ?_, ?_, ?_⟩
    · exact fun i => (congrFun hworkers i).trans (hlate.returned i)
    · rw [hrecord]
      exact hlate.final
    · rw [hrecord]
      exact hlate.estimate
    · rw [hrecord, hstore]
      exact hlate.store

theorem taskFacts_start (J : JobRunner R) (now wall : ℚ) : TaskFacts J (J.startTask now wall) :=
  .undisturbed (reachable_start J now wall) rfl rfl

theorem taskFacts_step {t t' : JobTask J.concurrency} {a : TaskAction R J.concurrency}
    (hs : TaskFacts J t) (h : taskStep J t a = some t') : TaskFacts J t' :=
  move_facts (taskTurn_move (taskStep_turn h) hs)

/-! ## The record that the task leaves -/

/-- The task is cancelled before the last save has gone through. -/
def CancelsBeforeSave {n : ℕ} (t : JobTask n) : TaskAction R n → Prop
  | .cancel saved => ¬ (t.job.phase = .delivering ∨ t.job.phase = .savingFinal ∧ saved = true)
  | .drop => True
  | _ => False

/-- Nothing on this step keeps the record from being saved as final. -/
def TaskUntroubled (J : JobRunner R) (t : JobTask J.concurrency)
    (a : TaskAction R J.concurrency) : Prop :=
  (∀ b, a = .job b → Untroubled J t.job b) ∧ ¬ CancelsBeforeSave t a

/-- The job will not be saved as final. -/
def TaskDoomed {n : ℕ} (t : JobTask n) : Prop :=
  t.Cancelled ∧ StoreOpen t.job.store ∨ ¬ t.Cancelled ∧ Doomed t.job

theorem taskDoomed_undisturbed {t : JobTask J.concurrency} (hreach : Reachable J t.job)
    (hattended : t.unwinding = false) : TaskDoomed t ↔ Doomed t.job := by
  have hnot := undisturbed_not_cancelled hreach hattended
  unfold TaskDoomed
  simp [hnot]

theorem taskDoomed_cancelled {n : ℕ} {t : JobTask n} (h : t.Cancelled) :
    TaskDoomed t ↔ StoreOpen t.job.store := by
  unfold TaskDoomed
  simp [h]

theorem untroubled_of_quiet {s : State J.concurrency} {a : Action R J.concurrency}
    (hquiet : a.byTasks = false) : Untroubled J s a := by
  cases a with
  | runner raises => cases hquiet
  | worker i input => cases hquiet
  | _ =>
    constructor
    · intro hfault
      cases hfault.1
    · rintro (hcheck | htail)
      · cases hcheck
      · cases htail.1

theorem not_doomed_of_tail {s : State J.concurrency} (h : Reachable J s)
    (hlate : ¬ s.phase.BeforeTail) : ¬ Doomed s := by
  have hfacts := reachable_stageFacts h
  have hdrained : s.phase.Drained := by rcases tail_of_late hlate with h | h <;> rw [h] <;> trivial
  have hconserved : s.ctx.record.counts.conserved := by
    rcases tail_of_late hlate with h | h <;> rw [h] at hfacts
    · exact hfacts.2
    · exact hfacts.2.1
  unfold Doomed
  rw [not_or, not_or]
  refine ⟨?_, ?_, (conserved_iff h hdrained).mp hconserved⟩ <;>
    rcases tail_of_late hlate with h | h <;> rw [h] <;> exact nofun

/-- A cancellation in the tail leaves an old record in the store exactly if it stops the save. -/
theorem storeOpen_interrupt {s : State J.concurrency} (saved : Bool) (h : Reachable J s)
    (hlate : ¬ s.phase.BeforeTail) :
    StoreOpen (interrupt s saved).store ↔
      ¬ (s.phase = .delivering ∨ s.phase = .savingFinal ∧ saved = true) := by
  have hfacts := reachable_stageFacts h
  have hopen := reachable_storeOpen h
  rw [interrupt_late saved hlate]
  rcases tail_of_late hlate with hphase | hphase
  · rw [hphase] at hfacts hopen
    cases saved with
    | false =>
      have hstore : StoreOpen s.store := hopen nofun
      simpa [hphase] using hstore
    | true =>
      have hnot : ¬ StoreOpen (some s.ctx.record) := fun hall => hall _ rfl hfacts.1.1
      simpa [hphase] using hnot
  · rw [hphase] at hfacts
    have hnot : ¬ StoreOpen s.store := fun hall => hall _ hfacts.2.2 hfacts.1.1
    simpa [hphase] using hnot

theorem move_doomed {t t' : JobTask J.concurrency} {a : TaskAction R J.concurrency}
    (h : TaskMove J t a t') : TaskDoomed t' ↔ TaskDoomed t ∨ ¬ TaskUntroubled J t a := by
  cases h with
  | @works b s' hreach hattended hentered hstep =>
    have hfacts : TaskUntroubled J t (.job b) ↔ Untroubled J t.job b := by
      unfold TaskUntroubled
      simp [CancelsBeforeSave]
    have hnext : TaskDoomed { t with job := s' } ↔ Doomed s' :=
      taskDoomed_undisturbed (t := { t with job := s' }) (hreach.step hstep) hattended
    rw [taskDoomed_undisturbed hreach hattended, hnext, hfacts]
    exact step_doomed hreach (step_turn hstep)
  | cuts hreach _ ha hbefore _ hcut =>
    refine iff_of_true ((taskDoomed_cancelled hcut.cancelled).mpr hcut.store) (Or.inr ?_)
    rintro ⟨-, hsave⟩
    obtain rfl | ⟨saved, rfl⟩ := ha
    · exact hsave trivial
    · exact hsave fun hlate => hlate.elim hbefore.2 fun hlate => hbefore.1 hlate.1
  | @comesLate saved hreach hattended hentered hlate =>
    have hdoomed := (late_interrupt saved hreach hattended hentered hlate).cancelled
    rw [taskDoomed_cancelled hdoomed, taskDoomed_undisturbed hreach hattended,
      or_iff_right (not_doomed_of_tail hreach hlate)]
    have hfacts : TaskUntroubled J t (.cancel saved) ↔
        t.job.phase = .delivering ∨ t.job.phase = .savingFinal ∧ saved = true :=
      ⟨fun h => not_not.mp h.2, fun h => ⟨nofun, not_not.mpr h⟩⟩
    rw [hfacts]
    exact storeOpen_interrupt saved hreach hlate
  | stays hcut hcut' =>
    exact iff_of_true ((taskDoomed_cancelled hcut'.cancelled).mpr hcut'.store)
      (Or.inl ((taskDoomed_cancelled hcut.cancelled).mpr hcut.store))
  | @rests b s' hlate hquiet hphase hworkers hrecord hstore =>
    have hcancelled : JobTask.Cancelled { t with job := s' } := by
      refine Or.inl ?_
      rw [hphase, hlate.phase]
      rfl
    have huntroubled : TaskUntroubled J t (.job b) := by
      refine ⟨fun c hc => ?_, id⟩
      obtain rfl := TaskAction.job.inj hc
      exact untroubled_of_quiet hquiet
    rw [taskDoomed_cancelled hcancelled, taskDoomed_cancelled hlate.cancelled, hstore]
    exact (or_iff_left (not_not.mpr huntroubled)).symm

theorem taskDoomed_start (J : JobRunner R) (now wall : ℚ) :
    ¬ TaskDoomed (J.startTask now wall) := by
  rw [taskDoomed_undisturbed (reachable_start J now wall) rfl]
  unfold Doomed
  rw [show unresolved (J.startTask now wall).job = 0 from unresolved_start J now wall]
  rintro (h | h | h)
  · cases h
  · cases h
  · exact lt_irrefl _ h

theorem task_terminalSaved_iff {t : JobTask J.concurrency} (h : TaskFacts J t)
    {exc : Option RunException} (hfin : t.job.phase = .finished exc) :
    TerminalSaved t.job ↔ ¬ TaskDoomed t := by
  cases h with
  | undisturbed hreach hattended _ =>
    rw [taskDoomed_undisturbed hreach hattended]
    exact terminalSaved_iff hreach hfin
  | cut hcut =>
    rw [taskDoomed_cancelled hcut.cancelled]
    exact iff_of_false (fun hsaved => hcut.status hsaved.1) (not_not.mpr hcut.store)
  | late hlate =>
    rw [taskDoomed_cancelled hlate.cancelled]
    constructor
    · exact fun hsaved hopen => hopen _ hsaved.2.2 hsaved.1
    · exact fun hclosed => ⟨hlate.final.1, hlate.final.2, hlate.store.resolve_left hclosed⟩

/-- A job whose task is over has a terminal status and is saved exactly if its stream did
not raise while it was read, computing the cost did not raise, and the task was not
cancelled before the last save had gone through. -/
theorem terminalSaved_iff_untroubled {now wall : ℚ}
    {actions : List (TaskAction R J.concurrency)} {t : JobTask J.concurrency}
    {exc : Option RunException}
    (hrun : Runs.exec (taskStep J) (J.startTask now wall) actions = some t)
    (hfin : t.job.phase = .finished exc) :
    TerminalSaved t.job ↔
      Runs.Along (taskStep J) (TaskUntroubled J) (J.startTask now wall) actions := by
  have hfacts : TaskFacts J t :=
    Runs.exec_invariant' (I := TaskFacts J) (fun _ _ _ hs ht => taskFacts_step hs ht)
      (taskFacts_start J now wall) hrun
  rw [task_terminalSaved_iff hfacts hfin, Runs.flawless_iff_along (I := TaskFacts J)
    (fun _ _ _ hs ht => taskFacts_step hs ht)
    (fun _ _ _ hs ht => move_doomed (taskTurn_move (taskStep_turn ht) hs))
    (taskFacts_start J now wall) hrun]
  exact and_iff_right (taskDoomed_start J now wall)

end Task

/-- One prompt, then a JSON syntax error: the stream yields the row and raises. -/
def cutOff : JobRunner CallResult where
  provider := scripted (1 / 5) (1 / 5)
  config := { concurrency := some 1 }
  input := { entries := [.item ⟨"a", "hello"⟩], raises := true }

def cutOffRun : List (Action CallResult 1) :=
  List.replicate 3 (.runner false) ++
  [.nth 0 .take, .nth 0 (.reply (.returned { statusCode := 200, text := "hi" }) 0 false)] ++
  List.replicate 4 (.runner false) ++ [.nth 0 .take, .runner false, .writer, .writer, .runner false]

def cutOffEnd : JobTask 1 :=
  (Runs.exec (taskStep cutOff) (cutOff.startTask 0 0) (cutOffRun.map .job)).get (by decide +kernel)

theorem cutOffEnd_finished : cutOffEnd.job.phase = .finished (some .ingest) := by decide +kernel

/-- The job of `cutOff` is over, its one row is in the file, and it is still running. -/
theorem terminalSaved_fails : ∃ (J : JobRunner CallResult)
    (actions : List (TaskAction CallResult _)) (t : JobTask J.concurrency)
    (exc : Option RunException),
    Runs.exec (taskStep J) (J.startTask 0 0) actions = some t ∧ t.job.phase = .finished exc ∧
      t.job.ctx.record.status = .running ∧ ¬ TerminalSaved t.job := by
  refine ⟨cutOff, cutOffRun.map .job, cutOffEnd, _, (Option.some_get _).symm, cutOffEnd_finished,
    by decide +kernel, fun h => ?_⟩
  have hopen : ¬ cutOffEnd.job.ctx.record.status.IsTerminal := by decide +kernel
  exact hopen h.1

theorem terminalSaved_iff_untroubled_cutOff :
    TerminalSaved cutOffEnd.job ↔
      Runs.Along (taskStep cutOff) (TaskUntroubled cutOff) (cutOff.startTask 0 0)
        (cutOffRun.map .job) :=
  terminalSaved_iff_untroubled (Option.some_get _).symm cutOffEnd_finished

end BatchEngine.Core
